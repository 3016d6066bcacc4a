import Mathlib.Data.Rat.Defs
import Pingweave.AddressPublication
import Pingweave.Library.Dict

/-!
# How old a served address can be

`post_address` and `get_address_store` of the web server for any body and any clock. What Python
does with the values of a JSON body is a parameter: whether one is true, what it is as a key of a
dict, and what `int` and `str` make of it. `time.time()` is a number of seconds with a fraction, and
both functions cut the fraction off.
-/

namespace Pingweave
set_option autoImplicit false

/-- `none` stands for an exception: a value that cannot be a key, or that `int` refuses. -/
structure JsonValues (V K : Type) where
  truthy : V → Bool
  key : V → Option K
  int : V → Option Int
  str : V → Text

/-- The fields that `post_address` gets from the body, each of which may be missing. -/
structure AddressBody (V : Type) where
  ip_address : Option V
  gid : Option V
  lid : Option V
  qpn : Option V
  dtime : Option V

/-- A value of `time.time()`, in seconds. -/
abbrev WallClock := { t : Rat // 0 ≤ t }

/-- `int(time.time())` -/
def WallClock.int (t : WallClock) : Int := t.1.floor

/-- A list in the store, with `ip_address` and `gid` as they came. -/
structure StoredAddress (V : Type) where
  ip_address : V
  gid : V
  lid : Int
  qpn : Int
  dtime : Text
  utime : Int
  deriving DecidableEq

structure WebAddressStore (V K : Type) where
  entries : Dict K (StoredAddress V)
  checkpoint : Int

/-- A body is `none` when `request.json()` fails or gives no dict. -/
inductive AddressRequest (V : Type) where
  | post (body : Option (AddressBody V)) (now : WallClock)
  | get (now : WallClock)

def AddressRequest.now {V : Type} : AddressRequest V → WallClock
  | .post _ now => now
  | .get now => now

namespace WebAddressStore
variable {V K : Type} [DecidableEq K]

def init : WebAddressStore V K := ⟨∅, 0⟩

/-- What a good body puts under which key; otherwise the status of the answer. -/
def readBody (values : JsonValues V K) (body : Option (AddressBody V)) (now : WallClock) :
    Except Nat (K × StoredAddress V) :=
  match body with
  | none => .error 500
  | some ⟨some ip_address, some gid, some lid, some qpn, some dtime⟩ =>
    if [ip_address, gid, lid, qpn, dtime].all values.truthy then
      match values.int lid, values.int qpn, values.key ip_address with
      | some lid, some qpn, some key => .ok (key, ⟨ip_address, gid, lid, qpn, values.str dtime, now.int⟩)
      | _, _, _ => .error 500
    else .error 400
  | some _ => .error 400

/-- `len(address_store) > 10000` -/
def tooMany (s : WebAddressStore V K) : Bool := s.entries.entries.length > 10000

def put (s : WebAddressStore V K) (key : K) (entry : StoredAddress V) : WebAddressStore V K :=
  { s with entries := s.entries.assign key entry }

def postAddress (values : JsonValues V K) (s : WebAddressStore V K) (body : Option (AddressBody V)) (now : WallClock) :
    WebAddressStore V K × Nat :=
  match readBody values body now with
  | .error status => (s, status)
  | .ok (key, entry) =>
    let s := s.put key entry
    (if s.tooMany then { s with entries := ∅ } else s, 200)

def getAddressStore (s : WebAddressStore V K) (now : WallClock) : WebAddressStore V K × Dict K (StoredAddress V) :=
  let s : WebAddressStore V K :=
    if s.checkpoint + 60 < now.int then
      { entries := s.entries.filterValues fun value => ¬ value.utime + 300 < now.int
        checkpoint := now.int }
    else s
  (s, s.entries)

end WebAddressStore

/-- The store in a run, with the time of the last accepted post under each key and of the last request. -/
structure AddressHistory (V K : Type) where
  store : WebAddressStore V K
  lastPost : K → Option WallClock
  now : WallClock

namespace AddressHistory
variable {V K : Type} [DecidableEq K]

def init : AddressHistory V K := ⟨WebAddressStore.init, fun _ => none, ⟨0, Rat.le_refl⟩⟩

def step (values : JsonValues V K) (s : AddressHistory V K) : AddressRequest V → AddressHistory V K
  | .post body now =>
    { store := (s.store.postAddress values body now).1
      lastPost :=
        match WebAddressStore.readBody values body now with
        | .error _ => s.lastPost
        | .ok (key, _) => Function.update s.lastPost key (some now)
      now := now }
  | .get now => { s with store := (s.store.getAddressStore now).1, now := now }

/-- The clock does not run back. -/
def Later (s : AddressHistory V K) (r : AddressRequest V) : Prop := s.now.1 ≤ r.now.1

instance (s : AddressHistory V K) (r : AddressRequest V) : Decidable (s.Later r) :=
  inferInstanceAs (Decidable (s.now.1 ≤ r.now.1))

/-- The request is a post that makes the store exceed 10000 entries. -/
def Overflows (values : JsonValues V K) (s : AddressHistory V K) (r : AddressRequest V) : Prop :=
  ∃ body now key entry, r = .post body now ∧ WebAddressStore.readBody values body now = .ok (key, entry) ∧
    (s.store.put key entry).tooMany = true

/-- A body without one of the fields, or whose LID or QPN is no integer. -/
def BadBody (values : JsonValues V K) (body : Option (AddressBody V)) : Prop :=
  ∀ b, body = some b →
    (∃ field ∈ [b.ip_address, b.gid, b.lid, b.qpn, b.dtime], ∀ v, field = some v → values.truthy v = false) ∨
      b.lid.bind values.int = none ∨ b.qpn.bind values.int = none

/-- What is promised of a request: what it serves is fresh, what is recent stays, and a post that
fails changes nothing. -/
structure Fresh (values : JsonValues V K) (s : AddressHistory V K) (r : AddressRequest V) : Prop where
  served : ∀ now, r = .get now → ∀ key entry, (s.store.getAddressStore now).2.lookup key = some entry →
    ∃ u, s.lastPost key = some u ∧ now.int - u.int ≤ 360 ∧ now.1 - u.1 < 361
  stays : ∀ key entry u, s.store.entries.lookup key = some entry → s.lastPost key = some u → r.now.1 - u.1 ≤ 300 →
    ¬ s.Overflows values r →
      (s.step values r).store.entries.lookup key = some entry ∨
      ∃ body now entry', r = .post body now ∧ WebAddressStore.readBody values body now = .ok (key, entry') ∧
        (s.step values r).store.entries.lookup key = some entry'
  refused : ∀ body now, r = .post body now → BadBody values body → (s.store.postAddress values body now).2 ≠ 200
  unchanged : ∀ body now, r = .post body now → (s.store.postAddress values body now).2 ≠ 200 →
    (s.step values r).store = s.store

/-- Every entry is dated with its last post, and was recent at the checkpoint. -/
structure Aged (s : AddressHistory V K) : Prop where
  posted : ∀ key entry, s.store.entries.lookup key = some entry →
    ∃ u, s.lastPost key = some u ∧ entry.utime = u.int ∧ s.store.checkpoint ≤ u.int + 300
  checkpoint : s.store.checkpoint ≤ s.now.int

section Clock
variable {t u : WallClock}

theorem int_mono (h : u.1 ≤ t.1) : u.int ≤ t.int := Rat.floor_monotone h

/-- Cutting fractions off brings two times together by less than a second. -/
theorem sub_lt_of_int_sub_le {n : Int} (h : t.int - u.int ≤ n) : t.1 - u.1 < ((n + 1 : Int) : Rat) := by
  have ht := Rat.lt_floor_add_one t.1
  have hu := Rat.floor_le u.1
  have hsum : t.1.floor + 1 ≤ u.1.floor + (n + 1) := by
    have := h
    unfold WallClock.int at this
    omega
  have hcast : ((t.1.floor + 1 : Int) : Rat) ≤ ((u.1.floor + (n + 1) : Int) : Rat) := Rat.intCast_le_intCast.mpr hsum
  rw [Rat.intCast_add u.1.floor] at hcast
  grind

theorem int_sub_le_of_sub_le {n : Int} (h : t.1 - u.1 ≤ (n : Rat)) : t.int - u.int ≤ n := by
  have hle : t.1 ≤ u.1 + (n : Rat) := by grind
  have hfloor := Rat.floor_monotone hle
  rw [Rat.floor_add_intCast] at hfloor
  unfold WallClock.int
  omega

end Clock

section Runs
variable {values : JsonValues V K} {s : AddressHistory V K}

omit [DecidableEq K] in
theorem utime_of_readBody {body : Option (AddressBody V)} {now : WallClock} {key : K} {entry : StoredAddress V}
    (h : WebAddressStore.readBody values body now = .ok (key, entry)) : entry.utime = now.int := by
  unfold WebAddressStore.readBody at h
  split at h
  · cases h
  · split at h
    · split at h
      · cases h
        rfl
      · cases h
    · cases h
  · cases h

omit [DecidableEq K] in
theorem readBody_of_badBody {body : Option (AddressBody V)} (hbad : BadBody values body) (now : WallClock) :
    ∃ status, WebAddressStore.readBody values body now = .error status ∧ status ≠ 200 := by
  unfold WebAddressStore.readBody
  split
  · exact ⟨500, rfl, by decide⟩
  · rename_i ip_address gid lid qpn dtime
    split
    · rename_i htrue
      split
      · rename_i hlid hqpn hkey
        exfalso
        rcases hbad _ rfl with ⟨field, hfield, hfalse⟩ | hnone | hnone
        · have hall := List.all_eq_true.mp htrue
          have hv : ∃ v ∈ [ip_address, gid, lid, qpn, dtime], field = some v := by
            simpa [List.mem_cons, eq_comm] using hfield
          obtain ⟨v, hmem, rfl⟩ := hv
          exact absurd ((hfalse v rfl).symm.trans (hall v hmem)) Bool.false_ne_true
        · exact absurd (hnone.symm.trans hlid) (by simp)
        · exact absurd (hnone.symm.trans hqpn) (by simp)
      · exact ⟨500, rfl, by decide⟩
    · exact ⟨400, rfl, by decide⟩
  · exact ⟨400, rfl, by decide⟩

theorem aged_init : Aged (init : AddressHistory V K) where
  posted := by
    intro key entry h
    cases h
  checkpoint := by
    have hzero : (init : AddressHistory V K).now.int = 0 := by
      show Rat.floor 0 = 0
      decide
    rw [hzero]
    exact Int.le_refl 0

variable (values s) in
/-- What a post does to the store: nothing, a clear, or one entry. -/
theorem post_cases (body : Option (AddressBody V)) (now : WallClock) :
    (∃ status, WebAddressStore.readBody values body now = .error status ∧
      s.step values (.post body now) = { s with now := now }) ∨
    ∃ key entry, WebAddressStore.readBody values body now = .ok (key, entry) ∧
      (s.step values (.post body now)).lastPost = Function.update s.lastPost key (some now) ∧
      (((s.store.put key entry).tooMany = true ∧
        (s.step values (.post body now)).store = { s.store with entries := ∅ }) ∨
      ((s.store.put key entry).tooMany = false ∧
        (s.step values (.post body now)).store = s.store.put key entry)) := by
  cases hread : WebAddressStore.readBody values body now with
  | error status => exact Or.inl ⟨status, rfl, by simp only [step, WebAddressStore.postAddress, hread]⟩
  | ok posted =>
    obtain ⟨key, entry⟩ := posted
    refine Or.inr ⟨key, entry, rfl, by simp only [step, hread], ?_⟩
    cases hmany : (s.store.put key entry).tooMany with
    | true =>
      refine Or.inl ⟨rfl, ?_⟩
      simp only [step, WebAddressStore.postAddress, hread, hmany, if_true]
      rfl
    | false =>
      refine Or.inr ⟨rfl, ?_⟩
      simp only [step, WebAddressStore.postAddress, hread, hmany, Bool.false_eq_true, if_false]

theorem Aged.post (h : s.Aged) (body : Option (AddressBody V)) {now : WallClock} (hlater : s.now.1 ≤ now.1) :
    (s.step values (.post body now)).Aged := by
  have hnow := int_mono hlater
  have hcheckpoint := h.checkpoint
  obtain ⟨status, -, hstep⟩ | ⟨key, entry, hread, hlast, ⟨-, hstore⟩ | ⟨-, hstore⟩⟩ := post_cases values s body now
  · rw [hstep]
    exact ⟨h.posted, Int.le_trans hcheckpoint hnow⟩
  · refine ⟨?_, ?_⟩
    · intro key' entry' hlook
      rw [hstore] at hlook
      cases hlook
    · rw [hstore]
      exact Int.le_trans hcheckpoint hnow
  · refine ⟨?_, ?_⟩
    · intro key' entry' hlook
      rw [hstore] at hlook ⊢
      rw [hlast]
      simp only [WebAddressStore.put, Dict.lookup_assign] at hlook
      by_cases hkey : key' = key
      · rw [if_pos hkey] at hlook
        cases hlook
        rw [hkey, Function.update_self]
        refine ⟨now, rfl, utime_of_readBody hread, ?_⟩
        show s.store.checkpoint ≤ now.int + 300
        omega
      · rw [if_neg hkey] at hlook
        rw [Function.update_of_ne hkey]
        exact h.posted key' entry' hlook
    · rw [hstore]
      exact Int.le_trans hcheckpoint hnow

variable (values) in
/-- After a request the store is at most 60 seconds ahead of its checkpoint. -/
theorem Aged.get (h : s.Aged) {now : WallClock} (hlater : s.now.1 ≤ now.1) :
    (s.step values (.get now)).Aged ∧ now.int ≤ (s.store.getAddressStore now).1.checkpoint + 60 := by
  have hnow := int_mono hlater
  have hcheckpoint := h.checkpoint
  simp only [step, WebAddressStore.getAddressStore]
  split
  · refine ⟨⟨?_, Int.le_refl _⟩, by simp only []; omega⟩
    intro key entry hlook
    obtain ⟨hold, hkept⟩ := Dict.lookup_filterValues_eq_some.mp hlook
    obtain ⟨u, hu, hutime, -⟩ := h.posted key entry hold
    refine ⟨u, hu, hutime, ?_⟩
    have hrecent := of_decide_eq_true hkept
    show now.int ≤ u.int + 300
    omega
  · exact ⟨⟨h.posted, Int.le_trans hcheckpoint hnow⟩, by omega⟩

theorem Aged.step (h : s.Aged) {r : AddressRequest V} (hlater : s.Later r) : (s.step values r).Aged := by
  cases r with
  | post body now => exact h.post body hlater
  | get now => exact (h.get values hlater).1

theorem Aged.served (h : s.Aged) (values : JsonValues V K) {now : WallClock} (hlater : s.now.1 ≤ now.1) {key : K} {entry : StoredAddress V}
    (hlook : (s.store.getAddressStore now).2.lookup key = some entry) :
    ∃ u, s.lastPost key = some u ∧ now.int - u.int ≤ 360 ∧ now.1 - u.1 < 361 := by
  obtain ⟨haged, hrecent⟩ := h.get values hlater
  obtain ⟨u, hu, -, hcheckpoint⟩ := haged.posted key entry hlook
  have hcheck : (s.store.getAddressStore now).1.checkpoint ≤ u.int + 300 := hcheckpoint
  have hage : now.int - u.int ≤ 360 := by omega
  exact ⟨u, hu, hage, sub_lt_of_int_sub_le hage⟩

theorem Aged.stays (h : s.Aged) {r : AddressRequest V} {key : K} {entry : StoredAddress V} {u : WallClock}
    (hlook : s.store.entries.lookup key = some entry) (hu : s.lastPost key = some u) (hrecent : r.now.1 - u.1 ≤ 300)
    (hroom : ¬ s.Overflows values r) :
    (s.step values r).store.entries.lookup key = some entry ∨
      ∃ body now entry', r = .post body now ∧ WebAddressStore.readBody values body now = .ok (key, entry') ∧
        (s.step values r).store.entries.lookup key = some entry' := by
  cases r with
  | get now =>
    left
    simp only [AddressHistory.step, WebAddressStore.getAddressStore]
    split
    · refine Dict.lookup_filterValues_eq_some.mpr ⟨hlook, decide_eq_true ?_⟩
      obtain ⟨u', hu', hutime, -⟩ := h.posted key entry hlook
      rw [hu] at hu'
      cases hu'
      have hage : now.int - u.int ≤ 300 := int_sub_le_of_sub_le hrecent
      omega
    · exact hlook
  | post body now =>
    obtain ⟨status, -, hstep⟩ | ⟨key', entry', hread, -, ⟨hmany, -⟩ | ⟨-, hstore⟩⟩ := post_cases values s body now
    · rw [hstep]
      exact Or.inl hlook
    · exact absurd ⟨body, now, key', entry', rfl, hread, hmany⟩ hroom
    · rw [hstore, WebAddressStore.put, Dict.lookup_assign]
      by_cases hkey : key = key'
      · rw [if_pos hkey]
        exact Or.inr ⟨body, now, entry', rfl, hkey ▸ hread, rfl⟩
      · rw [if_neg hkey]
        exact Or.inl hlook

theorem Aged.fresh (h : s.Aged) {r : AddressRequest V} (hlater : s.Later r) : s.Fresh values r where
  served := by
    rintro now rfl key entry hlook
    exact h.served values hlater hlook
  stays := fun key entry u hlook hu hrecent hroom => h.stays hlook hu hrecent hroom
  refused := by
    rintro body now rfl hbad
    obtain ⟨status, hread, hne⟩ := readBody_of_badBody hbad now
    rw [WebAddressStore.postAddress, hread]
    exact hne
  unchanged := by
    rintro body now rfl hfailed
    simp only [AddressHistory.step]
    unfold WebAddressStore.postAddress at hfailed ⊢
    cases hread : WebAddressStore.readBody values body now with
    | error status => rfl
    | ok posted =>
      rw [hread] at hfailed
      exact absurd rfl hfailed

/-- Served entries were posted less than 361 seconds ago, 360 in whole seconds, and entries of the
last 300 seconds only go when the store overflows. -/
theorem address_freshness (values : JsonValues V K) (requests : List (AddressRequest V))
    (hclock : Runs.Along (step values) Later init requests) :
    Runs.Along (step values) (Fresh values) init requests :=
  Runs.along_of_invariant (P := Aged) (fun _ _ hs hlater => hs.step hlater) (fun _ _ hs hlater => hs.fresh hlater)
    aged_init hclock

end Runs

end AddressHistory

/-! ### Bodies of texts -/

/-- The values of a body that holds texts only, as the agents send it. -/
def textValues : JsonValues Text Text := ⟨fun s => s ≠ [], some, pyInt, id⟩

def AddressData.body (data : AddressData) : AddressBody Text :=
  ⟨data.ip_address, data.gid, data.lid, data.qpn, data.dtime⟩

namespace WebAddressStore

def textEntry (e : (_ : Text) × StoredAddress Text) : AddressEntry :=
  ⟨e.1, e.2.gid, e.2.lid, e.2.qpn, e.2.dtime, e.2.utime⟩

def toAddressStore (s : WebAddressStore Text Text) : AddressStore where
  entries := s.entries.entries.map textEntry
  nodup := by
    rw [List.map_map]
    exact s.entries.nodupKeys
  checkpoint := s.checkpoint

theorem addressStore_ext {s s' : AddressStore} (hentries : s.entries = s'.entries)
    (hcheckpoint : s.checkpoint = s'.checkpoint) : s = s' := by
  obtain ⟨entries, nodup, checkpoint⟩ := s
  obtain ⟨entries', nodup', checkpoint'⟩ := s'
  cases hentries
  cases hcheckpoint
  rfl

theorem entries_put (s : AddressStore) (e : AddressEntry) : (s.put e).entries =
    if ∃ e' ∈ s.entries, e'.ip_address = e.ip_address then
      s.entries.map fun e' => if e'.ip_address = e.ip_address then e else e'
    else s.entries ++ [e] := by
  unfold AddressStore.put
  split <;> rfl

theorem checkpoint_put (s : AddressStore) (e : AddressEntry) : (s.put e).checkpoint = s.checkpoint := by
  unfold AddressStore.put
  split <;> rfl

theorem toAddressStore_put (s : WebAddressStore Text Text) (key : Text) (entry : StoredAddress Text) :
    (s.put key entry).toAddressStore = s.toAddressStore.put (textEntry ⟨key, entry⟩) := by
  have hmem : key ∈ s.entries ↔ ∃ e ∈ s.toAddressStore.entries, e.ip_address = (textEntry ⟨key, entry⟩).ip_address := by
    simp only [toAddressStore, List.mem_map, exists_exists_and_eq_and]
    exact List.mem_map
  apply addressStore_ext
  · rw [entries_put, ← if_congr hmem rfl rfl]
    simp only [toAddressStore, put, Dict.entries_assign]
    split
    · rw [List.map_map, List.map_map]
      exact List.map_congr_left fun e _ => apply_ite textEntry (e.1 = key) ⟨key, entry⟩ e
    · exact List.map_append
  · rw [checkpoint_put]
    rfl

theorem tooMany_toAddressStore (s : WebAddressStore Text Text) :
    s.tooMany = true ↔ s.toAddressStore.entries.length > 10000 := by
  rw [tooMany, decide_eq_true_eq, toAddressStore, List.length_map]

/-- On texts the two functions are those that the agents' posts have been followed through. -/
theorem postAddress_text (s : WebAddressStore Text Text) (data : AddressData) (now : WallClock) :
    (s.postAddress textValues (some data.body) now).1.toAddressStore = (s.toAddressStore.postAddress data now.int).1 ∧
      (s.postAddress textValues (some data.body) now).2 = (s.toAddressStore.postAddress data now.int).2 := by
  match data with
  | ⟨none, _, _, _, _⟩ => exact ⟨rfl, rfl⟩
  | ⟨some _, none, _, _, _⟩ => exact ⟨rfl, rfl⟩
  | ⟨some _, some _, none, _, _⟩ => exact ⟨rfl, rfl⟩
  | ⟨some _, some _, some _, none, _⟩ => exact ⟨rfl, rfl⟩
  | ⟨some _, some _, some _, some _, none⟩ => exact ⟨rfl, rfl⟩
  | ⟨some ip_address, some gid, some lid, some qpn, some dtime⟩ =>
    have htruthy : [ip_address, gid, lid, qpn, dtime].all textValues.truthy = true ↔
        ip_address ≠ [] ∧ gid ≠ [] ∧ lid ≠ [] ∧ qpn ≠ [] ∧ dtime ≠ [] := by
      simp [textValues]
    simp only [postAddress, AddressData.body, readBody, AddressStore.postAddress]
    by_cases hall : [ip_address, gid, lid, qpn, dtime].all textValues.truthy = true
    · rw [if_pos hall, if_pos (htruthy.mp hall)]
      have hint : textValues.int = pyInt := rfl
      rw [hint]
      cases pyInt lid with
      | none => exact ⟨rfl, rfl⟩
      | some lid =>
        cases pyInt qpn with
        | none => exact ⟨rfl, rfl⟩
        | some qpn =>
          let entry : StoredAddress Text := ⟨ip_address, gid, lid, qpn, dtime, now.int⟩
          refine ⟨?_, rfl⟩
          show (if (s.put ip_address entry).tooMany = true then { s.put ip_address entry with entries := ∅ }
              else s.put ip_address entry).toAddressStore =
            if (s.toAddressStore.put (textEntry ⟨ip_address, entry⟩)).entries.length > 10000 then
              (s.toAddressStore.put (textEntry ⟨ip_address, entry⟩)).clear
            else s.toAddressStore.put (textEntry ⟨ip_address, entry⟩)
          rw [← toAddressStore_put, ← if_congr (tooMany_toAddressStore _) rfl rfl]
          split <;> rfl
    · rw [if_neg hall, if_neg fun h => hall (htruthy.mpr h)]
      exact ⟨rfl, rfl⟩

theorem getAddressStore_text (s : WebAddressStore Text Text) (now : WallClock) :
    (s.getAddressStore now).1.toAddressStore = (s.toAddressStore.getAddressStore now.int).1 := by
  unfold getAddressStore AddressStore.getAddressStore
  by_cases hpurge : s.checkpoint + 60 < now.int
  · rw [if_pos hpurge, if_pos (show s.toAddressStore.checkpoint + 60 < now.int from hpurge)]
    apply addressStore_ext
    · simp only [toAddressStore, Dict.filterValues, List.filter_map]
      rfl
    · rfl
  · rw [if_neg hpurge, if_neg (show ¬ s.toAddressStore.checkpoint + 60 < now.int from hpurge)]

end WebAddressStore

namespace AddressHistory

def exampleBody : AddressBody Text := ⟨some ['a'], some ['g'], some ['1'], some ['2'], some ['d']⟩

/-- A post, a read that checks it after 300.5 seconds and one that does not after 360.9. -/
def agingRequests : List (AddressRequest Text) :=
  [.post (some exampleBody) ⟨1000, by decide +kernel⟩, .get ⟨2601 / 2, by decide +kernel⟩,
    .get ⟨13609 / 10, by decide +kernel⟩]

theorem address_freshness_aging :
    Runs.Along (step textValues) (Fresh textValues) init agingRequests :=
  address_freshness textValues agingRequests (by decide +kernel)

/-- The fractions that are cut off make an entry older than 360 seconds. -/
theorem not_address_freshness : ¬ ∀ requests : List (AddressRequest Text),
    Runs.Along (step textValues) Later init requests →
      Runs.Along (step textValues) (fun s r => ∀ now, r = .get now → ∀ key entry,
        (s.store.getAddressStore now).2.lookup key = some entry →
          ∃ u, s.lastPost key = some u ∧ now.1 - u.1 ≤ 360) init requests := by
  intro hfresh
  obtain ⟨-, -, hget, -⟩ := hfresh agingRequests (by decide +kernel)
  obtain ⟨u, hu, hage⟩ := hget _ rfl ['a'] ⟨['a'], ['g'], 1, 2, ['d'], 1000⟩ (by decide +kernel)
  have hposted : some u = some ⟨1000, by decide +kernel⟩ := hu.symm.trans (by decide +kernel)
  cases hposted
  exact absurd hage (by decide +kernel)

end AddressHistory

end Pingweave
