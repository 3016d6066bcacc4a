import Pingweave.MsgScheduler

/-!
# The addresses that the schedulers select

On a pinglist that raises no exception, the TCP and UDP scheduler lists the members of the mesh
groups of its IP and then the destinations of its arrow groups, each once. The RDMA scheduler
takes those of them that the address store knows.
-/

namespace Pingweave
open TryLoop
set_option autoImplicit false

universe u

namespace Yaml

def strings (y : Yaml) : List Text := (y.range.getD []).filterMap stringRef

def groups (category protocol : Text) (pinglist : Yaml) : List Yaml :=
  (((pinglist.lookup category).bind (lookup protocol)).bind range).getD []

theorem strings_of_range {y : Yaml} {l : List Yaml} (h : y.range = some l) :
    y.strings = l.filterMap stringRef := by
  rw [strings, h, Option.getD_some]

end Yaml

namespace MsgScheduler

/-- The members of the mesh groups that contain `ipaddr`. -/
def meshTargets (pinglist : Yaml) (protocol ipaddr : Text) : List Text :=
  (pinglist.groups keyMesh protocol).flatMap fun group =>
    if ipaddr ∈ group.strings then group.strings else []

def arrowDsts (ipaddr : Text) (group : Yaml) : List Text :=
  match group.lookup keySrc, group.lookup keyDst with
  | some src, some dst => if ipaddr ∈ src.strings then dst.strings else []
  | _, _ => []

def arrowTargets (pinglist : Yaml) (protocol ipaddr : Text) : List Text :=
  (pinglist.groups keyArrow protocol).flatMap (arrowDsts ipaddr)

section Traversal
variable {σ : Type u} (push : σ → Text → σ)

theorem findIp_spec (ipaddr : Text) (l : List Yaml) :
    (findIp ipaddr l = some true → ipaddr ∈ l.filterMap Yaml.stringRef) ∧
      (findIp ipaddr l = some false → ipaddr ∉ l.filterMap Yaml.stringRef) := by
  induction l with
  | nil => simp [findIp]
  | cons y l ih =>
    cases hy : y.stringRef with
    | none => simp [findIp, hy]
    | some srcip =>
      by_cases hip : srcip = ipaddr
      · simp [findIp, hy, hip]
      · simp only [findIp, hy, if_neg hip, List.filterMap_cons, List.mem_cons, not_or]
        refine ⟨fun h => Or.inr (ih.1 h), fun h => ⟨fun heq => hip heq.symm, ih.2 h⟩⟩

theorem pushAll_ok {s : σ} {l : List Yaml} (h : (pushAll push s l).2 = true) :
    (pushAll push s l).1 = (l.filterMap Yaml.stringRef).foldl push s := by
  induction l generalizing s with
  | nil => rfl
  | cons y l ih =>
    cases hy : y.stringRef with
    | none => simp [pushAll, forEach, hy] at h
    | some targetIp =>
      have hstep : pushAll push s (y :: l) = pushAll push (push s targetIp) l := by
        simp [pushAll, forEach, hy]
      rw [hstep] at h ⊢
      rw [ih h, List.filterMap_cons_some hy, List.foldl_cons]

theorem meshGroup_ok {ipaddr : Text} {s : σ} {group : Yaml} (h : (meshGroup push ipaddr s group).2 = true) :
    (meshGroup push ipaddr s group).1 =
      (if ipaddr ∈ group.strings then group.strings else []).foldl push s := by
  cases hr : group.range with
  | none => simp [meshGroup, hr] at h
  | some ips =>
    have hfind := findIp_spec ipaddr ips
    rw [Yaml.strings_of_range hr]
    cases hf : findIp ipaddr ips with
    | none => simp [meshGroup, hr, hf] at h
    | some found =>
      cases found with
      | true =>
        simp only [meshGroup, hr, hf] at h ⊢
        rw [if_pos (hfind.1 hf)]
        exact pushAll_ok push h
      | false =>
        simp only [meshGroup, hr, hf]
        rw [if_neg (hfind.2 hf), List.foldl_nil]

theorem arrowGroup_ok {ipaddr : Text} {s : σ} {group : Yaml} (h : (arrowGroup push ipaddr s group).2 = true) :
    (arrowGroup push ipaddr s group).1 = (arrowDsts ipaddr group).foldl push s := by
  unfold arrowGroup arrowDsts at *
  cases hs : group.lookup keySrc with
  | none => rfl
  | some src =>
    cases hd : group.lookup keyDst with
    | none => rfl
    | some dst =>
      simp only [hs, hd] at h ⊢
      cases hr : src.range with
      | none => simp [hr] at h
      | some ips =>
        have hfind := findIp_spec ipaddr ips
        rw [Yaml.strings_of_range hr]
        cases hf : findIp ipaddr ips with
        | none => simp [hr, hf] at h
        | some found =>
          cases found with
          | false =>
            simp only [hf]
            rw [if_neg (hfind.2 hf), List.foldl_nil]
          | true =>
            simp only [hr, hf] at h ⊢
            rw [if_pos (hfind.1 hf)]
            cases hdr : dst.range with
            | none => simp [hdr] at h
            | some dstips =>
              simp only [hdr] at h ⊢
              rw [Yaml.strings_of_range hdr]
              exact pushAll_ok push h

theorem eachGroup_ok (body : σ → Yaml → σ × Bool) {category protocol : Text} {targets : Yaml → List Text}
    (hbody : ∀ s group, (body s group).2 = true → (body s group).1 = (targets group).foldl push s)
    {pinglist : Yaml} {s : σ} (h : (eachGroup category protocol body pinglist s).2 = true) :
    (eachGroup category protocol body pinglist s).1 =
      ((pinglist.groups category protocol).flatMap targets).foldl push s := by
  unfold eachGroup Yaml.groups at *
  cases hl : (pinglist.lookup category).bind (Yaml.lookup protocol) with
  | none => rfl
  | some groups =>
    simp only [hl, Option.bind_some] at h ⊢
    cases hn : groups.isNull with
    | true =>
      have hnone : groups.range = none := by
        unfold Yaml.isNull at hn
        split at hn
        · rfl
        · cases hn
      simp [hnone]
    | false =>
      simp only [hn, Bool.false_eq_true, if_false] at h ⊢
      cases hr : groups.range with
      | none => simp [hr] at h
      | some l =>
        simp only [hr] at h ⊢
        rw [Option.getD_some, List.foldl_flatMap]
        exact forEach_eq_foldl (fun s group _ => hbody s group) h

theorem meshIps_ok {pinglist : Yaml} {protocol ipaddr : Text} {s : σ}
    (h : (meshIps push pinglist protocol ipaddr s).2 = true) :
    (meshIps push pinglist protocol ipaddr s).1 = (meshTargets pinglist protocol ipaddr).foldl push s :=
  eachGroup_ok push (meshGroup push ipaddr) (fun _ _ => meshGroup_ok push) h

theorem arrowIps_ok {pinglist : Yaml} {protocol ipaddr : Text} {s : σ}
    (h : (arrowIps push pinglist protocol ipaddr s).2 = true) :
    (arrowIps push pinglist protocol ipaddr s).1 = (arrowTargets pinglist protocol ipaddr).foldl push s :=
  eachGroup_ok push (arrowGroup push ipaddr) (fun _ _ => arrowGroup_ok push) h

section Throws
variable {τ : Type*} {push : σ → Text → σ} {push' : τ → Text → τ}

theorem pushAll_congr (s : σ) (t : τ) (l : List Yaml) : (pushAll push s l).2 = (pushAll push' t l).2 := by
  refine forEach_ok_congr ?_ s t
  intro s t y _
  cases y.stringRef <;> rfl

theorem meshGroup_congr (ipaddr : Text) (s : σ) (t : τ) (group : Yaml) :
    (meshGroup push ipaddr s group).2 = (meshGroup push' ipaddr t group).2 := by
  unfold meshGroup
  split
  · rfl
  · split
    · rfl
    · rfl
    · exact pushAll_congr s t _

theorem arrowGroup_congr (ipaddr : Text) (s : σ) (t : τ) (group : Yaml) :
    (arrowGroup push ipaddr s group).2 = (arrowGroup push' ipaddr t group).2 := by
  unfold arrowGroup
  split
  · split
    · rfl
    · split
      · rfl
      · rfl
      · split
        · rfl
        · exact pushAll_congr s t _
  · rfl

theorem eachGroup_congr {category protocol : Text} {body : σ → Yaml → σ × Bool} {body' : τ → Yaml → τ × Bool}
    (hbody : ∀ s t group, (body s group).2 = (body' t group).2) (pinglist : Yaml) (s : σ) (t : τ) :
    (eachGroup category protocol body pinglist s).2 = (eachGroup category protocol body' pinglist t).2 := by
  unfold eachGroup
  split
  · rfl
  · split
    · rfl
    · split
      · rfl
      · exact forEach_ok_congr (fun s t group _ => hbody s t group) s t

end Throws
end Traversal

/-- All targets of `ipaddr`, with repetitions. -/
def targets (pinglist : Yaml) (protocol ipaddr : Text) : List Text :=
  meshTargets pinglist protocol ipaddr ++ arrowTargets pinglist protocol ipaddr

end MsgScheduler

open MsgScheduler

namespace TcpUdpMsgScheduler

/-- Pushing a list appends the first occurrences of what is not there yet. -/
theorem foldl_push (l : List Text) (s : Addresses) :
    (l.foldl push s).addressInfoNew =
      s.addressInfoNew ++ (l.filter fun x => x ∉ s.addressIpNew).eraseDups := by
  induction l generalizing s with
  | nil => exact (List.append_nil _).symm
  | cons x l ih =>
    rw [List.foldl_cons, ih]
    by_cases hx : x ∈ s.addressIpNew
    · have hpush : push s x = s := by simp [push, NewAddresses.add, hx]
      rw [hpush, List.filter_cons_of_neg (by simpa using hx)]
    · have hpush : (push s x).addressInfoNew = s.addressInfoNew ++ [x] ∧
          (push s x).addressIpNew = insert x s.addressIpNew := by
        simp [push, NewAddresses.add, hx]
      have hfilter : (l.filter fun y => y ∉ insert x s.addressIpNew) =
          (l.filter fun y => y ∉ s.addressIpNew).filter fun y => !y == x := by
        rw [List.filter_filter]
        apply List.filter_congr
        intro y _
        by_cases hyx : y = x <;> simp [hyx]
      rw [hpush.1, hpush.2, List.filter_cons_of_pos (by simpa using hx), List.eraseDups_cons, hfilter,
        List.append_assoc, List.singleton_append]

theorem collect_ok {pinglist : Yaml} {protocol ipaddr : Text} (h : (collect pinglist protocol ipaddr).2 = true) :
    (collect pinglist protocol ipaddr).1.addressInfoNew = (targets pinglist protocol ipaddr).eraseDups := by
  obtain ⟨hmesh, harrow⟩ := Bool.and_eq_true_iff.mp h
  have hall : (collect pinglist protocol ipaddr).1 =
      (targets pinglist protocol ipaddr).foldl push NewAddresses.empty := by
    rw [targets, List.foldl_append, ← meshIps_ok push hmesh]
    exact arrowIps_ok push harrow
  have hnone : ((targets pinglist protocol ipaddr).filter fun x =>
      x ∉ (NewAddresses.empty : Addresses).addressIpNew) = targets pinglist protocol ipaddr :=
    List.filter_eq_self.mpr fun x _ => by simp [NewAddresses.empty]
  rw [hall, foldl_push, hnone]
  rfl

end TcpUdpMsgScheduler

namespace RdmaMsgScheduler

def storeIps (addressStore : Yaml) : List Text := (addressStore.range.getD []).filterMap entryIp

/-- The first entry of the store with the IP. -/
def storeEntry (addressStore : Yaml) (ip : Text) : Option Yaml :=
  (addressStore.range.getD []).find? fun it => entryIp it = some ip

theorem foldl_push (l relevantIps : List Text) : l.foldl push relevantIps = relevantIps ++ l := by
  induction l generalizing relevantIps with
  | nil => exact (List.append_nil _).symm
  | cons x l ih => rw [List.foldl_cons, ih, push, List.append_assoc, List.singleton_append]

/-- What the loop over the store has added, when no exception ended it. -/
structure Added (relevantIps : List Text) (entries : List Yaml) (s s' : Addresses) (rest : List RdmaAddressTuple) :
    Prop where
  appended : s'.addressInfoNew = s.addressInfoNew ++ rest
  set : ∀ x, x ∈ s'.addressIpNew ↔ x ∈ s.addressIpNew ∨ x ∈ rest.map RdmaAddressTuple.ip
  ips : ∀ x, x ∈ rest.map RdmaAddressTuple.ip ↔
    x ∈ relevantIps ∧ x ∈ entries.filterMap entryIp ∧ x ∉ s.addressIpNew
  entry : ∀ a ∈ rest, ∃ it, (entries.find? fun it => entryIp it = some a.ip) = some it ∧
    entryTuple a.ip it = some ⟨a, rfl⟩

/-- A first entry whose IP is not among the added ones changes nothing. -/
theorem Added.skip {relevantIps : List Text} {entries : List Yaml} {s s' : Addresses} {rest : List RdmaAddressTuple}
    (h : Added relevantIps entries s s' rest) {it : Yaml} {ip : Text} (hit : entryIp it = some ip)
    (hskip : ip ∈ relevantIps → ip ∈ s.addressIpNew) : Added relevantIps (it :: entries) s s' rest := by
  have hnot : ip ∉ rest.map RdmaAddressTuple.ip := by
    intro hmem
    obtain ⟨hrel, -, hnew⟩ := (h.ips ip).mp hmem
    exact hnew (hskip hrel)
  refine ⟨h.appended, h.set, ?_, ?_⟩
  · intro x
    rw [h.ips, List.filterMap_cons_some hit, List.mem_cons]
    constructor
    · exact fun ⟨hrel, hmem, hnew⟩ => ⟨hrel, Or.inr hmem, hnew⟩
    · rintro ⟨hrel, rfl | hmem, hnew⟩
      · exact absurd (hskip hrel) hnew
      · exact ⟨hrel, hmem, hnew⟩
  · intro a ha
    have hne : ip ≠ a.ip := fun heq => hnot (heq ▸ List.mem_map_of_mem ha)
    rw [List.find?_cons_of_neg (by simpa [hit] using hne)]
    exact h.entry a ha

theorem updateLoop_added {relevantIps : List Text} {entries : List Yaml} {s : Addresses}
    (h : (forEach (updateEntry relevantIps) s entries).2 = true) :
    ∃ rest, Added relevantIps entries s (forEach (updateEntry relevantIps) s entries).1 rest := by
  induction entries generalizing s with
  | nil => exact ⟨[], (List.append_nil _).symm, by simp, by simp, by simp⟩
  | cons it entries ih =>
    obtain ⟨hit, hrest⟩ := ok_cons.mp h
    rw [forEach_cons_ok hit]
    obtain ⟨rest, hadded⟩ := ih hrest
    cases hip : entryIp it with
    | none => simp [updateEntry, hip] at hit
    | some ip =>
      by_cases hrel : ip ∈ relevantIps
      · by_cases hknown : ip ∈ s.addressIpNew
        · have hsame : (updateEntry relevantIps s it).1 = s := by
            simp [updateEntry, hip, hrel, NewAddresses.add, hknown]
          rw [hsame] at hadded ⊢
          exact ⟨rest, hadded.skip hip fun _ => hknown⟩
        · cases htuple : entryTuple ip it with
          | none => simp [updateEntry, hip, hrel, NewAddresses.add, hknown, htuple] at hit
          | some a =>
            have hinfos : (updateEntry relevantIps s it).1.addressInfoNew = s.addressInfoNew ++ [a.1] := by
              simp [updateEntry, hip, hrel, NewAddresses.add, hknown, htuple]
            have hset : (updateEntry relevantIps s it).1.addressIpNew = insert ip s.addressIpNew := by
              simp [updateEntry, hip, hrel, NewAddresses.add, hknown, htuple]
            refine ⟨a.1 :: rest, ?_, ?_, ?_, ?_⟩
            · rw [hadded.appended, hinfos, List.append_assoc, List.singleton_append]
            · intro x
              rw [hadded.set, hset, Finset.mem_insert, List.map_cons, List.mem_cons, a.2, or_left_comm, or_assoc]
            · intro x
              rw [List.map_cons, List.mem_cons, hadded.ips, hset, a.2, List.filterMap_cons_some hip,
                List.mem_cons, Finset.mem_insert]
              by_cases hx : x = ip
              · subst hx
                simp [hrel, hknown]
              · simp [hx]
            · intro b hb
              rcases List.mem_cons.mp hb with rfl | hold
              · refine ⟨it, ?_, ?_⟩
                · rw [List.find?_cons_of_pos (by simp [hip, a.2])]
                · obtain ⟨b, rfl⟩ := a
                  exact htuple
              · have hne : ip ≠ b.ip := by
                  intro heq
                  have hnew := ((hadded.ips b.ip).mp (List.mem_map_of_mem hold)).2.2
                  rw [hset, ← heq] at hnew
                  exact hnew (Finset.mem_insert_self _ _)
                rw [List.find?_cons_of_neg (by simpa [hip] using hne)]
                exact hadded.entry b hold
      · have hsame : (updateEntry relevantIps s it).1 = s := by simp [updateEntry, hip, hrel]
        rw [hsame] at hadded ⊢
        exact ⟨rest, hadded.skip hip fun hmem => absurd hmem hrel⟩

theorem collectCategory_ok {ips : List Text → List Text × Bool} {targets : List Text}
    (hips : (ips []).2 = true → (ips []).1 = targets) {addressStore : Yaml} {s : Addresses}
    (h : (collectCategory ips addressStore s).2 = true) :
    ∃ rest, Added targets (addressStore.range.getD []) s (collectCategory ips addressStore s).1 rest := by
  unfold collectCategory at *
  cases hok : (ips []).2 with
  | false => simp [hok] at h
  | true =>
    simp only [hok, if_true] at h ⊢
    rw [hips hok] at h ⊢
    unfold updateAddresses at *
    cases hr : addressStore.range with
    | none => simp [hr] at h
    | some entries =>
      simp only [hr] at h ⊢
      exact updateLoop_added h

/-- The tuple carries the fields of its IP's entry in the store. -/
structure FromStore (addressStore : Yaml) (a : RdmaAddressTuple) (it : Yaml) (lid qpn : Int) : Prop where
  first : storeEntry addressStore a.ip = some it
  gid : it.index 1 = some (.scalar (.string a.gid))
  lid : it.index 2 = some (.scalar (.int lid)) ∧ a.lid = UInt32.ofInt lid
  qpn : it.index 3 = some (.scalar (.int qpn)) ∧ a.qpn = UInt32.ofInt qpn

theorem stringRef_bind {y : Option Yaml} {s : Text} (h : y.bind Yaml.stringRef = some s) :
    y = some (.scalar (.string s)) := by
  obtain ⟨z, rfl, hz⟩ := Option.bind_eq_some_iff.mp h
  unfold Yaml.stringRef at hz
  split at hz
  · cases hz
    rfl
  · cases hz

theorem integerRef_bind {y : Option Yaml} {n : Int} (h : y.bind Yaml.integerRef = some n) :
    y = some (.scalar (.int n)) := by
  obtain ⟨z, rfl, hz⟩ := Option.bind_eq_some_iff.mp h
  unfold Yaml.integerRef at hz
  split at hz
  · cases hz
    rfl
  · cases hz

theorem fromStore_of_entryTuple {addressStore it : Yaml} {a : RdmaAddressTuple}
    (hfirst : storeEntry addressStore a.ip = some it) (h : entryTuple a.ip it = some ⟨a, rfl⟩) :
    ∃ lid qpn, FromStore addressStore a it lid qpn := by
  unfold entryTuple at h
  obtain ⟨gid, hgid, h⟩ := Option.bind_eq_some_iff.mp h
  obtain ⟨lid, hlid, h⟩ := Option.bind_eq_some_iff.mp h
  obtain ⟨qpn, hqpn, h⟩ := Option.bind_eq_some_iff.mp h
  have ha := congrArg Subtype.val (Option.some.inj h)
  have hgida : gid = a.gid := congrArg RdmaAddressTuple.gid ha
  have hlida : UInt32.ofInt lid = a.lid := congrArg RdmaAddressTuple.lid ha
  have hqpna : UInt32.ofInt qpn = a.qpn := congrArg RdmaAddressTuple.qpn ha
  exact ⟨lid, qpn, hfirst, hgida ▸ stringRef_bind hgid, ⟨integerRef_bind hlid, hlida.symm⟩,
    integerRef_bind hqpn, hqpna.symm⟩

/-- What the RDMA scheduler selects. -/
structure Selection (pinglist addressStore : Yaml) (protocol ipaddr : Text) (addressInfo : List RdmaAddressTuple) :
    Prop where
  nodup : (addressInfo.map RdmaAddressTuple.ip).Nodup
  ips : ∀ x, x ∈ addressInfo.map RdmaAddressTuple.ip ↔
    x ∈ targets pinglist protocol ipaddr ∧ x ∈ storeIps addressStore
  meshFirst : ∃ meshPart arrowPart, addressInfo = meshPart ++ arrowPart ∧
    (∀ a ∈ meshPart, a.ip ∈ meshTargets pinglist protocol ipaddr) ∧
    ∀ a ∈ arrowPart, a.ip ∉ meshTargets pinglist protocol ipaddr
  fromStore : ∀ a ∈ addressInfo, ∃ it lid qpn, FromStore addressStore a it lid qpn

theorem collect_ok {pinglist addressStore : Yaml} {protocol ipaddr : Text}
    (h : (collect pinglist addressStore protocol ipaddr).2 = true) :
    Selection pinglist addressStore protocol ipaddr
      (collect pinglist addressStore protocol ipaddr).1.addressInfoNew := by
  obtain ⟨hmesh, harrow⟩ := Bool.and_eq_true_iff.mp h
  obtain ⟨meshPart, hm⟩ := collectCategory_ok
    (fun hok => (meshIps_ok push hok).trans (foldl_push _ _)) hmesh
  obtain ⟨arrowPart, ha⟩ := collectCategory_ok
    (fun hok => (arrowIps_ok push hok).trans (foldl_push _ _)) harrow
  rw [List.nil_append] at hm ha
  have hsplit : (collect pinglist addressStore protocol ipaddr).1.addressInfoNew = meshPart ++ arrowPart := by
    have hfirst := hm.appended
    have hboth := ha.appended
    rw [hfirst] at hboth
    exact hboth
  have hmeshIps : ∀ x, x ∈ meshPart.map RdmaAddressTuple.ip ↔
      x ∈ meshTargets pinglist protocol ipaddr ∧ x ∈ storeIps addressStore := by
    intro x
    rw [hm.ips]
    simp [NewAddresses.empty, storeIps]
  have harrowIps : ∀ x, x ∈ arrowPart.map RdmaAddressTuple.ip ↔
      x ∈ arrowTargets pinglist protocol ipaddr ∧ x ∈ storeIps addressStore ∧
        x ∉ meshPart.map RdmaAddressTuple.ip := by
    intro x
    rw [ha.ips, hm.set]
    simp [NewAddresses.empty, storeIps]
  refine ⟨NewAddresses.nodup _, ?_, ⟨meshPart, arrowPart, hsplit, ?_, ?_⟩, ?_⟩
  · intro x
    rw [hsplit, List.map_append, List.mem_append, harrowIps, hmeshIps, targets, List.mem_append]
    by_cases hx : x ∈ meshTargets pinglist protocol ipaddr <;> by_cases hs : x ∈ storeIps addressStore <;>
      simp [hx, hs]
  · exact fun a hmem => ((hmeshIps a.ip).mp (List.mem_map_of_mem hmem)).1
  · intro a hmem hin
    obtain ⟨-, hstore, hnot⟩ := (harrowIps a.ip).mp (List.mem_map_of_mem hmem)
    exact hnot ((hmeshIps a.ip).mpr ⟨hin, hstore⟩)
  · intro a hmem
    rw [hsplit] at hmem
    rcases List.mem_append.mp hmem with hmem | hmem
    · obtain ⟨it, hit, htuple⟩ := hm.entry a hmem
      exact ⟨it, fromStore_of_entryTuple hit htuple⟩
    · obtain ⟨it, hit, htuple⟩ := ha.entry a hmem
      exact ⟨it, fromStore_of_entryTuple hit htuple⟩

/-- Every entry of the store is an address: a list that begins with IP, GID, LID and QPN. -/
def WellFormed (addressStore : Yaml) : Prop :=
  ∃ entries, addressStore.range = some entries ∧
    ∀ it ∈ entries, ∃ ip, entryIp it = some ip ∧ (entryTuple ip it).isSome

theorem updateAddresses_wellFormed {addressStore : Yaml} (h : WellFormed addressStore) (relevantIps : List Text)
    (s : Addresses) : (updateAddresses addressStore relevantIps s).2 = true := by
  obtain ⟨entries, hrange, hentries⟩ := h
  simp only [updateAddresses, hrange]
  refine forEach_ok ?_ s
  intro s it hmem
  obtain ⟨ip, hip, htuple⟩ := hentries it hmem
  obtain ⟨a, ha⟩ := Option.isSome_iff_exists.mp htuple
  simp only [updateEntry, hip]
  split
  · unfold NewAddresses.add
    split
    · rfl
    · rw [ha]
  · rfl

theorem collectCategory_wellFormed {ips : List Text → List Text × Bool} (hips : (ips []).2 = true)
    {addressStore : Yaml} (h : WellFormed addressStore) (s : Addresses) :
    (collectCategory ips addressStore s).2 = true := by
  simp only [collectCategory, hips, if_true]
  exact updateAddresses_wellFormed h _ s

/-- The RDMA scheduler raises no exception on a well-formed store where the TCP scheduler raises
none. -/
theorem collect_wellFormed {pinglist addressStore : Yaml} {protocol ipaddr : Text}
    (htcp : (TcpUdpMsgScheduler.collect pinglist protocol ipaddr).2 = true) (h : WellFormed addressStore) :
    (collect pinglist addressStore protocol ipaddr).2 = true := by
  obtain ⟨hmesh, harrow⟩ := Bool.and_eq_true_iff.mp htcp
  refine Bool.and_eq_true_iff.mpr ⟨?_, ?_⟩
  · apply collectCategory_wellFormed _ h
    rw [← hmesh]
    exact eachGroup_congr (meshGroup_congr ipaddr) pinglist _ _
  · apply collectCategory_wellFormed _ h
    rw [← harrow]
    exact eachGroup_congr (arrowGroup_congr ipaddr) pinglist _ _

end RdmaMsgScheduler

theorem MsgScheduler.addressInfo_renew {α : Type} {ip : α → Text} (s : MsgScheduler α) {r : NewAddresses α ip × Bool}
    (h : r.2 = true) : (s.renew r).addressInfo = r.1.addressInfoNew := by
  simp only [renew, h, if_true]

/-- On a pinglist that raises no exception the two schedulers select the same targets: the TCP and
UDP scheduler lists them in the order of their first occurrence, the RDMA scheduler takes those
that the store has. -/
theorem scheduler_selection (pinglist : Yaml) (tcp : TcpUdpMsgScheduler)
    (htcp : (TcpUdpMsgScheduler.collect pinglist tcp.protocol tcp.ipaddr).2 = true) :
    (tcp.loadAddressInfo (some pinglist)).addressInfo = (targets pinglist tcp.protocol tcp.ipaddr).eraseDups ∧
    ∀ (rdma : RdmaMsgScheduler) (addressStore : Yaml), rdma.protocol = tcp.protocol → rdma.ipaddr = tcp.ipaddr →
      (RdmaMsgScheduler.WellFormed addressStore →
        (RdmaMsgScheduler.collect pinglist addressStore rdma.protocol rdma.ipaddr).2 = true) ∧
      ((RdmaMsgScheduler.collect pinglist addressStore rdma.protocol rdma.ipaddr).2 = true →
        RdmaMsgScheduler.Selection pinglist addressStore rdma.protocol rdma.ipaddr
          (rdma.loadAddressInfo (some pinglist) (some addressStore)).addressInfo ∧
        ∀ x, x ∈ (rdma.loadAddressInfo (some pinglist) (some addressStore)).addressInfo.map RdmaAddressTuple.ip ↔
          x ∈ (tcp.loadAddressInfo (some pinglist)).addressInfo ∧ x ∈ RdmaMsgScheduler.storeIps addressStore) := by
  have hinfo : (tcp.loadAddressInfo (some pinglist)).addressInfo =
      (targets pinglist tcp.protocol tcp.ipaddr).eraseDups :=
    (addressInfo_renew _ htcp).trans (TcpUdpMsgScheduler.collect_ok htcp)
  refine ⟨hinfo, ?_⟩
  intro rdma addressStore hprotocol hipaddr
  refine ⟨?_, ?_⟩
  · intro hstore
    rw [hprotocol, hipaddr]
    exact RdmaMsgScheduler.collect_wellFormed htcp hstore
  · intro hrdma
    have hsel := RdmaMsgScheduler.collect_ok hrdma
    have hrdmaInfo : (rdma.loadAddressInfo (some pinglist) (some addressStore)).addressInfo =
        (RdmaMsgScheduler.collect pinglist addressStore rdma.protocol rdma.ipaddr).1.addressInfoNew :=
      addressInfo_renew _ hrdma
    rw [hrdmaInfo]
    refine ⟨hsel, ?_⟩
    intro x
    rw [hsel.ips, hinfo, List.mem_eraseDups, hprotocol, hipaddr]

/-- One mesh group with a repetition, and one arrow group. -/
def smallPinglist : Yaml :=
  let ips (l : List Char) : Yaml := .sequence (l.map fun c => .scalar (.string [c]))
  .mapping [(.string keyMesh, .mapping [(.string ['p'], .mapping [(.int 0, ips ['1', '2', '1'])])]),
    (.string keyArrow, .mapping [(.string ['p'], .mapping
      [(.int 0, .mapping [(.string keySrc, ips ['1']), (.string keyDst, ips ['2', '3'])])])])]

def smallStore : Yaml :=
  let entry (ip : Char) (lid qpn : Int) : Yaml :=
    .sequence [.scalar (.string [ip]), .scalar (.string ['g']), .scalar (.int lid), .scalar (.int qpn)]
  .mapping [(.string ['3'], entry '3' 0 7), (.string ['2'], entry '2' 4 9)]

def smallScheduler (α : Type) : MsgScheduler α := ⟨['1'], ['p'], 0, [], 0, 1000, 1000000⟩

theorem scheduler_selection_small :
    (TcpUdpMsgScheduler.loadAddressInfo (smallScheduler Text) (some smallPinglist)).addressInfo =
      (targets smallPinglist ['p'] ['1']).eraseDups ∧
    RdmaMsgScheduler.Selection smallPinglist smallStore ['p'] ['1']
      (RdmaMsgScheduler.loadAddressInfo (smallScheduler RdmaAddressTuple) (some smallPinglist)
        (some smallStore)).addressInfo := by
  have h := scheduler_selection smallPinglist (smallScheduler Text) (by decide +kernel)
  exact ⟨h.1, ((h.2 (smallScheduler RdmaAddressTuple) smallStore rfl rfl).2 (by decide +kernel)).1⟩

end Pingweave
