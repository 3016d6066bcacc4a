import Mathlib.Data.Finmap
import Pingweave.Format

/-!
# The cache of address handles

`get_or_create_ah` of `rdma_common.cpp`. A handle is looked up under the text of its LID and
GID; the text of the GID comes from `inet_ntop`, which is a parameter here. `stack` stands for
what the uninitialised buffer of `parsed_gid` holds when `inet_ntop` leaves it alone.
-/

namespace Pingweave
set_option autoImplicit false

def MAX_NUM_HOSTS_IN_PINGLIST : Nat := 10000

/-- The size of the text buffer in `parsed_gid`, its terminating NUL included. -/
def PARSED_GID_SIZE : Nat := 33

/-- The address attributes that `get_or_create_ah` fills in from a destination. -/
structure AhAttr where
  dlid : UInt16
  dgid : Option IbvGid
  deriving DecidableEq, Repr

structure AddressHandle where
  id : Nat
  attr : AhAttr
  deriving DecidableEq, Repr

def ahAttr (rem_dest : RdmaAddr) : AhAttr where
  dlid := rem_dest.lid.toUInt16
  dgid := if rem_dest.gid.interface_id ≠ 0 then some rem_dest.gid else none

/-- The handles of a context: those in `ah_map`, and the ids of all that were destroyed. -/
structure AhContext where
  ah_map : Finmap fun _ : Text => AddressHandle
  nextId : Nat
  destroyed : List Nat

namespace AhContext

def init : AhContext := ⟨∅, 0, []⟩

section Functions
variable (inetNtop : IbvGid → Text)

def parsedGid (stack : Text) (gid : IbvGid) : Text :=
  if (inetNtop gid).length < PARSED_GID_SIZE then inetNtop gid else stack

def makeDestinationKey (stack : Text) (lid : UInt32) (gid : IbvGid) : Text :=
  Nat.toDigits 10 lid.toNat ++ '_' :: parsedGid inetNtop stack gid

/-- The clearing at the start of `get_or_create_ah`. -/
def clearIfLarge (ctx : AhContext) : AhContext :=
  if ctx.ah_map.keys.card > MAX_NUM_HOSTS_IN_PINGLIST then
    { ctx with
      ah_map := ∅
      destroyed := ctx.destroyed ++ (List.range ctx.nextId).filter fun n => n ∉ ctx.destroyed }
  else ctx

/-- `created` says whether `ibv_create_ah` succeeds, if it is called. -/
def getOrCreateAh (ctx : AhContext) (rem_dest : RdmaAddr) (stack : Text) (created : Bool) :
    AhContext × Option AddressHandle :=
  let ctx := ctx.clearIfLarge
  let key := makeDestinationKey inetNtop stack rem_dest.lid rem_dest.gid
  match ctx.ah_map.lookup key with
  | some ah => (ctx, some ah)
  | none =>
    if created then
      let ah : AddressHandle := ⟨ctx.nextId, ahAttr rem_dest⟩
      ({ ctx with ah_map := ctx.ah_map.insert key ah, nextId := ctx.nextId + 1 }, some ah)
    else (ctx, none)

end Functions

/-- The text of the GID fits into the buffer of `parsed_gid`. -/
def Fits (inetNtop : IbvGid → Text) (gid : IbvGid) : Prop :=
  (inetNtop gid).length < PARSED_GID_SIZE

instance (inetNtop : IbvGid → Text) (gid : IbvGid) : Decidable (Fits inetNtop gid) :=
  inferInstanceAs (Decidable (_ < _))

/-- Every cached handle is the one for the LID and GID of its key. -/
def Sound (inetNtop : IbvGid → Text) (ctx : AhContext) : Prop :=
  ∀ key ah, ctx.ah_map.lookup key = some ah → ∃ rem_dest : RdmaAddr,
    key = Nat.toDigits 10 rem_dest.lid.toNat ++ '_' :: inetNtop rem_dest.gid ∧
      ah.attr = ahAttr rem_dest

section Cache
variable {inetNtop : IbvGid → Text}

theorem sound_init : Sound inetNtop init := by
  intro key ah h
  rw [init, Finmap.lookup_empty] at h
  cases h

theorem makeDestinationKey_of_fits {stack : Text} {lid : UInt32} {gid : IbvGid}
    (h : Fits inetNtop gid) :
    makeDestinationKey inetNtop stack lid gid =
      Nat.toDigits 10 lid.toNat ++ '_' :: inetNtop gid := by
  have hlen : (inetNtop gid).length < PARSED_GID_SIZE := h
  rw [makeDestinationKey, parsedGid, if_pos hlen]

theorem underscore_not_mem_digits (n : Nat) : '_' ∉ Nat.toDigits 10 n := by
  intro h
  exact absurd (Nat.isDigit_of_mem_toDigits (by decide) (by decide) h) (by decide)

theorem append_cons_inj {x y s t : Text} {c : Char} (hx : c ∉ x) (hy : c ∉ y)
    (h : x ++ c :: s = y ++ c :: t) : x = y ∧ s = t := by
  induction x generalizing y with
  | nil =>
    cases y with
    | nil => exact ⟨rfl, (List.cons.inj h).2⟩
    | cons b y =>
      have hb : c = b := (List.cons.inj h).1
      exact absurd (hb ▸ List.mem_cons_self) hy
  | cons a x ih =>
    cases y with
    | nil =>
      have ha : a = c := (List.cons.inj h).1
      exact absurd (ha ▸ List.mem_cons_self) hx
    | cons b y =>
      obtain ⟨hab, htail⟩ := List.cons.inj h
      obtain ⟨hxy, hst⟩ := ih (fun hc => hx (List.mem_cons_of_mem a hc))
        (fun hc => hy (List.mem_cons_of_mem b hc)) htail
      exact ⟨by rw [hab, hxy], hst⟩

/-- With a faithful `inet_ntop` the key of a destination determines its handle. -/
theorem ahAttr_of_key (hinj : Function.Injective inetNtop) {a b : RdmaAddr}
    (h : Nat.toDigits 10 a.lid.toNat ++ '_' :: inetNtop a.gid =
      Nat.toDigits 10 b.lid.toNat ++ '_' :: inetNtop b.gid) : ahAttr a = ahAttr b := by
  obtain ⟨hlid, hgid⟩ := append_cons_inj (underscore_not_mem_digits _) (underscore_not_mem_digits _) h
  have hl : a.lid = b.lid := by
    apply UInt32.toNat_inj.mp
    have hn := congrArg (fun s => Nat.ofDigitChars 10 s 0) hlid
    simpa only [Nat.ofDigitChars_ten_toDigits] using hn
  rw [ahAttr, ahAttr, hl, hinj hgid]

theorem Sound.clearIfLarge {ctx : AhContext} (h : Sound inetNtop ctx) :
    Sound inetNtop ctx.clearIfLarge := by
  unfold AhContext.clearIfLarge
  split
  · intro key ah hk
    rw [Finmap.lookup_empty] at hk
    cases hk
  · exact h

/-- For a GID whose text fits, the cache stays sound and the handle is the right one. -/
theorem getOrCreateAh_sound (hinj : Function.Injective inetNtop) {ctx : AhContext}
    (h : Sound inetNtop ctx) (rem_dest : RdmaAddr) (hfit : Fits inetNtop rem_dest.gid)
    (stack : Text) (created : Bool) :
    Sound inetNtop (getOrCreateAh inetNtop ctx rem_dest stack created).1 ∧
      ∀ ah, (getOrCreateAh inetNtop ctx rem_dest stack created).2 = some ah →
        ah.attr = ahAttr rem_dest := by
  have hc := h.clearIfLarge
  unfold getOrCreateAh
  simp only [makeDestinationKey_of_fits hfit]
  split
  · rename_i ah hlook
    refine ⟨hc, ?_⟩
    rintro _ ⟨⟩
    obtain ⟨d, hkey, hattr⟩ := hc _ ah hlook
    rw [hattr]
    rw [makeDestinationKey_of_fits hfit] at hkey
    exact (ahAttr_of_key hinj hkey).symm
  · split
    · refine ⟨?_, ?_⟩
      · intro key ah hk
        by_cases hkey : key = Nat.toDigits 10 rem_dest.lid.toNat ++ '_' :: inetNtop rem_dest.gid
        · rw [hkey, Finmap.lookup_insert] at hk
          cases hk
          exact ⟨rem_dest, hkey, rfl⟩
        · rw [Finmap.lookup_insert_of_ne _ hkey] at hk
          exact hc key ah hk
      · rintro _ ⟨⟩
        rfl
    · refine ⟨hc, ?_⟩
      rintro _ ⟨⟩

theorem clearIfLarge_of_small {ctx : AhContext}
    (hsmall : ctx.ah_map.keys.card ≤ MAX_NUM_HOSTS_IN_PINGLIST) : ctx.clearIfLarge = ctx := by
  rw [AhContext.clearIfLarge, if_neg (Nat.not_lt.mpr hsmall)]

theorem getOrCreateAh_init (rem_dest : RdmaAddr) (stack : Text) :
    getOrCreateAh inetNtop init rem_dest stack true =
      (⟨Finmap.singleton (makeDestinationKey inetNtop stack rem_dest.lid rem_dest.gid)
          ⟨0, ahAttr rem_dest⟩, 1, []⟩, some ⟨0, ahAttr rem_dest⟩) := by
  rw [getOrCreateAh, clearIfLarge_of_small (by simp [init])]
  simp only [init, Finmap.lookup_empty, if_true]
  rfl

/-- A destination with the key of the only handle gets that handle, whatever its GID is. -/
theorem getOrCreateAh_hit {key : Text} {ah : AddressHandle} {n : Nat} {rem_dest : RdmaAddr}
    {stack : Text} (hkey : makeDestinationKey inetNtop stack rem_dest.lid rem_dest.gid = key)
    (created : Bool) :
    getOrCreateAh inetNtop ⟨Finmap.singleton key ah, n, []⟩ rem_dest stack created =
      (⟨Finmap.singleton key ah, n, []⟩, some ah) := by
  rw [getOrCreateAh, clearIfLarge_of_small (by simp [MAX_NUM_HOSTS_IN_PINGLIST]), hkey]
  simp only [Finmap.lookup_singleton_eq]

end Cache
end AhContext
end Pingweave
