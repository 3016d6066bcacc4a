import Pingweave.Address
import Pingweave.AddressHandle
import Pingweave.Library.Runs

/-!
# Which handle a destination gets

Runs of `get_or_create_ah` on one context in which every `ibv_create_ah` succeeds. The handles that
were created are logged, so that a returned handle can be traced to its creation.
-/

namespace Pingweave
open AhContext
set_option autoImplicit false

/-- One call, with what the buffer of `parsed_gid` holds before `inet_ntop`. -/
structure AhCall where
  rem_dest : RdmaAddr
  stack : Text
  deriving DecidableEq, Repr

structure AhHistory where
  ctx : AhContext
  created : List AddressHandle

namespace AhHistory

def init : AhHistory := ⟨AhContext.init, []⟩

section Runs
variable (inetNtop : IbvGid → Text)

def get (s : AhHistory) (c : AhCall) : AhContext × Option AddressHandle :=
  s.ctx.getOrCreateAh inetNtop c.rem_dest c.stack true

/-- The handle counter has moved on exactly if `ibv_create_ah` was called. -/
def step (s : AhHistory) (c : AhCall) : AhHistory where
  ctx := (s.get inetNtop c).1
  created :=
    if (s.get inetNtop c).1.nextId = s.ctx.nextId then s.created
    else s.created ++ (s.get inetNtop c).2.toList

end Runs

/-- The handle leads to the destination and can still be used. -/
structure RightHandle (s : AhHistory) (rem_dest : RdmaAddr) (ah : AddressHandle) : Prop where
  created : ah ∈ s.created
  dlid : ah.attr.dlid.toNat = rem_dest.lid.toNat
  dgid : rem_dest.gid.interface_id ≠ 0 → ah.attr.dgid = some rem_dest.gid
  alive : ah.id ∉ s.ctx.destroyed

/-- Every call of the run returns the handle of its destination. -/
def AlwaysRight (inetNtop : IbvGid → Text) (calls : List AhCall) : Prop :=
  Runs.Along (step inetNtop) (fun s c => ∃ ah, (s.get inetNtop c).2 = some ah ∧
    (s.step inetNtop c).RightHandle c.rem_dest ah) init calls

/-- The cached handles are those that were created and not destroyed. -/
structure Kept (s : AhHistory) : Prop where
  ids : s.created.map AddressHandle.id = List.range s.ctx.nextId
  created : ∀ key ah, s.ctx.ah_map.lookup key = some ah → ah ∈ s.created
  destroyed : ∀ id ∈ s.ctx.destroyed, id < s.ctx.nextId
  live : ∀ id, (id < s.ctx.nextId ∧ id ∉ s.ctx.destroyed) ↔
    ∃ key ah, s.ctx.ah_map.lookup key = some ah ∧ ah.id = id

section Calls
variable {inetNtop : IbvGid → Text}

variable (inetNtop) in
/-- A call finds the handle of its key or creates one under it. -/
theorem getOrCreateAh_cases (ctx : AhContext) (rem_dest : RdmaAddr) (stack : Text) :
    let key := makeDestinationKey inetNtop stack rem_dest.lid rem_dest.gid
    (∃ ah, ctx.clearIfLarge.ah_map.lookup key = some ah ∧
      ctx.getOrCreateAh inetNtop rem_dest stack true = (ctx.clearIfLarge, some ah)) ∨
    (ctx.clearIfLarge.ah_map.lookup key = none ∧
      ctx.getOrCreateAh inetNtop rem_dest stack true =
        ({ ctx.clearIfLarge with
            ah_map := ctx.clearIfLarge.ah_map.insert key ⟨ctx.clearIfLarge.nextId, ahAttr rem_dest⟩
            nextId := ctx.clearIfLarge.nextId + 1 }, some ⟨ctx.clearIfLarge.nextId, ahAttr rem_dest⟩)) := by
  intro key
  cases hlook : ctx.clearIfLarge.ah_map.lookup key with
  | some ah => exact Or.inl ⟨ah, rfl, by simp only [getOrCreateAh, key, hlook]⟩
  | none => exact Or.inr ⟨rfl, by simp only [getOrCreateAh, key, hlook, if_true]⟩

theorem nextId_clearIfLarge (ctx : AhContext) : ctx.clearIfLarge.nextId = ctx.nextId := by
  unfold clearIfLarge
  split <;> rfl

theorem kept_init : Kept init where
  ids := rfl
  created := by
    intro key ah h
    rw [init, AhContext.init, Finmap.lookup_empty] at h
    cases h
  destroyed := fun id hid => absurd hid List.not_mem_nil
  live := by
    intro id
    constructor
    · rintro ⟨hlt, -⟩
      exact absurd hlt (Nat.not_lt_zero id)
    · rintro ⟨key, ah, h, -⟩
      rw [init, AhContext.init, Finmap.lookup_empty] at h
      cases h

namespace Kept
variable {s : AhHistory}

/-- Clearing destroys the cached handles and no others. -/
theorem destroyed_by_clear (h : Kept s) (hlarge : MAX_NUM_HOSTS_IN_PINGLIST < s.ctx.ah_map.keys.card) (id : Nat) :
    (id ∈ s.ctx.clearIfLarge.destroyed ∧ id ∉ s.ctx.destroyed) ↔
      ∃ key ah, s.ctx.ah_map.lookup key = some ah ∧ ah.id = id := by
  rw [← h.live, clearIfLarge, if_pos hlarge]
  simp only [List.mem_append, List.mem_filter, List.mem_range, decide_eq_true_eq]
  constructor
  · rintro ⟨hold | hnew, hnot⟩
    · exact absurd hold hnot
    · exact hnew
  · intro hlive
    exact ⟨Or.inr hlive, hlive.2⟩

theorem clearIfLarge (h : Kept s) : Kept ⟨s.ctx.clearIfLarge, s.created⟩ := by
  unfold AhContext.clearIfLarge
  split
  · refine ⟨h.ids, ?_, ?_, ?_⟩
    · intro key ah hk
      rw [Finmap.lookup_empty] at hk
      cases hk
    · intro id hid
      rcases List.mem_append.mp hid with hold | hnew
      · exact h.destroyed id hold
      · exact List.mem_range.mp (List.mem_filter.mp hnew).1
    · intro id
      constructor
      · rintro ⟨hlt, hnot⟩
        obtain ⟨hold, hnew⟩ := not_or.mp (fun hid => hnot (List.mem_append.mpr hid))
        exact absurd (List.mem_filter.mpr ⟨List.mem_range.mpr hlt, decide_eq_true hold⟩) hnew
      · rintro ⟨key, ah, hk, -⟩
        rw [Finmap.lookup_empty] at hk
        cases hk
  · exact h

theorem create (h : Kept s) {key : Text} (hnone : s.ctx.ah_map.lookup key = none) (attr : AhAttr) :
    Kept ⟨{ s.ctx with ah_map := s.ctx.ah_map.insert key ⟨s.ctx.nextId, attr⟩, nextId := s.ctx.nextId + 1 },
      s.created ++ [⟨s.ctx.nextId, attr⟩]⟩ where
  ids := by rw [List.map_append, h.ids, List.map_singleton, List.range_succ]
  created := by
    intro key' ah hk
    by_cases hkey : key' = key
    · rw [hkey, Finmap.lookup_insert] at hk
      cases hk
      exact List.mem_append_right _ List.mem_cons_self
    · rw [Finmap.lookup_insert_of_ne _ hkey] at hk
      exact List.mem_append_left _ (h.created key' ah hk)
  destroyed := fun id hid => Nat.lt_succ_of_lt (h.destroyed id hid)
  live := by
    intro id
    constructor
    · rintro ⟨hlt, hnot⟩
      rcases Nat.lt_succ_iff_lt_or_eq.mp hlt with hlt | rfl
      · obtain ⟨key', ah, hk, hid⟩ := (h.live id).mp ⟨hlt, hnot⟩
        have hkey : key' ≠ key := by
          rintro rfl
          rw [hnone] at hk
          cases hk
        exact ⟨key', ah, by rw [Finmap.lookup_insert_of_ne _ hkey, hk], hid⟩
      · exact ⟨key, ⟨s.ctx.nextId, attr⟩, Finmap.lookup_insert _, rfl⟩
    · rintro ⟨key', ah, hk, rfl⟩
      by_cases hkey : key' = key
      · rw [hkey, Finmap.lookup_insert] at hk
        cases hk
        exact ⟨Nat.lt_succ_self _, fun hid => Nat.lt_irrefl _ (h.destroyed _ hid)⟩
      · rw [Finmap.lookup_insert_of_ne _ hkey] at hk
        obtain ⟨hlt, hnot⟩ := (h.live ah.id).mpr ⟨key', ah, hk, rfl⟩
        exact ⟨Nat.lt_succ_of_lt hlt, hnot⟩

variable (inetNtop) in
/-- A call keeps the invariant and returns a handle of the cache. -/
theorem step (h : Kept s) (c : AhCall) :
    Kept (s.step inetNtop c) ∧ ∃ ah, (s.get inetNtop c).2 = some ah ∧
      ∃ key, (s.step inetNtop c).ctx.ah_map.lookup key = some ah := by
  have hclear := h.clearIfLarge
  have hnext := nextId_clearIfLarge s.ctx
  unfold AhHistory.step AhHistory.get
  obtain ⟨ah, hlook, hget⟩ | ⟨hnone, hget⟩ := getOrCreateAh_cases inetNtop s.ctx c.rem_dest c.stack
  · rw [hget, if_pos hnext]
    exact ⟨hclear, ah, rfl, _, hlook⟩
  · rw [hget, if_neg (by simp only [hnext]; omega)]
    exact ⟨hclear.create hnone _, _, rfl, _, Finmap.lookup_insert _⟩

end Kept

/-- With texts that fit, every call of a run returns the handle of its destination. -/
theorem right_handles (hinj : Function.Injective inetNtop) (calls : List AhCall)
    (hfits : ∀ c ∈ calls, Fits inetNtop c.rem_dest.gid ∧ c.rem_dest.lid.toNat < 65536) :
    AlwaysRight inetNtop calls := by
  have hallowed : Runs.Along (step inetNtop)
      (fun _ c => Fits inetNtop c.rem_dest.gid ∧ c.rem_dest.lid.toNat < 65536) init calls :=
    Runs.along_of_forall_mem fun _ => hfits
  refine Runs.along_of_invariant (P := fun s => Kept s ∧ Sound inetNtop s.ctx) ?_ ?_ ⟨kept_init, sound_init⟩ hallowed
  · rintro s c ⟨hkept, hsound⟩ ⟨hfit, -⟩
    exact ⟨(hkept.step inetNtop c).1, (getOrCreateAh_sound hinj hsound c.rem_dest hfit c.stack true).1⟩
  · rintro s c ⟨hkept, hsound⟩ ⟨hfit, hlid⟩
    obtain ⟨hkept', ah, hget, key, hlook⟩ := hkept.step inetNtop c
    have hattr : ah.attr = ahAttr c.rem_dest :=
      (getOrCreateAh_sound hinj hsound c.rem_dest hfit c.stack true).2 ah hget
    refine ⟨ah, hget, hkept'.created key ah hlook, ?_, ?_, ((hkept'.live ah.id).mpr ⟨key, ah, hlook, rfl⟩).2⟩
    · rw [hattr, ahAttr, UInt32.toNat_toUInt16]
      exact Nat.mod_eq_of_lt hlid
    · intro hid
      rw [hattr, ahAttr, if_pos hid]

/-- A GID whose text does not fit can get the handle of any other GID. -/
theorem not_alwaysRight_of_not_fits {rem_dest other : RdmaAddr} (hfit : ¬ Fits inetNtop rem_dest.gid)
    (hid : rem_dest.gid.interface_id ≠ 0) (hlid : other.lid = rem_dest.lid) (hgid : other.gid ≠ rem_dest.gid) :
    ∃ stack, ¬ AlwaysRight inetNtop [⟨other, stack⟩, ⟨rem_dest, stack⟩] := by
  -- the buffer still holds the text of the other GID
  let stack := inetNtop other.gid
  have hother : parsedGid inetNtop stack other.gid = stack := by
    unfold parsedGid
    split <;> rfl
  have hrem : parsedGid inetNtop stack rem_dest.gid = stack := if_neg hfit
  have hkey : makeDestinationKey inetNtop stack rem_dest.lid rem_dest.gid =
      makeDestinationKey inetNtop stack other.lid other.gid := by
    rw [makeDestinationKey, makeDestinationKey, hother, hrem, hlid]
  refine ⟨stack, ?_⟩
  rintro ⟨-, ⟨ah, hget, hright⟩, -⟩
  have hctx : (init.step inetNtop ⟨other, stack⟩).ctx = ⟨Finmap.singleton
      (makeDestinationKey inetNtop stack other.lid other.gid) ⟨0, ahAttr other⟩, 1, []⟩ :=
    congrArg Prod.fst (getOrCreateAh_init other stack)
  rw [AhHistory.get, hctx, getOrCreateAh_hit hkey] at hget
  cases hget
  have hdgid := hright.dgid hid
  unfold ahAttr at hdgid
  split at hdgid
  · exact hgid (Option.some.inj hdgid)
  · cases hdgid

end Calls

/-- Two GIDs that the buffer has room for. -/
theorem right_handles_two : AlwaysRight plainNtop
    [⟨⟨7, ⟨0x20010db800010002, 0x3000400050006⟩, 0⟩, []⟩, ⟨⟨7, ⟨0x20010db800010002, 0x3000400050007⟩, 1⟩, []⟩] :=
  right_handles plainNtop_injective _ (by
    simp only [List.forall_mem_cons]
    exact ⟨by decide +kernel, by decide +kernel, List.forall_mem_nil _⟩)

/-- Two GIDs with texts of 39 characters. -/
theorem not_right_handles : ¬ ∀ calls, AlwaysRight plainNtop calls := by
  intro hright
  let rem_dest : RdmaAddr := ⟨7, ⟨0x20011db811112222, 0x3333444455556661⟩, 0⟩
  let other : RdmaAddr := ⟨7, ⟨0x20011db811112222, 0x3333444455556662⟩, 0⟩
  have hfit : ¬ Fits plainNtop rem_dest.gid := by decide +kernel
  have hgid : other.gid ≠ rem_dest.gid := by decide
  have hlid : other.lid = rem_dest.lid := rfl
  obtain ⟨stack, hwrong⟩ := not_alwaysRight_of_not_fits hfit (by decide) hlid hgid
  exact hwrong (hright _)

end AhHistory
end Pingweave
