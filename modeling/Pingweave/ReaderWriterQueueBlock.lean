import Pingweave.ReaderWriterQueue

/-!
# Blocks and the circle of blocks

What a block of the queue holds, and the sizes that the constructor chooses.
-/

namespace Pingweave
namespace ReaderWriterQueue
set_option autoImplicit false

universe u
variable {T : Type u} {e : Nat}

namespace Block
variable {b : Block T} {l : List T} {x : T}

/-- A block of size `2 ^ e` holds `l` from `front` on, and the copy that a thread keeps of the
other one's index is not ahead of it. -/
structure Holds (e : Nat) (b : Block T) (l : List T) : Prop where
  mask : b.sizeMask = 2 ^ e - 1
  front : b.front < 2 ^ e
  slots : Ring.Holds (2 ^ e) b.data b.front (l.map some)
  tail : b.tail = (b.front + l.length) % 2 ^ e
  localFront : ∃ behind, b.front = (b.localFront + behind) % 2 ^ e ∧ b.localFront < 2 ^ e ∧
    behind + l.length < 2 ^ e
  localTail : ∃ seen, b.localTail = (b.front + seen) % 2 ^ e ∧ seen ≤ l.length

namespace Holds

theorem succ_eq (h : b.Holds e l) (i : Nat) : b.succ i = (i + 1) % 2 ^ e := by
  rw [succ, h.mask, Nat.and_two_pow_sub_one_eq_mod]

theorem length_lt (h : b.Holds e l) : l.length < 2 ^ e := by
  obtain ⟨behind, -, -, hlt⟩ := h.localFront
  omega

theorem succ_tail (h : b.Holds e l) : b.succ b.tail = (b.front + (l.length + 1)) % 2 ^ e := by
  rw [h.succ_eq, h.tail, Nat.mod_add_mod, Nat.add_assoc]

/-- The full test of the producer against the true `front`. -/
theorem full_iff (h : b.Holds e l) : b.succ b.tail = b.front ↔ l.length + 1 = 2 ^ e := by
  have hlen := h.length_lt
  rw [h.succ_tail]
  constructor
  · intro heq
    by_contra hne
    have hslot : (b.front + (l.length + 1)) % 2 ^ e = (b.front + 0) % 2 ^ e := by
      rw [heq, Nat.add_zero, Nat.mod_eq_of_lt h.front]
    have := (Ring.slot_inj (by omega) (by omega)).mp hslot
    omega
  · intro hfull
    rw [hfull, Nat.add_mod_right, Nat.mod_eq_of_lt h.front]

theorem empty_iff (h : b.Holds e l) : b.front = b.tail ↔ l = [] := by
  have hlen := h.length_lt
  rw [h.tail]
  constructor
  · intro heq
    have hslot : (b.front + 0) % 2 ^ e = (b.front + l.length) % 2 ^ e := by
      rw [← heq, Nat.add_zero, Nat.mod_eq_of_lt h.front]
    exact List.length_eq_zero_iff.mp ((Ring.slot_inj (by omega) hlen).mp hslot).symm
  · rintro rfl
    rw [List.length_nil, Nat.add_zero, Nat.mod_eq_of_lt h.front]

/-- Against its old copy of `front` the producer finds room only where there is some. -/
theorem behind_of_room (h : b.Holds e l) (hroom : b.succ b.tail ≠ b.localFront) :
    ∃ behind, b.front = (b.localFront + behind) % 2 ^ e ∧ b.localFront < 2 ^ e ∧
      behind + l.length + 1 < 2 ^ e := by
  obtain ⟨behind, hfront, hlocal, hlt⟩ := h.localFront
  refine ⟨behind, hfront, hlocal, ?_⟩
  by_contra hge
  have hlen : behind + (l.length + 1) = 2 ^ e := by omega
  apply hroom
  rw [h.succ_tail, hfront, Nat.mod_add_mod, Nat.add_assoc, hlen, Nat.add_mod_right,
    Nat.mod_eq_of_lt hlocal]

theorem nonempty_of_front_ne (h : b.Holds e l) (hne : b.front ≠ b.localTail) : l ≠ [] := by
  rintro rfl
  obtain ⟨seen, htail, hseen⟩ := h.localTail
  obtain rfl : seen = 0 := Nat.le_zero.mp hseen
  rw [Nat.add_zero, Nat.mod_eq_of_lt h.front] at htail
  exact hne htail.symm

theorem element (h : b.Holds e (x :: l)) : b.data b.front = some x :=
  h.slots.front h.front

theorem make {capacity : UInt64} (hcap : capacity.toNat = 2 ^ e) :
    (Block.make capacity : Block T).Holds e [] := by
  have hpos : 0 < 2 ^ e := Nat.two_pow_pos e
  have hzero : 0 = (0 + 0) % 2 ^ e := (Nat.zero_mod _).symm
  refine ⟨?_, hpos, Ring.holds_nil, hzero, ⟨0, hzero, hpos, hpos⟩, ⟨0, hzero, Nat.le_refl 0⟩⟩
  have hone : (1 : UInt64) ≤ capacity := by
    rw [UInt64.le_iff_toNat_le, hcap]
    exact hpos
  rw [Block.make, UInt64.toNat_sub_of_le _ _ hone, hcap]
  rfl

theorem construct (h : b.Holds e l) (x : T) : (b.construct x).Holds e l where
  mask := h.mask
  front := h.front
  slots := by
    have hwrite := h.slots.write (by rw [List.length_map]; exact h.length_lt) (some x)
    rwa [List.length_map, ← h.tail] at hwrite
  tail := h.tail
  localFront := h.localFront
  localTail := h.localTail

theorem storeTail (h : b.Holds e l) (hroom : b.succ b.tail ≠ b.localFront)
    (hx : b.data b.tail = some x) : b.storeTail.Holds e (l ++ [x]) where
  mask := h.mask
  front := h.front
  slots := by
    rw [List.map_append]
    refine h.slots.push ?_
    rw [List.length_map, ← h.tail]
    exact hx
  tail := by
    rw [List.length_append, List.length_singleton]
    exact h.succ_tail
  localFront := by
    obtain ⟨behind, hfront, hlocal, hlt⟩ := h.behind_of_room hroom
    exact ⟨behind, hfront, hlocal, by rw [List.length_append, List.length_singleton]; omega⟩
  localTail := by
    obtain ⟨seen, htail, hseen⟩ := h.localTail
    exact ⟨seen, htail, by rw [List.length_append]; omega⟩

theorem loadFront (h : b.Holds e l) : b.loadFront.Holds e l where
  mask := h.mask
  front := h.front
  slots := h.slots
  tail := h.tail
  localFront := ⟨0, (Nat.mod_eq_of_lt h.front).symm, h.front, by rw [Nat.zero_add]; exact h.length_lt⟩
  localTail := h.localTail

theorem loadTail (h : b.Holds e l) : b.loadTail.Holds e l where
  mask := h.mask
  front := h.front
  slots := h.slots
  tail := h.tail
  localFront := h.localFront
  localTail := ⟨l.length, h.tail, Nat.le_refl _⟩

theorem storeFront (h : b.Holds e (x :: l)) (hne : b.front ≠ b.localTail) : b.storeFront.Holds e l where
  mask := h.mask
  front := by
    change b.succ b.front < 2 ^ e
    rw [h.succ_eq]
    exact Nat.mod_lt _ (Nat.two_pow_pos e)
  slots := by
    change Ring.Holds (2 ^ e) b.data (b.succ b.front) (l.map some)
    rw [h.succ_eq]
    exact h.slots.pop
  tail := by
    change b.tail = (b.succ b.front + l.length) % 2 ^ e
    rw [h.succ_eq, h.tail, Nat.mod_add_mod, List.length_cons, Nat.add_right_comm, Nat.add_assoc]
  localFront := by
    obtain ⟨behind, hfront, hlocal, hlt⟩ := h.localFront
    refine ⟨behind + 1, ?_, hlocal, by rw [List.length_cons] at hlt; omega⟩
    change b.succ b.front = (b.localFront + (behind + 1)) % 2 ^ e
    rw [h.succ_eq, hfront, Nat.mod_add_mod, Nat.add_assoc]
  localTail := by
    obtain ⟨seen, htail, hseen⟩ := h.localTail
    have hpos : seen ≠ 0 := by
      rintro rfl
      rw [Nat.add_zero, Nat.mod_eq_of_lt h.front] at htail
      exact hne htail.symm
    refine ⟨seen - 1, ?_, by rw [List.length_cons] at hseen; omega⟩
    change b.localTail = (b.succ b.front + (seen - 1)) % 2 ^ e
    have hsum : b.front + 1 + (seen - 1) = b.front + seen := by omega
    rw [h.succ_eq, Nat.mod_add_mod, hsum, htail]

end Holds
end Block

theorem toNat_ceilToPow2 {x : UInt64} (hx : x ≠ 0) (hle : x.toNat ≤ 2 ^ 63) :
    ∃ m, (ceilToPow2 x).toNat = 2 ^ m ∧ x.toNat ≤ 2 ^ m ∧ ∀ m', x.toNat ≤ 2 ^ m' → m ≤ m' := by
  have hpos : 1 ≤ x.toNat := by
    rw [Nat.one_le_iff_ne_zero, ← UInt64.toNat_zero]
    exact fun h => hx (UInt64.toNat_inj.mp h)
  have hpred : (x - 1).toNat = x.toNat - 1 :=
    UInt64.toNat_sub_of_le _ _ (UInt64.le_iff_toNat_le.mpr hpos)
  obtain ⟨m, hsmear, hup, hleast⟩ := PowerOfTwo.smear_add_one (x := (x - 1).toNat) (k := 6)
    (Nat.lt_of_lt_of_le (x - 1).toNat_lt (by decide))
  rw [hpred, Nat.sub_add_cancel hpos] at hup hleast
  refine ⟨m, ?_, hup, hleast⟩
  have hm : 2 ^ m ≤ 2 ^ 63 := Nat.pow_le_pow_right (by omega) (hleast 63 hle)
  have hsteps : (ceilToPow2 x).toNat = (PowerOfTwo.smear (x - 1).toNat 6 + 1) % 2 ^ 64 := by
    rw [ceilToPow2, UInt64.toNat_add]
    simp only [UInt64.toNat_or, UInt64.toNat_shiftRight]
    rfl
  rw [hsteps, hsmear]
  exact Nat.mod_eq_of_lt (Nat.lt_of_le_of_lt hm (by decide))

end ReaderWriterQueue
end Pingweave
