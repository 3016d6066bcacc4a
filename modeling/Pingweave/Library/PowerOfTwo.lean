import Mathlib.Data.Nat.Bitwise

/-!
# Rounding up to a power of two

`smear x k` copies every bit of `x` to the `2 ^ k` places from it downwards, by `k` shifts of
doubling width. It fills all places below the highest bit, so that adding one gives the next
power of two.
-/

namespace PowerOfTwo
set_option autoImplicit false

def smear (x : Nat) : Nat → Nat
  | 0 => x
  | k + 1 => smear x k ||| (smear x k >>> 2 ^ k)

variable {x k : Nat}

theorem testBit_smear (i : Nat) :
    (smear x k).testBit i = true ↔ ∃ j < 2 ^ k, x.testBit (i + j) = true := by
  induction k generalizing i with
  | zero =>
    constructor
    · intro h
      exact ⟨0, Nat.one_pos, h⟩
    · rintro ⟨j, hj, h⟩
      obtain rfl : j = 0 := by rw [pow_zero] at hj; omega
      exact h
  | succ k ih =>
    rw [smear, Nat.testBit_or, Nat.testBit_shiftRight, Bool.or_eq_true, ih, ih, pow_succ]
    constructor
    · rintro (⟨j, hj, h⟩ | ⟨j, hj, h⟩)
      · exact ⟨j, by omega, h⟩
      · refine ⟨2 ^ k + j, by omega, ?_⟩
        rwa [Nat.add_comm (2 ^ k) i, Nat.add_assoc] at h
    · rintro ⟨j, hj, h⟩
      by_cases hlow : j < 2 ^ k
      · exact Or.inl ⟨j, hlow, h⟩
      · refine Or.inr ⟨j - 2 ^ k, by omega, ?_⟩
        have hplace : 2 ^ k + i + (j - 2 ^ k) = i + j := by omega
        rwa [hplace]

theorem smear_eq (hx : x ≠ 0) (hk : x < 2 ^ 2 ^ k) : smear x k = 2 ^ (x.log2 + 1) - 1 := by
  apply Nat.eq_of_testBit_eq
  intro i
  rw [Nat.testBit_two_pow_sub_one, Bool.eq_iff_iff, testBit_smear, decide_eq_true_iff]
  have htop : x.log2 < 2 ^ k := (Nat.log2_lt hx).mpr hk
  constructor
  · rintro ⟨j, -, h⟩
    by_contra hi
    have hlt : x < 2 ^ (i + j) := (Nat.log2_lt hx).mp (by omega)
    rw [Nat.testBit_lt_two_pow hlt] at h
    cases h
  · intro hi
    refine ⟨x.log2 - i, by omega, ?_⟩
    have hplace : i + (x.log2 - i) = x.log2 := by omega
    rw [hplace]
    exact Nat.testBit_log2 hx

/-- The least power of two that is at least `x + 1`. -/
theorem smear_add_one (hk : x < 2 ^ 2 ^ k) :
    ∃ m, smear x k + 1 = 2 ^ m ∧ x + 1 ≤ 2 ^ m ∧ ∀ m', x + 1 ≤ 2 ^ m' → m ≤ m' := by
  by_cases hx : x = 0
  · subst hx
    have hzero : smear 0 k = 0 := by
      apply Nat.eq_of_testBit_eq
      intro i
      rw [Nat.zero_testBit, Bool.eq_false_iff]
      intro h
      obtain ⟨j, -, hj⟩ := (testBit_smear i).mp h
      rw [Nat.zero_testBit] at hj
      cases hj
    exact ⟨0, by rw [hzero, pow_zero, Nat.zero_add], Nat.le_refl 1, fun _ _ => Nat.zero_le _⟩
  · have hpos : 0 < 2 ^ (x.log2 + 1) := Nat.two_pow_pos _
    refine ⟨x.log2 + 1, by rw [smear_eq hx hk]; omega, Nat.lt_log2_self, ?_⟩
    intro m' hm'
    exact (Nat.log2_lt hx).mpr hm'

end PowerOfTwo
