import Mathlib.Data.Nat.Digits.Lemmas
import Mathlib.Data.List.Induction

/-!
# Hexadecimal digits of a fixed width

`padded k n` is the text of `n` with `k` digits, `value s` the number that a text of digits
stands for. On texts of lower-case digits the two are inverse to each other.
-/

namespace HexDigits
set_option autoImplicit false

def isLower (c : Char) : Bool := ('0' ≤ c && c ≤ '9') || ('a' ≤ c && c ≤ 'f')

def isHex (c : Char) : Bool := isLower c || ('A' ≤ c && c ≤ 'F')

def digitVal (c : Char) : Nat :=
  if c ≤ '9' then c.toNat - '0'.toNat
  else if c ≤ 'F' then c.toNat - 'A'.toNat + 10
  else c.toNat - 'a'.toNat + 10

def value (s : List Char) : Nat := s.foldl (fun n c => 16 * n + digitVal c) 0

/-- The last `k` digits of `n`. -/
def padded : Nat → Nat → List Char
  | 0, _ => []
  | k + 1, n => padded k (n / 16) ++ [Nat.digitChar (n % 16)]

theorem value_append_singleton (s : List Char) (c : Char) : value (s ++ [c]) = 16 * value s + digitVal c := by
  rw [value, List.foldl_append]
  rfl

@[simp] theorem length_padded (k n : Nat) : (padded k n).length = k := by
  induction k generalizing n with
  | zero => rfl
  | succ k ih => rw [padded, List.length_append, ih, List.length_singleton]

theorem isLower_digitChar : ∀ d < 16, isLower (Nat.digitChar d) = true := by decide

theorem digitVal_digitChar : ∀ d < 16, digitVal (Nat.digitChar d) = d := by decide

theorem isHex_of_isLower {c : Char} (h : isLower c = true) : isHex c = true := by
  rw [isHex, h, Bool.true_or]

theorem isLower_of_mem_padded {k n : Nat} {c : Char} (h : c ∈ padded k n) : isLower c = true := by
  induction k generalizing n with
  | zero => cases h
  | succ k ih =>
    rcases List.mem_append.mp h with hmem | hlast
    · exact ih hmem
    · rw [List.mem_singleton.mp hlast]
      exact isLower_digitChar _ (Nat.mod_lt n (by decide))

theorem value_padded {k n : Nat} (h : n < 16 ^ k) : value (padded k n) = n := by
  induction k generalizing n with
  | zero =>
    rw [Nat.pow_zero] at h
    have hn : n = 0 := by omega
    rw [hn]
    rfl
  | succ k ih =>
    rw [Nat.pow_succ] at h
    have hdiv : n / 16 < 16 ^ k := by omega
    rw [padded, value_append_singleton, ih hdiv, digitVal_digitChar _ (Nat.mod_lt n (by decide))]
    omega

/-- A lower-case digit is the digit of its number. -/
theorem digitChar_digitVal {c : Char} (h : isLower c = true) :
    digitVal c < 16 ∧ Nat.digitChar (digitVal c) = c := by
  have hmem : c ∈ (List.range 16).map Nat.digitChar := by
    have hrange : (48 ≤ c.toNat ∧ c.toNat ≤ 57) ∨ (97 ≤ c.toNat ∧ c.toNat ≤ 102) := by
      simpa [isLower, Char.le_def, UInt32.le_iff_toNat_le] using h
    have hchar : Char.ofNat c.toNat = c := Char.ofNat_toNat c
    rw [← hchar]
    generalize c.toNat = n at hrange
    rcases hrange with ⟨hlo, hhi⟩ | ⟨hlo, hhi⟩ <;> interval_cases n <;> decide
  obtain ⟨d, hd, rfl⟩ := List.mem_map.mp hmem
  have hlt : d < 16 := List.mem_range.mp hd
  rw [digitVal_digitChar d hlt]
  exact ⟨hlt, rfl⟩

theorem padded_value {s : List Char} (h : ∀ c ∈ s, isLower c = true) : padded s.length (value s) = s := by
  induction s using List.reverseRecOn with
  | nil => rfl
  | append_singleton s c ih =>
    obtain ⟨hlt, hchar⟩ := digitChar_digitVal (h c (by simp))
    have hdiv : (16 * value s + digitVal c) / 16 = value s := by omega
    have hmod : (16 * value s + digitVal c) % 16 = digitVal c := by omega
    rw [List.length_append, List.length_singleton, value_append_singleton, padded, hdiv, hmod, hchar,
      ih fun d hd => h d (List.mem_append_left [c] hd)]

theorem value_lt {s : List Char} (h : ∀ c ∈ s, isLower c = true) : value s < 16 ^ s.length := by
  induction s using List.reverseRecOn with
  | nil => exact Nat.one_pos
  | append_singleton s c ih =>
    have hlt := (digitChar_digitVal (h c (by simp))).1
    have hs := ih fun d hd => h d (List.mem_append_left [c] hd)
    rw [List.length_append, List.length_singleton, Nat.pow_succ, value_append_singleton]
    omega

theorem padded_zero (k : Nat) : padded k 0 = List.replicate k '0' := by
  induction k with
  | zero => rfl
  | succ k ih =>
    rw [padded, ih, List.replicate_succ']
    rfl

/-- The digits of a number, filled up with zeros on the left. -/
theorem leftpad_toDigits {k n : Nat} (hk : 0 < k) (h : n < 16 ^ k) :
    List.leftpad k '0' (Nat.toDigits 16 n) = padded k n := by
  induction k generalizing n with
  | zero => exact absurd hk (Nat.lt_irrefl 0)
  | succ k ih =>
    rw [Nat.toDigits_eq_if (by decide)]
    split
    · rename_i hn
      have hdiv : n / 16 = 0 := by omega
      have hmod : n % 16 = n := by omega
      rw [padded, hdiv, hmod, padded_zero]
      rfl
    · rename_i hn
      rw [Nat.pow_succ] at h
      have hpos : 0 < k := by
        apply Nat.pos_of_ne_zero
        rintro rfl
        omega
      have hrest := ih hpos (n := n / 16) (by omega)
      rw [padded, ← hrest]
      simp only [List.leftpad, List.length_append, List.length_singleton, Nat.add_sub_add_right,
        List.append_assoc]

end HexDigits
