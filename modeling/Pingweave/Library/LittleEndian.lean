import Mathlib.Algebra.Ring.Nat
import Mathlib.Data.List.Basic

/-!
# Numbers as little-endian bytes
-/

namespace LittleEndian
set_option autoImplicit false

/-- The `n` low bytes of a number, the lowest first. -/
def bytes : Nat → Nat → List UInt8
  | 0, _ => []
  | n + 1, x => UInt8.ofNat x :: bytes n (x / 256)

def value : List UInt8 → Nat
  | [] => 0
  | b :: bs => b.toNat + 256 * value bs

@[simp] theorem length_bytes (n x : Nat) : (bytes n x).length = n := by
  induction n generalizing x with
  | zero => rfl
  | succ n ih => rw [bytes, List.length_cons, ih]

theorem value_bytes (n x : Nat) : value (bytes n x) = x % 256 ^ n := by
  induction n generalizing x with
  | zero => rw [bytes, value, Nat.pow_zero, Nat.mod_one]
  | succ n ih =>
    have hb : (UInt8.ofNat x).toNat = x % 256 := UInt8.toNat_ofNat'
    rw [bytes, value, ih, hb, Nat.pow_succ, Nat.mul_comm (256 ^ n), Nat.mod_mul]

theorem value_lt (bs : List UInt8) : value bs < 256 ^ bs.length := by
  induction bs with
  | nil => exact Nat.one_pos
  | cons b bs ih =>
    have hb := b.toNat_lt
    rw [value, List.length_cons, Nat.pow_succ]
    omega

theorem bytes_value (bs : List UInt8) : bytes bs.length (value bs) = bs := by
  induction bs with
  | nil => rfl
  | cons b bs ih =>
    have hb := b.toNat_lt
    have hlow : UInt8.ofNat (b.toNat + 256 * value bs) = b := by
      apply UInt8.toNat_inj.mp
      rw [UInt8.toNat_ofNat']
      omega
    have hhigh : (b.toNat + 256 * value bs) / 256 = value bs := by omega
    rw [List.length_cons, value, bytes, hlow, hhigh, ih]

theorem value_eq_zero {bs : List UInt8} : value bs = 0 ↔ bs = List.replicate bs.length 0 := by
  induction bs with
  | nil => exact ⟨fun _ => rfl, fun _ => rfl⟩
  | cons b bs ih =>
    rw [value, Nat.add_eq_zero_iff, List.length_cons, List.replicate_succ, List.cons.injEq, ← ih,
      Nat.mul_eq_zero, or_iff_right (by decide), ← UInt8.toNat_inj]
    rfl

end LittleEndian
