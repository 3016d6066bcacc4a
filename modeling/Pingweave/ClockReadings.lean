import Mathlib.Data.Nat.ModEq
import Pingweave.Common

/-!
# Differences of wrapped clock readings

A counter of `k` bits shows its true time modulo `2^k`. The two functions of `common.cpp` recover
the elapsed time from two such readings. To see that none of their `uint64_t` operations leaves
the 64 bits, they are written a second time with operations that fail when the exact sum or
difference does.
-/

namespace Pingweave
set_option autoImplicit false

/-- What a counter of `k` bits shows at the true time `t`. -/
def clockReading (k t : Nat) : UInt64 := UInt64.ofNat (t % 2 ^ k)

/-- The mask of a counter of `k` bits, as in `completion_timestamp_mask`. -/
def clockMask (k : Nat) : UInt64 := UInt64.ofNat (2 ^ k - 1)

def exactAdd (a b : UInt64) : Option UInt64 :=
  if a.toNat + b.toNat < 18446744073709551616 then some (a + b) else none

def exactSub (a b : UInt64) : Option UInt64 := if b.toNat ≤ a.toNat then some (a - b) else none

def exactMod (a b : UInt64) : Option UInt64 := if b = 0 then none else some (a % b)

/-- `calc_time_delta_with_bitwrap`; `none` as soon as an operation overflows or underflows. -/
def exactTimeDeltaWithBitwrap (t1 t2 mask : UInt64) : Option UInt64 :=
  if t2 ≥ t1 then exactSub t2 t1
  else do
    let untilWrap ← exactSub mask t1
    let toZero ← exactAdd untilWrap 1
    exactAdd toZero t2

/-- `calc_time_delta_with_modulo`, likewise. -/
def exactTimeDeltaWithModulo (t1 t2 modulo : UInt64) : Option UInt64 := do
  let t1_modulo ← exactMod t1 modulo
  let t2_modulo ← exactMod t2 modulo
  let raised ← exactAdd t2_modulo modulo
  let diff ← exactSub raised t1_modulo
  exactMod diff modulo

section Exact
variable {a b : UInt64}

theorem exactAdd_of_lt (h : a.toNat + b.toNat < 18446744073709551616) : exactAdd a b = some (a + b) :=
  if_pos h

theorem exactSub_of_le (h : b.toNat ≤ a.toNat) : exactSub a b = some (a - b) := if_pos h

theorem exactMod_of_ne (h : b ≠ 0) : exactMod a b = some (a % b) := if_neg h

theorem toNat_add_of_lt (h : a.toNat + b.toNat < 18446744073709551616) :
    (a + b).toNat = a.toNat + b.toNat := by
  rw [UInt64.toNat_add, Nat.mod_eq_of_lt h]

theorem toNat_sub_of_toNat_le (h : b.toNat ≤ a.toNat) : (a - b).toNat = a.toNat - b.toNat :=
  UInt64.toNat_sub_of_le a b (UInt64.le_iff_toNat_le.mpr h)

/-- With a modulus of at most 63 bits no operation wraps. -/
theorem exactTimeDeltaWithModulo_eq (t1 t2 modulo : UInt64) (hpos : 0 < modulo.toNat)
    (hmodulo : modulo.toNat ≤ 9223372036854775808) :
    exactTimeDeltaWithModulo t1 t2 modulo = some (calcTimeDeltaWithModulo t1 t2 modulo) ∧
      (calcTimeDeltaWithModulo t1 t2 modulo).toNat =
        (t2.toNat % modulo.toNat + modulo.toNat - t1.toNat % modulo.toNat) % modulo.toNat := by
  have hne : modulo ≠ 0 := by
    rintro rfl
    exact absurd hpos (by decide)
  have h1 : (t1 % modulo).toNat = t1.toNat % modulo.toNat := UInt64.toNat_mod t1 modulo
  have h2 : (t2 % modulo).toNat = t2.toNat % modulo.toNat := UInt64.toNat_mod t2 modulo
  have h1_lt := Nat.mod_lt t1.toNat hpos
  have h2_lt := Nat.mod_lt t2.toNat hpos
  have hadd_lt : (t2 % modulo).toNat + modulo.toNat < 18446744073709551616 := by omega
  have hadd := toNat_add_of_lt hadd_lt
  have hsub_le : (t1 % modulo).toNat ≤ (t2 % modulo + modulo).toNat := by omega
  have hsub := toNat_sub_of_toNat_le hsub_le
  constructor
  · simp only [exactTimeDeltaWithModulo, exactMod_of_ne hne, Option.bind_eq_bind, Option.bind_some,
      exactAdd_of_lt hadd_lt, exactSub_of_le hsub_le, calcTimeDeltaWithModulo]
  · rw [calcTimeDeltaWithModulo, UInt64.toNat_mod, hsub, hadd, h1, h2]

end Exact

/-- Adding a difference goes around the modulus at most once. -/
theorem sub_mod_of_le {s t : Nat} (m : Nat) (hm : 0 < m) (hst : s ≤ t) :
    (t - s) % m = if s % m ≤ t % m then t % m - s % m else m - s % m + t % m := by
  obtain ⟨d, rfl⟩ := Nat.exists_eq_add_of_le hst
  have hs := Nat.mod_lt s hm
  have hd := Nat.mod_lt d hm
  rw [Nat.add_sub_cancel_left]
  rcases Nat.lt_or_ge (s % m + d % m) m with hlt | hge
  · have hsum := Nat.add_mod_of_add_mod_lt hlt
    rw [if_pos (by omega)]
    omega
  · have hsum := Nat.add_mod_add_of_le_add_mod hge
    rw [if_neg (by omega)]
    omega

section Readings
variable {k : Nat}

theorem pow_le_of_le (hk : k ≤ 64) : 2 ^ k ≤ 18446744073709551616 :=
  Nat.pow_le_pow_right (by decide) hk

theorem toNat_clockReading (hk : k ≤ 64) (t : Nat) : (clockReading k t).toNat = t % 2 ^ k := by
  have hlt := Nat.mod_lt t (Nat.two_pow_pos k)
  have hpow := pow_le_of_le hk
  exact UInt64.toNat_ofNat_of_lt' (Nat.lt_of_lt_of_le hlt hpow)

theorem toNat_clockMask (hk : k ≤ 64) : (clockMask k).toNat = 2 ^ k - 1 := by
  have hpos := Nat.two_pow_pos k
  have hpow := pow_le_of_le hk
  exact UInt64.toNat_ofNat_of_lt' (by show 2 ^ k - 1 < 18446744073709551616; omega)

/-- With the mask of the counter no operation wraps, and the result is the elapsed time. -/
theorem bitwrap_clockReading (hk : k ≤ 64) {s t : Nat} (hst : s ≤ t) :
    ∃ delta, exactTimeDeltaWithBitwrap (clockReading k s) (clockReading k t) (clockMask k) = some delta ∧
      calcTimeDeltaWithBitwrap (clockReading k s) (clockReading k t) (clockMask k) = delta ∧
      delta.toNat = (t - s) % 2 ^ k := by
  have hpow := pow_le_of_le hk
  have hs := toNat_clockReading hk s
  have ht := toNat_clockReading hk t
  have hmask := toNat_clockMask hk
  have hs_lt := Nat.mod_lt s (Nat.two_pow_pos k)
  have hsub := sub_mod_of_le (2 ^ k) (Nat.two_pow_pos k) hst
  unfold exactTimeDeltaWithBitwrap calcTimeDeltaWithBitwrap
  by_cases hle : clockReading k t ≥ clockReading k s
  · -- no wrap around
    have hnat := UInt64.le_iff_toNat_le.mp hle
    refine ⟨clockReading k t - clockReading k s, ?_, ?_, ?_⟩
    · rw [if_pos hle, exactSub_of_le hnat]
    · rw [if_pos hle]
    · rw [toNat_sub_of_toNat_le hnat, hs, ht, hsub]
      rw [hs, ht] at hnat
      rw [if_pos hnat]
  · -- the counter has passed zero, so the first reading is positive
    have hnat : (clockReading k t).toNat < (clockReading k s).toNat := by
      have hnot : ¬ (clockReading k s).toNat ≤ (clockReading k t).toNat := fun h =>
        hle (UInt64.le_iff_toNat_le.mpr h)
      omega
    rw [if_neg (by omega)] at hsub
    have hmask_le : (clockReading k s).toNat ≤ (clockMask k).toNat := by omega
    have hrest := toNat_sub_of_toNat_le hmask_le
    have hone : (1 : UInt64).toNat = 1 := rfl
    have hone_lt : (clockMask k - clockReading k s).toNat + (1 : UInt64).toNat < 18446744073709551616 := by omega
    have hzero := toNat_add_of_lt hone_lt
    have hsum_lt : (clockMask k - clockReading k s + 1).toNat + (clockReading k t).toNat <
        18446744073709551616 := by omega
    refine ⟨clockMask k - clockReading k s + 1 + clockReading k t, ?_, ?_, ?_⟩
    · rw [if_neg hle, exactSub_of_le hmask_le, Option.bind_eq_bind, Option.bind_some, exactAdd_of_lt hone_lt,
        Option.bind_some, exactAdd_of_lt hsum_lt]
    · rw [if_neg hle]
    · rw [hs, ht] at hnat
      rw [toNat_add_of_lt hsum_lt, hsub]
      omega

/-- Modulo `2^32` the same holds for every counter of at least 32 bits. -/
theorem modulo_clockReading (hk32 : 32 ≤ k) (hk : k ≤ 64) {s t : Nat} (hst : s ≤ t) :
    ∃ delta, exactTimeDeltaWithModulo (clockReading k s) (clockReading k t) PINGWEAVE_TIME_CALC_MODULO =
        some delta ∧
      calcTimeDeltaWithModulo (clockReading k s) (clockReading k t) PINGWEAVE_TIME_CALC_MODULO = delta ∧
      delta.toNat = (t - s) % 4294967296 := by
  have hdvd : 4294967296 ∣ 2 ^ k := Nat.pow_dvd_pow 2 hk32
  have hmod : PINGWEAVE_TIME_CALC_MODULO.toNat = 4294967296 := by decide
  obtain ⟨hexact, hnat⟩ := exactTimeDeltaWithModulo_eq (clockReading k s) (clockReading k t)
    PINGWEAVE_TIME_CALC_MODULO (by omega) (by omega)
  refine ⟨_, hexact, rfl, ?_⟩
  -- the nested moduli
  rw [hnat, hmod, toNat_clockReading hk, toNat_clockReading hk, Nat.mod_mod_of_dvd s hdvd,
    Nat.mod_mod_of_dvd t hdvd]
  omega

/-- Differences of wrapped readings are the differences of the true times, and nothing overflows. -/
theorem wrapped_differences_exact {k : Nat} (hk32 : 32 ≤ k) (hk : k ≤ 64) {T1 T2 : Nat} (h : T1 ≤ T2) :
    ((calcTimeDeltaWithModulo (clockReading k T1) (clockReading k T2) PINGWEAVE_TIME_CALC_MODULO).toNat =
        (T2 - T1) % 2 ^ 32 ∧
      (T2 - T1 < 2 ^ 32 →
        (calcTimeDeltaWithModulo (clockReading k T1) (clockReading k T2) PINGWEAVE_TIME_CALC_MODULO).toNat =
          T2 - T1) ∧
      exactTimeDeltaWithModulo (clockReading k T1) (clockReading k T2) PINGWEAVE_TIME_CALC_MODULO =
        some (calcTimeDeltaWithModulo (clockReading k T1) (clockReading k T2) PINGWEAVE_TIME_CALC_MODULO)) ∧
    (calcTimeDeltaWithBitwrap (clockReading k T1) (clockReading k T2) (clockMask k)).toNat =
        (T2 - T1) % 2 ^ k ∧
      exactTimeDeltaWithBitwrap (clockReading k T1) (clockReading k T2) (clockMask k) =
        some (calcTimeDeltaWithBitwrap (clockReading k T1) (clockReading k T2) (clockMask k)) := by
  obtain ⟨byModulo, hexactModulo, rfl, hmodulo⟩ := modulo_clockReading hk32 hk h
  obtain ⟨byMask, hexactMask, rfl, hmask⟩ := bitwrap_clockReading hk h
  refine ⟨⟨hmodulo, ?_, hexactModulo⟩, hmask, hexactMask⟩
  intro hlt
  rw [hmodulo]
  exact Nat.mod_eq_of_lt hlt

end Readings

/-- A counter of 33 bits that wraps between the two reads. -/
theorem wrapped_differences_exact_wrap :
    (calcTimeDeltaWithModulo (clockReading 33 8589934590) (clockReading 33 8589934595)
        PINGWEAVE_TIME_CALC_MODULO).toNat = 5 ∧
      (calcTimeDeltaWithBitwrap (clockReading 33 8589934590) (clockReading 33 8589934595)
        (clockMask 33)).toNat = 5 := by
  obtain ⟨⟨-, hmodulo, -⟩, hmask, -⟩ :=
    wrapped_differences_exact (k := 33) (by decide) (by decide) (show 8589934590 ≤ 8589934595 by decide)
  exact ⟨hmodulo (by decide), hmask⟩

end Pingweave
