import Pingweave.Format

/-!
# Ping ids and clock differences

The helpers of `common.cpp` that every client and server shares. Clock differences are
`uint64_t` computations, so they are `UInt64` here; steady-clock time points are nanosecond
counts.
-/

namespace Pingweave
set_option autoImplicit false

/-- A reading of the steady clock, in nanoseconds since its epoch. -/
abbrev TimePoint := Nat

def convertClockToNs (val : TimePoint) : UInt64 := UInt64.ofNat val

/-- `duration_cast<milliseconds>(now - timestamp).count()`; the steady clock never runs back. -/
def elapsedMs (now timestamp : TimePoint) : Nat := (now - timestamp) / 1000000

/-- What a call on a ping table leaves behind: the table, the returned status, and the messages
it handed to `try_enqueue`, in order. The queue is never full, so they all arrive. -/
structure TableCall (Table Msg : Type) where
  table : Table
  ret : Bool
  enqueued : List Msg

def makePingid (high low : UInt32) : UInt64 := (high.toUInt64 <<< 32) ||| low.toUInt64

def calcTimeDeltaWithBitwrap (t1 t2 mask : UInt64) : UInt64 :=
  if t2 ≥ t1 then t2 - t1 else (mask - t1 + 1) + t2

def calcTimeDeltaWithModulo (t1 t2 modulo : UInt64) : UInt64 :=
  let t1_modulo := t1 % modulo
  let t2_modulo := t2 % modulo
  ((t2_modulo + modulo) - t1_modulo) % modulo

theorem toNat_makePingid (high low : UInt32) :
    (makePingid high low).toNat = high.toNat * 2 ^ 32 + low.toNat := by
  have hh := high.toNat_lt
  have hl := low.toNat_lt
  have hs : (high.toUInt64 <<< 32).toNat = high.toNat <<< 32 := by
    simp only [UInt64.toNat_shiftLeft, UInt32.toNat_toUInt64, UInt64.reduceToNat, Nat.shiftLeft_eq,
      Nat.reduceMod, Nat.reducePow]
    omega
  rw [makePingid, UInt64.toNat_or, hs, UInt32.toNat_toUInt64, ← Nat.shiftLeft_add_eq_or_of_lt hl,
    Nat.shiftLeft_eq]

theorem makePingid_inj {h h' l l' : UInt32} (heq : makePingid h l = makePingid h' l') :
    h = h' ∧ l = l' := by
  have hn := congrArg UInt64.toNat heq
  rw [toNat_makePingid, toNat_makePingid] at hn
  have := l.toNat_lt
  have := l'.toNat_lt
  exact ⟨UInt32.toNat_inj.mp (by omega), UInt32.toNat_inj.mp (by omega)⟩

/-- With the factor of the RDMA clocks the computation is subtraction modulo `2^32`, whatever
the two 64-bit readings are. -/
theorem calcTimeDeltaWithModulo_eq (t1 t2 : UInt64) :
    calcTimeDeltaWithModulo t1 t2 PINGWEAVE_TIME_CALC_MODULO = (t2 - t1) % 4294967296 := by
  have h1 := t1.toNat_lt
  have h2 := t2.toNat_lt
  apply UInt64.toNat_inj.mp
  simp only [calcTimeDeltaWithModulo, PINGWEAVE_TIME_CALC_MODULO, UInt64.toNat_mod,
    UInt64.toNat_sub, UInt64.toNat_add, UInt64.reduceToNat]
  omega

theorem calcTimeDeltaWithBitwrap_max (t1 t2 : UInt64) :
    calcTimeDeltaWithBitwrap t1 t2 18446744073709551615 = t2 - t1 := by
  have h1 := t1.toNat_lt
  have h2 := t2.toNat_lt
  unfold calcTimeDeltaWithBitwrap
  split
  · rfl
  · apply UInt64.toNat_inj.mp
    simp only [UInt64.toNat_sub, UInt64.toNat_add, UInt64.reduceToNat]
    omega

end Pingweave
