import Mathlib.Data.Rat.Defs
import Pingweave.PyText

/-!
# The heatmap plotter

`prepare_record` and the colour mapping of `ctrl_heatmap_plotter.py`. Python floats are exact
here: `float` reads decimal text as the rational number that it denotes, and quotients are
quotients of rationals. A Python exception is `none`.
-/

namespace Pingweave
set_option autoImplicit false

/-- One side of a decimal point, which may be empty. -/
def pyDigits (s : Text) : Option Nat := if s = [] then some 0 else pyNat s

/-- `float` on digits with an optional fraction. -/
def pyUnsignedFloat (s : Text) : Option Rat :=
  match s.splitOn '.' with
  | [whole] => (pyNat whole).map Nat.cast
  | [whole, fraction] =>
    if whole = [] ∧ fraction = [] then none
    else do
      let n ← pyDigits whole
      let m ← pyDigits fraction
      some (n + m / 10 ^ (fraction.filter fun c => c ≠ '_').length)
  | _ => none

/-- `float` on decimal text without an exponent. -/
def pyFloat (s : Text) : Option Rat :=
  match strip s with
  | '-' :: rest => (pyUnsignedFloat rest).map fun x => -x
  | '+' :: rest => pyUnsignedFloat rest
  | rest => pyUnsignedFloat rest

theorem pyFloat_toDigits (n : Nat) : pyFloat (Nat.toDigits 10 n) = some (n : Rat) := by
  have hstrip : strip (Nat.toDigits 10 n) = Nat.toDigits 10 n :=
    strip_eq_self (trimmed_of_digits fun c hc => isDigit_of_mem_toDigits hc)
  have hfloat : pyUnsignedFloat (Nat.toDigits 10 n) = some (n : Rat) := by
    have hsplit : (Nat.toDigits 10 n).splitOn '.' = [Nat.toDigits 10 n] :=
      List.splitOn_eq_singleton fun h => absurd (isDigit_of_mem_toDigits h) (by decide)
    simp only [pyUnsignedFloat, hsplit, pyNat_toDigits, Option.map_some]
  obtain ⟨c, cs, hd, hminus, hplus⟩ := toDigits_cons n
  rw [pyFloat, hstrip]
  rw [hd] at hfloat ⊢
  split
  · rename_i h
    exact absurd (List.cons.inj h).1 hminus
  · rename_i h
    exact absurd (List.cons.inj h).1 hplus
  · exact hfloat

namespace HeatmapPlotter

inductive PlotType where
  | tcpudp
  | rdma
  deriving DecidableEq, Repr

/-- The plot type that `process_protocol_group` takes for a protocol. -/
def plotType (protocol : Text) : Option PlotType :=
  if protocol = "udp".toList ∨ protocol = "tcp".toList then some .tcpudp
  else if protocol = "roce".toList ∨ protocol = "ib".toList then some .rdma
  else none

structure Percentiles where
  p50 : Rat
  p95 : Rat
  p99 : Rat
  deriving DecidableEq

/-- A record; `client` and `server` are there for RDMA only. -/
structure PingRecord where
  source : Text
  destination : Text
  failure_ratio : Rat
  weird_ratio : Rat
  network : Percentiles
  hosts : Option (Percentiles × Percentiles)
  ping_start_time : Text
  ping_end_time : Text
  deriving DecidableEq

def calculateRatios (n_success n_failure n_weird : Int) : Rat × Rat :=
  let total_sf := n_success + n_failure
  let total_all := n_success + n_failure + n_weird
  (if total_sf = 0 then -1 else n_failure / total_sf, if total_all = 0 then -1 else n_weird / total_all)

def prepareDefaultRecord (src dst : Text) (plot_type : PlotType) : PingRecord where
  source := src
  destination := dst
  failure_ratio := -1
  weird_ratio := -1
  network := ⟨-1, -1, -1⟩
  hosts := match plot_type with
    | .tcpudp => none
    | .rdma => some (⟨-1, -1, -1⟩, ⟨-1, -1, -1⟩)
  ping_start_time := "N/A".toList
  ping_end_time := "N/A".toList

/-- The percentiles in `value[i:i+6]`. -/
def percentilesAt (value : List Text) (i : Nat) : Option Percentiles :=
  match (value.drop i).take 6 with
  | [_, _, _, p50, p95, p99] => do
    some ⟨← pyFloat p50, ← pyFloat p95, ← pyFloat p99⟩
  | _ => none

def prepareRecord (key : Text) (value : List Text) (plot_type : PlotType) : Option PingRecord :=
  match key.splitOn ',' with
  | [src, dst] =>
    if value = [] then some (prepareDefaultRecord src dst plot_type)
    else
      match value.take 5 with
      | [ts_ping_start, ts_ping_end, success, failure, weird] => do
        let n_success ← pyInt success
        let n_failure ← pyInt failure
        let n_weird ← pyInt weird
        let ratios := calculateRatios n_success n_failure n_weird
        match plot_type with
        | .tcpudp => do
          let network ← percentilesAt value 5
          some ⟨src, dst, ratios.1, ratios.2, network, none, ts_ping_start, ts_ping_end⟩
        | .rdma => do
          let client ← percentilesAt value 5
          let network ← percentilesAt value 11
          let server ← percentilesAt value 17
          some ⟨src, dst, ratios.1, ratios.2, network, some (client, server), ts_ping_start,
            ts_ping_end⟩
      | _ => none
  | _ => none

/-- The colour of a delay; `none` is the final `raise`. -/
def mapValueToColorIndexPingDelay (value : Rat) (step0 step1 step2 : Rat) : Option Nat :=
  if value ≤ -1 then some 0
  else if -1 < value ∧ value ≤ 0 then some 1
  else if 0 < value ∧ value ≤ step0 then some 2
  else if step0 < value ∧ value ≤ step1 then some 3
  else if step1 < value ∧ value ≤ step2 then some 4
  else if value > step2 then some 5
  else none

end HeatmapPlotter
end Pingweave
