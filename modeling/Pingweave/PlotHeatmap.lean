import Mathlib.Algebra.Order.Field.Basic
import Mathlib.Algebra.Order.Field.Rat
import Mathlib.Tactic.NormNum
import Pingweave.Library.Pivot
import Pingweave.PlotEntries

/-!
# The cells of a heatmap

`plot_heatmap_value` of `ctrl_heatmap_plotter.py` up to the figure: the records of a group as a table
of destinations by sources, the colours of its cells, what a cell says of itself, and how many cells
there are of each colour. An exception is `none`.
-/

namespace Pingweave.HeatmapPlotter
open Pivot
set_option autoImplicit false

def COLOR_SCALE : List Text :=
  ["black".toList, "purple".toList, "green".toList, "yellow".toList, "orange".toList, "red".toList]

/-- An entry of `PLOT_PARAMS`; the steps are in the function. -/
structure PlotParam where
  metric : Text
  tick_steps : List Text
  map_func : Rat → Option Nat

/-- `record[value_name]` -/
def column (value_name : Text) (r : PingRecord) : Option Rat :=
  if value_name = "failure_ratio".toList then some r.failure_ratio
  else if value_name = "weird_ratio".toList then some r.weird_ratio
  else if value_name = "network_p50".toList then some r.network.p50
  else if value_name = "network_p95".toList then some r.network.p95
  else if value_name = "network_p99".toList then some r.network.p99
  else if value_name = "client_p50".toList then r.hosts.map fun h => h.1.p50
  else if value_name = "client_p95".toList then r.hosts.map fun h => h.1.p95
  else if value_name = "client_p99".toList then r.hosts.map fun h => h.1.p99
  else if value_name = "server_p50".toList then r.hosts.map fun h => h.2.p50
  else if value_name = "server_p95".toList then r.hosts.map fun h => h.2.p95
  else if value_name = "server_p99".toList then r.hosts.map fun h => h.2.p99
  else none

/-- What the text of a cell is made of. -/
structure Hover where
  src : Text
  dst : Text
  val : Rat
  ping_time : Text
  deriving DecidableEq

structure Heatmap where
  source_ips : List Text
  destination_ips : List Text
  z_values : List (List Rat)
  z_colors : List (List Nat)
  text_matrix : List (List Hover)
  counts : List Nat

/-- A column is there if some record has it; a missing value is `-1`. -/
def plotHeatmapValue (records : List PingRecord) (p : PlotParam) : Option Heatmap :=
  if p.tick_steps.length ≠ COLOR_SCALE.length then none
  else if records.all (fun r => (column p.metric r).isNone) then none
  else do
    let source_ips := unique (records.map PingRecord.source)
    let destination_ips := unique (records.map PingRecord.destination)
    let source_idx := fun r : PingRecord => number (records.map PingRecord.source) r.source
    let destination_idx := fun r : PingRecord => number (records.map PingRecord.destination) r.destination
    let pivot_table ← pivot records destination_idx source_idx (column p.metric)
    let z_values := pivot_table.values.map fun row => row.map fun value => (value.bind id).getD (-1)
    let time_pivot ← pivot records destination_idx source_idx PingRecord.ping_end_time
    let time_values := time_pivot.values.map fun row => row.map fun time => time.getD "N/A".toList
    let text_matrix := List.zipWith
      (fun dst row => List.zipWith (fun src c => ⟨src, dst, c.1, c.2⟩) source_ips row)
      destination_ips (List.zipWith List.zip z_values time_values)
    let z_colors ← z_values.mapM fun row => row.mapM p.map_func
    some ⟨source_ips, destination_ips, z_values, z_colors, text_matrix, tally p.tick_steps.length z_colors⟩

/-- The lines of the summary that say how often each colour is there. -/
def summaryLines (p : PlotParam) (h : Heatmap) : List Text :=
  List.zipWith (fun tick count => tick ++ ": ".toList ++ Nat.toDigits 10 count) p.tick_steps h.counts

section Cells
variable {records : List PingRecord} {p : PlotParam}

end Cells
/-! ### The records of a group -/

/-- The counts of an entry are not negative. -/
def Counts (value : List Text) : Prop := ∀ i ∈ [2, 3, 4], ∀ n, (value[i]?).bind pyInt = some n → 0 ≤ n

section Colors
variable {p : PlotParam} {plot_type : PlotType}

end Colors
/-! ### What the figure shows -/

section Group
variable {ip_list : List Text} {cells : Dict Text (Option (List Text))} {plot_type : PlotType}
  {records : List PingRecord} {p : PlotParam}

end Group

end Pingweave.HeatmapPlotter
