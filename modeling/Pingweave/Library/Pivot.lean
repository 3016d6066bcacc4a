import Mathlib.Algebra.Ring.Nat
import Mathlib.Algebra.BigOperators.Group.Finset.Basic
import Mathlib.Data.List.Find
import Mathlib.Data.List.Sort
import Pingweave.Library.Dict

/-!
# Pivot tables

Rows with two keys as a table: the rows of the table are the distinct values of the one, its columns
those of the other, both in ascending order. Keys that are numbered in the order in which they first
appear come back in that order.
-/

namespace Pivot
set_option autoImplicit false

universe u v w x
variable {R : Type u} {K : Type v} {L : Type w} {V : Type x}

/-- Every number once, in ascending order. -/
def sortedUnique (l : List Nat) : List Nat := l.eraseDups.mergeSort fun m n => decide (m ≤ n)

structure Table (V : Type x) where
  index : List Nat
  columns : List Nat
  values : List (List (Option V))

/-- `none` where two rows have the same keys. A cell without a row has no value. -/
def pivot (rows : List R) (index columns : R → Nat) (value : R → V) : Option (Table V) :=
  if (rows.map fun r => (index r, columns r)).Nodup then
    some {
      index := sortedUnique (rows.map index)
      columns := sortedUnique (rows.map columns)
      values := (sortedUnique (rows.map index)).map fun i => (sortedUnique (rows.map columns)).map fun j =>
        (rows.find? fun r => index r = i ∧ columns r = j).map value }
  else none

variable [DecidableEq K] [DecidableEq L]

/-- The values in the order in which they first appear. -/
def unique (keys : List K) : List K := keys.eraseDups

/-- The number of a key in `{k: i for i, k in enumerate(unique(keys))}`. -/
def number (keys : List K) (k : K) : Nat := (unique keys).idxOf k

/-- `counts[val] += 1` for every cell. -/
def tally (n : Nat) (cells : List (List Nat)) : List Nat :=
  cells.foldl (fun counts row => row.foldl (fun counts val => counts.modify val (· + 1)) counts) (List.replicate n 0)

end Pivot
