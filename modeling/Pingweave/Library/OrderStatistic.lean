import Mathlib.Data.List.Basic

/-!
# Order statistics of a list

The element of rank `i`, counted from zero, as the sorted list has it at that index. What it is
can be said by counting, without sorting: at most `i` elements lie below it and more than `i` do
not lie above it.
-/

namespace OrderStatistic
set_option autoImplicit false

universe u
variable {α : Type u} [LE α] [LT α] [DecidableLE α] [DecidableLT α]

structure HasRank (l : List α) (i : Nat) (x : α) : Prop where
  mem : x ∈ l
  below : l.countP (fun y => y < x) ≤ i
  notAbove : i < l.countP (fun y => y ≤ x)

variable {l l' : List α} {i j : Nat} {x y : α}

theorem HasRank.perm (h : HasRank l i x) (hperm : l.Perm l') : HasRank l' i x where
  mem := hperm.mem_iff.mp h.mem
  below := hperm.countP_eq _ ▸ h.below
  notAbove := hperm.countP_eq _ ▸ h.notAbove

variable [Std.LawfulOrderLT α] [Std.IsLinearOrder α]

/-- Ranks order the elements. -/
theorem HasRank.mono (hx : HasRank l i x) (hy : HasRank l j y) (hij : i ≤ j) : x ≤ y := by
  by_contra hnot
  have hlt : y < x := Std.not_le.mp hnot
  have hcount : l.countP (fun z => z ≤ y) ≤ l.countP (fun z => z < x) := by
    apply List.countP_mono_left
    intro z _ hz
    exact decide_eq_true (Std.lt_of_le_of_lt (of_decide_eq_true hz) hlt)
  have hbelow := hx.below
  have habove := hy.notAbove
  omega

theorem HasRank.unique (hx : HasRank l i x) (hy : HasRank l i y) : x = y :=
  Std.le_antisymm (hx.mono hy (Nat.le_refl i)) (hy.mono hx (Nat.le_refl i))

theorem hasRank_append_cons {front back : List α} (hsorted : (front ++ x :: back).Pairwise (· ≤ ·)) :
    HasRank (front ++ x :: back) front.length x := by
  obtain ⟨-, hrest, hcross⟩ := List.pairwise_append.mp hsorted
  have hback := (List.pairwise_cons.mp hrest).1
  refine ⟨List.mem_append_right front List.mem_cons_self, ?_, ?_⟩
  · -- nothing from `x` on lies below it
    have hnone : (x :: back).countP (fun y => y < x) = 0 := by
      apply List.countP_eq_zero.mpr
      intro y hy hlt
      have hle : x ≤ y := by
        rcases List.mem_cons.mp hy with rfl | hy
        · exact Std.le_refl y
        · exact hback y hy
      exact Std.not_lt.mpr hle (of_decide_eq_true hlt)
    rw [List.countP_append, hnone]
    exact List.countP_le_length
  · -- everything up to `x` does not lie above it
    have hfront : front.countP (fun y => y ≤ x) = front.length := by
      apply List.countP_eq_length.mpr
      intro y hy
      exact decide_eq_true (hcross y hy x List.mem_cons_self)
    have hself : (x :: back).countP (fun y => y ≤ x) = back.countP (fun y => y ≤ x) + 1 :=
      List.countP_cons_of_pos (decide_eq_true (Std.le_refl x))
    rw [List.countP_append, hfront, hself]
    omega

/-- A sorted list has its elements at their ranks. -/
theorem hasRank_of_sorted (hsorted : l.Pairwise (· ≤ ·)) (hi : i < l.length) : HasRank l i l[i] := by
  have hsplit : l.take i ++ l[i] :: l.drop (i + 1) = l := by
    rw [← List.drop_eq_getElem_cons hi, List.take_append_drop]
  have hlen : (l.take i).length = i := List.length_take_of_le (Nat.le_of_lt hi)
  have hrank := hasRank_append_cons (hsplit.symm ▸ hsorted)
  rwa [hsplit, hlen] at hrank

end OrderStatistic
