import Mathlib.Algebra.Order.BigOperators.Group.List
import Mathlib.Algebra.Order.Ring.Nat
import Pingweave.Library.OrderStatistic
import Pingweave.Reports

/-!
# What the delay statistics are

The percentiles of `calc_result_stats` are order statistics of the delays, its maximum is the
greatest delay, and its mean the average as long as the 64-bit sum does not wrap.
-/

namespace Pingweave
open OrderStatistic
set_option autoImplicit false

section Sorted
variable (delays : List UInt64)

theorem mergeSort_sorted : (delays.mergeSort fun a b => a ≤ b).Pairwise (· ≤ ·) := by
  have htrans : ∀ a b c : UInt64, decide (a ≤ b) = true → decide (b ≤ c) = true → decide (a ≤ c) = true := by
    intro a b c hab hbc
    exact decide_eq_true (UInt64.le_trans (of_decide_eq_true hab) (of_decide_eq_true hbc))
  have htotal : ∀ a b : UInt64, (decide (a ≤ b) || decide (b ≤ a)) = true := by
    intro a b
    simpa only [Bool.or_eq_true, decide_eq_true_eq] using UInt64.le_total a b
  exact (List.pairwise_mergeSort htrans htotal delays).imp of_decide_eq_true

theorem length_mergeSort_delays : (delays.mergeSort fun a b => a ≤ b).length = delays.length :=
  List.length_mergeSort delays

variable {delays}

theorem percentile_index_lt (h : delays ≠ []) {p : Nat} (hp : p < 100) :
    delays.length * p / 100 < delays.length := by
  have hpos := List.length_pos_iff.mpr h
  apply Nat.div_lt_of_lt_mul
  have hlt := Nat.mul_lt_mul_of_pos_left hp hpos
  omega

/-- In `size_t` the index of a percentile is the same number. -/
theorem toNat_percentile_index {n p : Nat} (hp : p ≤ 99) (hn : n * 99 < 18446744073709551616) :
    (UInt64.ofNat n * UInt64.ofNat p / 100).toNat = n * p / 100 := by
  have hmul := Nat.mul_le_mul_left n hp
  have hn_lt : n < 18446744073709551616 := by omega
  have hp_lt : p < 18446744073709551616 := by omega
  have hnat : (UInt64.ofNat n).toNat = n := UInt64.toNat_ofNat_of_lt' hn_lt
  have hpnat : (UInt64.ofNat p).toNat = p := UInt64.toNat_ofNat_of_lt' hp_lt
  rw [UInt64.toNat_div, UInt64.toNat_mul, hnat, hpnat, Nat.mod_eq_of_lt (Nat.lt_of_le_of_lt hmul hn)]
  rfl

theorem hasRank_percentile (h : delays ≠ []) {p : Nat} (hp : p < 100) :
    HasRank delays (delays.length * p / 100) (percentile (delays.mergeSort fun a b => a ≤ b) p) := by
  have hlt := percentile_index_lt h hp
  rw [← length_mergeSort_delays delays] at hlt ⊢
  have hrank := (hasRank_of_sorted (mergeSort_sorted delays) hlt).perm (List.mergeSort_perm delays _)
  rw [percentile, List.getD_eq_getElem?_getD, List.getElem?_eq_getElem hlt, Option.getD_some]
  exact hrank

end Sorted

section Maximum

/-- `max_element` -/
theorem foldl_max_spec (delays : List UInt64) (m : UInt64) :
    let max := delays.foldl (fun m d => if m < d then d else m) m
    (max = m ∨ max ∈ delays) ∧ m ≤ max ∧ ∀ d ∈ delays, d ≤ max := by
  induction delays generalizing m with
  | nil => exact ⟨Or.inl rfl, UInt64.le_refl m, fun d hd => absurd hd List.not_mem_nil⟩
  | cons d delays ih =>
    obtain ⟨hmem, hle, hall⟩ := ih (if m < d then d else m)
    simp only [List.foldl_cons]
    have hstep : m ≤ (if m < d then d else m) ∧ d ≤ (if m < d then d else m) := by
      split
      · rename_i hlt
        exact ⟨UInt64.le_of_lt hlt, UInt64.le_refl d⟩
      · rename_i hnot
        exact ⟨UInt64.le_refl m, UInt64.not_lt.mp hnot⟩
    refine ⟨?_, UInt64.le_trans hstep.1 hle, ?_⟩
    · rcases hmem with heq | hmem
      · rw [heq]
        split
        · exact Or.inr List.mem_cons_self
        · exact Or.inl rfl
      · exact Or.inr (List.mem_cons_of_mem d hmem)
    · intro e he
      rcases List.mem_cons.mp he with rfl | he
      · exact UInt64.le_trans hstep.2 hle
      · exact hall e he

end Maximum

section Mean

theorem toNat_foldl_add (delays : List UInt64) (acc : UInt64) :
    (delays.foldl (fun acc d => acc + d) acc).toNat =
      (acc.toNat + (delays.map UInt64.toNat).sum) % 18446744073709551616 := by
  induction delays generalizing acc with
  | nil =>
    have hlt := acc.toNat_lt
    rw [List.foldl_nil, List.map_nil, List.sum_nil, Nat.add_zero, Nat.mod_eq_of_lt hlt]
  | cons d delays ih =>
    rw [List.foldl_cons, ih, UInt64.toNat_add, List.map_cons, List.sum_cons]
    omega

end Mean

variable {delays : List UInt64}

theorem calcResultStats_eq (h : delays ≠ []) : calcResultStats delays =
    ⟨delays.foldl (fun acc d => acc + d) 0 / UInt64.ofNat delays.length,
      delays.foldl (fun m d => if m < d then d else m) 0,
      percentile (delays.mergeSort fun a b => a ≤ b) 50, percentile (delays.mergeSort fun a b => a ≤ b) 95,
      percentile (delays.mergeSort fun a b => a ≤ b) 99⟩ := by
  rw [calcResultStats, if_neg h]

theorem foldl_max_zero_spec (h : delays ≠ []) :
    let max := delays.foldl (fun m d => if m < d then d else m) 0
    max ∈ delays ∧ ∀ d ∈ delays, d ≤ max := by
  obtain ⟨hmem, -, hall⟩ := foldl_max_spec delays 0
  refine ⟨?_, hall⟩
  rcases hmem with hzero | hmem
  · -- all delays are zero
    obtain ⟨d, hd⟩ := List.exists_mem_of_ne_nil delays h
    have hle := hall d hd
    rw [hzero] at hle ⊢
    exact UInt64.le_antisymm hle UInt64.zero_le ▸ hd
  · exact hmem

theorem foldl_max_perm {delays' : List UInt64} (h : delays ≠ []) (hperm : delays'.Perm delays) :
    delays'.foldl (fun m d => if m < d then d else m) 0 = delays.foldl (fun m d => if m < d then d else m) 0 := by
  have h' : delays' ≠ [] := fun hnil => h (List.nil_perm.mp (hnil ▸ hperm))
  obtain ⟨hmem, hall⟩ := foldl_max_zero_spec h
  obtain ⟨hmem', hall'⟩ := foldl_max_zero_spec h'
  exact UInt64.le_antisymm (hall _ (hperm.mem_iff.mp hmem')) (hall' _ (hperm.mem_iff.mpr hmem))

/-- The mean is the average, and lies between the bounds of the delays, when the sum fits 64 bits. -/
theorem mean_spec (h : delays ≠ []) (hlen : delays.length < 18446744073709551616)
    (hsum : (delays.map UInt64.toNat).sum < 18446744073709551616) :
    (calcResultStats delays).mean.toNat = (delays.map UInt64.toNat).sum / delays.length ∧
      (∀ m, (∀ d ∈ delays, m ≤ d) → m ≤ (calcResultStats delays).mean) ∧
      ∀ m, (∀ d ∈ delays, d ≤ m) → (calcResultStats delays).mean ≤ m := by
  have hpos := List.length_pos_iff.mpr h
  have hnat : (UInt64.ofNat delays.length).toNat = delays.length := UInt64.toNat_ofNat_of_lt' hlen
  have hmean : (calcResultStats delays).mean.toNat = (delays.map UInt64.toNat).sum / delays.length := by
    rw [calcResultStats_eq h, UInt64.toNat_div, hnat, toNat_foldl_add, UInt64.toNat_zero, Nat.zero_add,
      Nat.mod_eq_of_lt hsum]
  have hmap : (delays.map UInt64.toNat).length = delays.length := List.length_map UInt64.toNat
  refine ⟨hmean, ?_, ?_⟩
  · intro m hm
    apply UInt64.le_iff_toNat_le.mpr
    rw [hmean, Nat.le_div_iff_mul_le hpos, Nat.mul_comm, ← hmap]
    apply List.card_nsmul_le_sum
    intro x hx
    obtain ⟨d, hd, rfl⟩ := List.mem_map.mp hx
    exact UInt64.le_iff_toNat_le.mp (hm d hd)
  · intro m hm
    apply UInt64.le_iff_toNat_le.mpr
    rw [hmean, ← hmap]
    apply Nat.div_le_of_le_mul
    apply List.sum_le_card_nsmul
    intro x hx
    obtain ⟨d, hd, rfl⟩ := List.mem_map.mp hx
    exact UInt64.le_iff_toNat_le.mp (hm d hd)

/-- The order of the delays does not matter. -/
theorem calcResultStats_perm {delays' : List UInt64} (hperm : delays'.Perm delays) :
    calcResultStats delays' = calcResultStats delays := by
  rcases eq_or_ne delays [] with rfl | h
  · rw [hperm.eq_nil]
  · have h' : delays' ≠ [] := fun hnil => h (List.nil_perm.mp (hnil ▸ hperm))
    have hsum : delays'.foldl (fun acc d => acc + d) 0 = delays.foldl (fun acc d => acc + d) 0 := by
      apply UInt64.toNat_inj.mp
      rw [toNat_foldl_add, toNat_foldl_add, (hperm.map UInt64.toNat).sum_eq]
    have hrank : ∀ p < 100, percentile (delays'.mergeSort fun a b => a ≤ b) p =
        percentile (delays.mergeSort fun a b => a ≤ b) p := by
      intro p hp
      have hleft := (hasRank_percentile h' hp).perm hperm
      rw [hperm.length_eq] at hleft
      exact hleft.unique (hasRank_percentile h hp)
    rw [calcResultStats_eq h, calcResultStats_eq h', hsum, hperm.length_eq, foldl_max_perm h hperm,
      hrank 50 (by decide), hrank 95 (by decide), hrank 99 (by decide)]

/-- What the statistics of some delays are. The index of a percentile is computed in `size_t`. -/
structure DelayStatistics (delays : List UInt64) (stats : ResultStat) : Prop where
  index : ∀ k ∈ [50, 95, 99],
    (UInt64.ofNat delays.length * UInt64.ofNat k / 100).toNat = delays.length * k / 100 ∧
      delays.length * k / 100 < (delays.mergeSort fun a b => a ≤ b).length
  greatest : stats.max ∈ delays ∧ ∀ d ∈ delays, d ≤ stats.max
  ordered : stats.percentile_50 ≤ stats.percentile_95 ∧ stats.percentile_95 ≤ stats.percentile_99 ∧
    stats.percentile_99 ≤ stats.max
  rank : ∀ k p, (k, p) ∈ [(50, stats.percentile_50), (95, stats.percentile_95), (99, stats.percentile_99)] →
    p ∈ delays ∧ delays.countP (fun d => d < p) ≤ delays.length * k / 100 ∧
      delays.length * k / 100 + 1 ≤ delays.countP (fun d => d ≤ p)
  perm : ∀ delays', delays'.Perm delays → calcResultStats delays' = stats
  mean : (delays.map UInt64.toNat).sum < 18446744073709551616 →
    stats.mean.toNat = (delays.map UInt64.toNat).sum / delays.length ∧
      (∀ m ∈ delays, (∀ d ∈ delays, m ≤ d) → m ≤ stats.mean) ∧ stats.mean ≤ stats.max

/-- The statistics of a report are order statistics of its delays. -/
theorem delay_statistics {delays : List UInt64} (h : delays ≠ [])
    (hlen : delays.length * 99 < 18446744073709551616) :
    DelayStatistics delays (calcResultStats delays) := by
  generalize hstats : calcResultStats delays = stats
  have heq := hstats.symm.trans (calcResultStats_eq h)
  have hmax : stats.max ∈ delays ∧ ∀ d ∈ delays, d ≤ stats.max := by
    rw [heq]
    exact foldl_max_zero_spec h
  have hrank : ∀ k p, (k, p) ∈ [(50, stats.percentile_50), (95, stats.percentile_95), (99, stats.percentile_99)] →
      HasRank delays (delays.length * k / 100) p := by
    intro k p hkp
    rw [heq] at hkp
    simp only [List.mem_cons, Prod.mk.injEq, List.not_mem_nil, or_false] at hkp
    obtain ⟨rfl, rfl⟩ | ⟨rfl, rfl⟩ | ⟨rfl, rfl⟩ := hkp
    · exact hasRank_percentile h (by decide)
    · exact hasRank_percentile h (by decide)
    · exact hasRank_percentile h (by decide)
  have h50 := hrank 50 stats.percentile_50 (by simp)
  have h95 := hrank 95 stats.percentile_95 (by simp)
  have h99 := hrank 99 stats.percentile_99 (by simp)
  constructor
  case index =>
    intro k hk
    have hle : k ≤ 99 := by
      simp only [List.mem_cons, List.not_mem_nil, or_false] at hk
      omega
    rw [length_mergeSort_delays]
    exact ⟨toNat_percentile_index hle hlen, percentile_index_lt h (by omega)⟩
  case greatest => exact hmax
  case ordered =>
    refine ⟨h50.mono h95 ?_, h95.mono h99 ?_, hmax.2 _ h99.mem⟩
    · exact Nat.div_le_div_right (Nat.mul_le_mul_left delays.length (by decide))
    · exact Nat.div_le_div_right (Nat.mul_le_mul_left delays.length (by decide))
  case rank =>
    intro k p hkp
    exact ⟨(hrank k p hkp).mem, (hrank k p hkp).below, (hrank k p hkp).notAbove⟩
  case perm =>
    intro delays' hperm
    rw [← hstats]
    exact calcResultStats_perm hperm
  case mean =>
    intro hsum
    obtain ⟨hmean, hlow, hhigh⟩ := mean_spec h (by omega) hsum
    rw [hstats] at hmean hlow hhigh
    exact ⟨hmean, fun m _ hm => hlow m hm, hhigh _ hmax.2⟩

/-- Four delays, two of them equal. -/
theorem delay_statistics_four :
    (calcResultStats [7, 3, 9, 3]).percentile_50 ∈ [7, 3, 9, 3] ∧ (calcResultStats [7, 3, 9, 3]).mean.toNat = 5 := by
  have hne : ([7, 3, 9, 3] : List UInt64) ≠ [] := by decide
  have hstats := delay_statistics hne (by decide)
  exact ⟨(hstats.rank 50 _ List.mem_cons_self).1, (hstats.mean (by decide)).1⟩

end Pingweave
