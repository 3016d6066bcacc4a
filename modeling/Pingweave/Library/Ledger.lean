import Mathlib.Algebra.Order.Group.Multiset
import Mathlib.Data.Multiset.Count

/-!
# Ledgers of resources

A log of the acquisitions and releases that a program makes, in order. `settle held log` is what
is held after the log, starting from `held`, and `none` if something is released that is not
held. A log that settles to nothing has released each thing as often as it was acquired.
-/

namespace Ledger
set_option autoImplicit false

universe u

inductive Entry (R : Type u) where
  | acquire (r : R)
  | release (r : R)
  deriving DecidableEq, Repr

variable {R : Type u}

/-- The resources that a log acquires, in order. -/
def acquired : List (Entry R) → List R
  | [] => []
  | .acquire r :: log => r :: acquired log
  | .release _ :: log => acquired log

@[simp] theorem acquired_append (log log' : List (Entry R)) :
    acquired (log ++ log') = acquired log ++ acquired log' := by
  induction log with
  | nil => rfl
  | cons e log ih => cases e <;> simp [acquired, ih]

@[simp] theorem acquired_acquires (rs : List R) : acquired (rs.map .acquire) = rs := by
  induction rs with
  | nil => rfl
  | cons r rs ih => simp [acquired, ih]

variable [DecidableEq R]

def step (held : Multiset R) : Entry R → Option (Multiset R)
  | .acquire r => some (r ::ₘ held)
  | .release r => if r ∈ held then some (held.erase r) else none

def settle (held : Multiset R) : List (Entry R) → Option (Multiset R)
  | [] => some held
  | e :: log => (step held e).bind fun after => settle after log

@[simp] theorem settle_nil (held : Multiset R) : settle held [] = some held := rfl

@[simp] theorem settle_acquire (held : Multiset R) (r : R) (log : List (Entry R)) :
    settle held (.acquire r :: log) = settle (r ::ₘ held) log := rfl

@[simp] theorem settle_release (held : Multiset R) (r : R) (log : List (Entry R)) :
    settle (r ::ₘ held) (.release r :: log) = settle held log := by
  simp [settle, step]

theorem settle_append (held : Multiset R) (log log' : List (Entry R)) :
    settle held (log ++ log') = (settle held log).bind fun after => settle after log' := by
  induction log generalizing held with
  | nil => rfl
  | cons e log ih =>
    simp only [List.cons_append, settle, Option.bind_assoc]
    exact Option.bind_congr fun after _ => ih after

theorem settle_append_of {held after : Multiset R} {log : List (Entry R)}
    (h : settle held log = some after) (log' : List (Entry R)) :
    settle held (log ++ log') = settle after log' := by
  rw [settle_append, h]
  rfl

theorem settle_acquires (held : Multiset R) (rs : List R) (log : List (Entry R)) :
    settle held (rs.map .acquire ++ log) = settle ((rs : Multiset R) + held) log := by
  induction rs generalizing held with
  | nil => simp
  | cons r rs ih =>
    rw [List.map_cons, List.cons_append, settle_acquire, ih, Multiset.add_cons, ← Multiset.cons_coe,
      Multiset.cons_add]

theorem settle_releases (held : Multiset R) (rs : List R) (log : List (Entry R)) :
    settle ((rs : Multiset R) + held) (rs.map .release ++ log) = settle held log := by
  induction rs with
  | nil => simp
  | cons r rs ih =>
    rw [List.map_cons, List.cons_append, ← Multiset.cons_coe, Multiset.cons_add, settle_release, ih]

/-- The order of the releases does not matter. -/
theorem settle_releases_perm {rs qs : List R} (h : rs.Perm qs) (held : Multiset R)
    (log : List (Entry R)) :
    settle ((rs : Multiset R) + held) (qs.map .release ++ log) = settle held log := by
  rw [Multiset.coe_eq_coe.mpr h, settle_releases]

theorem count_step {held after : Multiset R} {e : Entry R} (h : step held e = some after) (r : R) :
    held.count r + [e].count (.acquire r) = after.count r + [e].count (.release r) := by
  cases e with
  | acquire r' =>
    obtain rfl : r' ::ₘ held = after := by simpa [step] using h
    by_cases heq : r = r'
    · subst heq
      simp
    · simp [Multiset.count_cons_of_ne heq, Ne.symm heq]
  | release r' =>
    have hmem : r' ∈ held := by
      by_contra hnot
      simp [step, hnot] at h
    obtain rfl : held.erase r' = after := by simpa [step, hmem] using h
    by_cases heq : r = r'
    · subst heq
      have hpos := Multiset.count_pos.mpr hmem
      simp
      omega
    · simp [Multiset.count_erase_of_ne heq, Ne.symm heq]

/-- What was held and acquired is what is held and was released. -/
theorem count_settle {held after : Multiset R} {log : List (Entry R)}
    (h : settle held log = some after) (r : R) :
    held.count r + log.count (.acquire r) = after.count r + log.count (.release r) := by
  induction log generalizing held with
  | nil =>
    obtain rfl : held = after := by simpa using h
    simp
  | cons e log ih =>
    obtain ⟨next, hstep, hrest⟩ := Option.bind_eq_some_iff.mp h
    have hhead := count_step hstep r
    have htail := ih hrest
    rw [← List.singleton_append, List.count_append, List.count_append]
    omega

theorem count_acquire (log : List (Entry R)) (r : R) :
    log.count (.acquire r) = (acquired log).count r := by
  induction log with
  | nil => rfl
  | cons e log ih => cases e <;> simp [acquired, List.count_cons, ih]

/-- Every resource that was held or acquired is released exactly once, and at no point is one
released that is not held. -/
structure ReleasedOnce (held : Multiset R) (log : List (Entry R)) : Prop where
  settles : (settle held log).isSome
  once : ∀ r, r ∈ held ∨ r ∈ acquired log → log.count (.release r) = 1

/-- Where nothing is acquired twice, it is enough that nothing is left over. -/
theorem releasedOnce_iff {held after : Multiset R} {log : List (Entry R)}
    (hnodup : (held + acquired log).Nodup) (h : settle held log = some after) :
    ReleasedOnce held log ↔ after = 0 := by
  have hone : ∀ r, held.count r + log.count (.acquire r) ≤ 1 := by
    intro r
    rw [count_acquire, ← Multiset.coe_count, ← Multiset.count_add]
    exact Multiset.nodup_iff_count_le_one.mp hnodup r
  have hpos : ∀ r, (r ∈ held ∨ r ∈ acquired log) ↔ 0 < held.count r + log.count (.acquire r) := by
    intro r
    rw [count_acquire, ← Multiset.count_pos, ← List.count_pos_iff]
    omega
  constructor
  · intro hreleased
    refine Multiset.eq_zero_of_forall_notMem fun r hr => ?_
    have hcount := count_settle h r
    have hafter := Multiset.count_pos.mpr hr
    have honce := hreleased.once r ((hpos r).mpr (by omega))
    have := hone r
    omega
  · rintro rfl
    refine ⟨by simp [h], fun r hr => ?_⟩
    have hcount := count_settle h r
    have := hone r
    have := (hpos r).mp hr
    rw [Multiset.count_zero] at hcount
    omega

end Ledger
