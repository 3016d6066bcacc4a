import Mathlib.Data.List.Basic

/-!
# Runs of a machine given by a total step function

A machine is a step function `step : σ → α → σ`; an action that is not enabled leaves the
state alone. `run step s as` is the state after the actions `as`, and `Along step G s as`
says that every action of the run is taken in a state where `G` allows it.
-/

namespace Runs
set_option autoImplicit false

universe u v w
variable {σ : Type u} {α : Type v} {τ : Type w} (step : σ → α → σ)

def run (s : σ) (as : List α) : σ := as.foldl step s

@[simp] theorem run_nil (s : σ) : run step s [] = s := rfl

@[simp] theorem run_cons (s : σ) (a : α) (as : List α) :
    run step s (a :: as) = run step (step s a) as := rfl

theorem run_append (s : σ) (as bs : List α) :
    run step s (as ++ bs) = run step (run step s as) bs := List.foldl_append

@[simp] theorem run_concat (s : σ) (as : List α) (a : α) :
    run step s (as ++ [a]) = step (run step s as) a := by
  rw [run_append, run_cons, run_nil]

/-- Every action of the run is taken in a state where `G` holds of it. -/
def Along (G : σ → α → Prop) : σ → List α → Prop
  | _, [] => True
  | s, a :: as => G s a ∧ Along G (step s a) as

variable {step}

instance {G : σ → α → Prop} [∀ s a, Decidable (G s a)] (s : σ) (as : List α) :
    Decidable (Along step G s as) :=
  match as with
  | [] => isTrue trivial
  | a :: as => @instDecidableAnd _ _ _ (instDecidableAlong (step s a) as)

theorem run_invariant {P : σ → Prop} (preserved : ∀ s a, P s → P (step s a))
    {s : σ} (hs : P s) (as : List α) : P (run step s as) := by
  induction as generalizing s with
  | nil => exact hs
  | cons a as ih => exact ih (preserved s a hs)

theorem run_invariant_along {P : σ → Prop} {G : σ → α → Prop}
    (preserved : ∀ s a, P s → G s a → P (step s a))
    {s : σ} (hs : P s) {as : List α} (hG : Along step G s as) : P (run step s as) := by
  induction as generalizing s with
  | nil => exact hs
  | cons a as ih => exact ih (preserved s a hs hG.1) hG.2

theorem Along.take {G : σ → α → Prop} {s : σ} {as : List α} (h : Along step G s as) (n : Nat) :
    Along step G s (as.take n) := by
  induction n generalizing s as with
  | zero => trivial
  | succ n ih =>
    cases as with
    | nil => trivial
    | cons a as => exact ⟨h.1, ih h.2⟩

theorem along_append {G : σ → α → Prop} {s : σ} {as bs : List α} :
    Along step G s (as ++ bs) ↔ Along step G s as ∧ Along step G (run step s as) bs := by
  induction as generalizing s with
  | nil => exact (and_iff_right trivial).symm
  | cons a as ih =>
    rw [List.cons_append, Along, Along, ih, run_cons, and_assoc]

/-- `Along` speaks of every position of the run. -/
theorem along_iff {G : σ → α → Prop} {s : σ} {as : List α} :
    Along step G s as ↔ ∀ n a, as[n]? = some a → G (run step s (as.take n)) a := by
  induction as generalizing s with
  | nil =>
    refine ⟨fun _ n a ha => ?_, fun _ => trivial⟩
    rw [List.getElem?_nil] at ha
    cases ha
  | cons b as ih =>
    constructor
    · rintro ⟨hb, has⟩ n a ha
      cases n with
      | zero =>
        cases ha
        exact hb
      | succ n => exact ih.mp has n a ha
    · intro h
      exact ⟨h 0 b rfl, ih.mpr fun n a ha => h (n + 1) a ha⟩

/-- What an invariant gives for the next action holds of every action of the run. -/
theorem along_of_invariant {P : σ → Prop} {G H : σ → α → Prop}
    (preserved : ∀ s a, P s → G s a → P (step s a)) (gives : ∀ s a, P s → G s a → H s a)
    {s : σ} (hs : P s) {as : List α} (hG : Along step G s as) : Along step H s as := by
  induction as generalizing s with
  | nil => trivial
  | cons a as ih => exact ⟨gives s a hs hG.1, ih (preserved s a hs hG.1) hG.2⟩

/-- As before, where an invariant lasts only as long as the property does. -/
theorem along_congr_of_kept {P : σ → Prop} {H K : σ → α → Prop}
    (preserved : ∀ s a, P s → H s a → P (step s a)) (same : ∀ s a, P s → (H s a ↔ K s a))
    {s : σ} (hs : P s) (as : List α) : Along step H s as ↔ Along step K s as := by
  induction as generalizing s with
  | nil => exact Iff.rfl
  | cons a as ih =>
    constructor
    · rintro ⟨ha, has⟩
      exact ⟨(same s a hs).mp ha, (ih (preserved s a hs ha)).mp has⟩
    · rintro ⟨ha, has⟩
      have hH := (same s a hs).mpr ha
      exact ⟨hH, (ih (preserved s a hs hH)).mpr has⟩

theorem along_of_forall_mem {G : σ → α → Prop} {s : σ} {as : List α} (h : ∀ s, ∀ a ∈ as, G s a) :
    Along step G s as := by
  induction as generalizing s with
  | nil => trivial
  | cons a as ih => exact ⟨h s a List.mem_cons_self, ih fun s b hb => h s b (List.mem_cons_of_mem a hb)⟩

/-- A forward simulation along a run: what `R` relates before a step that `G` allows, it relates
after the step and the one that answers it. -/
theorem run_simulation {σ' : Type*} {β : Type*} {step' : σ' → β → σ'} {R : σ → σ' → Prop} {G : σ → α → Prop}
    {f : α → β} (simulates : ∀ s t a, R s t → G s a → R (step s a) (step' t (f a)))
    {s : σ} {t : σ'} (hst : R s t) {as : List α} (hG : Along step G s as) :
    R (run step s as) (run step' t (as.map f)) := by
  induction as generalizing s t with
  | nil => exact hst
  | cons a as ih => exact ih (simulates s t a hst hG.1) hG.2

end Runs
