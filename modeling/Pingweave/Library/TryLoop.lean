import Mathlib.Data.List.Basic

/-!
# Loops that an exception can end

The body of a loop gives the next state and whether it came to its end; an exception leaves the
state that had been reached. `forEach body s l` runs the body on the elements of `l` in order.
-/

namespace TryLoop
set_option autoImplicit false

universe u v
variable {σ : Type u} {α : Type v} {body : σ → α → σ × Bool}

def forEach (body : σ → α → σ × Bool) (s : σ) : List α → σ × Bool
  | [] => (s, true)
  | a :: l =>
    let r := body s a
    if r.2 then forEach body r.1 l else (r.1, false)

@[simp] theorem forEach_nil (s : σ) : forEach body s [] = (s, true) := rfl

theorem forEach_cons_ok {s : σ} {a : α} {l : List α} (h : (body s a).2 = true) :
    forEach body s (a :: l) = forEach body (body s a).1 l := by
  simp only [forEach, h, if_true]

theorem ok_cons {s : σ} {a : α} {l : List α} :
    (forEach body s (a :: l)).2 = true ↔ (body s a).2 = true ∧ (forEach body (body s a).1 l).2 = true := by
  cases h : (body s a).2 with
  | true => simp [forEach_cons_ok h]
  | false => simp [forEach, h]

/-- A loop over two lists, one behind the other, does not come to the second if the first throws. -/
theorem forEach_append (s : σ) (l l' : List α) :
    forEach body s (l ++ l') =
      if (forEach body s l).2 then forEach body (forEach body s l).1 l' else forEach body s l := by
  induction l generalizing s with
  | nil => rfl
  | cons a l ih =>
    cases h : (body s a).2 with
    | true =>
      rw [List.cons_append, forEach_cons_ok h, forEach_cons_ok h]
      exact ih _
    | false => simp [forEach, h]

/-- Without an exception the loop is a fold over what the body does. -/
theorem forEach_eq_foldl {g : σ → α → σ} {l : List α} (hbody : ∀ s, ∀ a ∈ l, (body s a).2 = true → (body s a).1 = g s a)
    {s : σ} (hok : (forEach body s l).2 = true) : (forEach body s l).1 = l.foldl g s := by
  induction l generalizing s with
  | nil => rfl
  | cons a l ih =>
    obtain ⟨ha, hl⟩ := ok_cons.mp hok
    rw [forEach_cons_ok ha, List.foldl_cons, ← hbody s a List.mem_cons_self ha]
    exact ih (fun s b hb => hbody s b (List.mem_cons_of_mem a hb)) hl

/-- Whether an exception comes is the same for two loops whose bodies throw on the same elements,
whatever their states are. -/
theorem forEach_ok_congr {τ : Type*} {body' : τ → α → τ × Bool} {l : List α}
    (hbody : ∀ s t, ∀ a ∈ l, (body s a).2 = (body' t a).2) (s : σ) (t : τ) :
    (forEach body s l).2 = (forEach body' t l).2 := by
  induction l generalizing s t with
  | nil => rfl
  | cons a l ih =>
    have ha := hbody s t a List.mem_cons_self
    have hl := ih (fun s t b hb => hbody s t b (List.mem_cons_of_mem a hb))
    cases h : (body s a).2 with
    | true =>
      rw [forEach_cons_ok h, forEach_cons_ok (ha ▸ h)]
      exact hl _ _
    | false => simp [forEach, h, ha ▸ h]

theorem forEach_ok {l : List α} (hbody : ∀ s, ∀ a ∈ l, (body s a).2 = true) (s : σ) :
    (forEach body s l).2 = true := by
  induction l generalizing s with
  | nil => rfl
  | cons a l ih =>
    exact ok_cons.mpr ⟨hbody s a List.mem_cons_self, ih (fun s b hb => hbody s b (List.mem_cons_of_mem a hb)) _⟩

/-- What the body keeps is kept by the loop, also where an exception ends it. -/
theorem forEach_invariant {P : σ → Prop} {l : List α} (keeps : ∀ s, ∀ a ∈ l, P s → P (body s a).1) {s : σ} (hs : P s) :
    P (forEach body s l).1 := by
  induction l generalizing s with
  | nil => exact hs
  | cons a l ih =>
    have ha := keeps s a List.mem_cons_self hs
    cases h : (body s a).2 with
    | true =>
      rw [forEach_cons_ok h]
      exact ih (fun s b hb => keeps s b (List.mem_cons_of_mem a hb)) ha
    | false =>
      simp only [forEach, h, Bool.false_eq_true, if_false]
      exact ha

end TryLoop
