import Mathlib.Data.List.Rotate
import Pingweave.Library.Runs

/-!
# A cursor that goes round a list

Each turn may set the cursor back to the head of the list and may serve the element at the cursor.
As long as the cursor is only set back where it stands at the head, `l.length` servings in a row
are a rotation of the list.
-/

namespace RoundRobin
set_option autoImplicit false

universe u
variable {α : Type u}

structure Turn where
  restart : Bool
  serve : Bool
  deriving DecidableEq, Repr

/-- Where the cursor stands when the turn may serve. -/
def start (c : Nat) (t : Turn) : Nat := if t.restart then 0 else c

variable (l : List α)

def step (c : Nat) (t : Turn) : Nat := if t.serve then (start c t + 1) % l.length else start c t

def served (c : Nat) : List Turn → List α
  | [] => []
  | t :: ts => (if t.serve then (l[start c t % l.length]?).toList else []) ++ served (step l c t) ts

/-- Only a cursor at the head is set back. -/
def Undisturbed (c : Nat) (t : Turn) : Prop := t.restart = true → c = 0

instance (c : Nat) (t : Turn) : Decidable (Undisturbed c t) := inferInstanceAs (Decidable (_ → _))

variable {l}

theorem served_cons (c : Nat) (t : Turn) (ts : List Turn) :
    served l c (t :: ts) = served l c [t] ++ served l (step l c t) ts := by
  rw [served, served, served, List.append_nil]

theorem start_of_undisturbed {c : Nat} {t : Turn} (h : Undisturbed c t) : start c t = c := by
  unfold start
  split
  · rename_i hr
    exact (h hr).symm
  · rfl

theorem rotate_eq_cons (hl : l ≠ []) (c : Nat) :
    ∃ a tail, l[c % l.length]? = some a ∧ l.rotate c = a :: tail ∧
      l.rotate ((c + 1) % l.length) = tail ++ [a] := by
  have hpos : 0 < l.length := List.length_pos_iff.mpr hl
  cases hr : l.rotate c with
  | nil => exact absurd (List.rotate_eq_nil_iff.mp hr) hl
  | cons a tail =>
    refine ⟨a, tail, ?_, rfl, ?_⟩
    · have hhead := List.getElem?_rotate (n := c) hpos
      rw [hr, Nat.zero_add] at hhead
      exact hhead.symm
    · rw [List.rotate_mod, ← List.rotate_rotate, hr, List.rotate_cons_succ, List.rotate_zero]

/-- At most one round: the elements served are the first ones from the cursor on. -/
theorem served_prefix (hl : l ≠ []) {c : Nat} {ts : List Turn} (h : Runs.Along (step l) Undisturbed c ts)
    (hlen : (served l c ts).length ≤ l.length) : served l c ts <+: l.rotate c := by
  induction ts generalizing c with
  | nil => exact List.nil_prefix
  | cons t ts ih =>
    have hstart := start_of_undisturbed h.1
    cases hserve : t.serve with
    | false =>
      have hstep : step l c t = c := by simp [step, hserve, hstart]
      have hrest := h.2
      simp only [served, hserve, hstep, Bool.false_eq_true, if_false, List.nil_append] at hrest hlen ⊢
      exact ih hrest hlen
    | true =>
      obtain ⟨a, tail, hget, hrot, hnext⟩ := rotate_eq_cons hl c
      have hstep : step l c t = (c + 1) % l.length := by simp [step, hserve, hstart]
      have hrest := h.2
      have htail : tail.length + 1 = l.length := by
        rw [← List.length_rotate l c, hrot, List.length_cons]
      simp only [served, hserve, hstart, hstep, hget, if_true, Option.toList_some, List.singleton_append,
        List.length_cons] at hrest hlen ⊢
      have hprefix := ih hrest (by omega)
      rw [hnext] at hprefix
      rw [hrot, List.cons_prefix_cons]
      exact ⟨rfl, List.prefix_of_prefix_length_le hprefix (List.prefix_append tail [a]) (by omega)⟩

/-- One round of servings, in which only the first may follow a disturbing restart. -/
theorem served_perm (hl : l ≠ []) {c : Nat} {t : Turn} {ts : List Turn}
    (h : Runs.Along (step l) Undisturbed (step l c t) ts) (hlen : (served l c (t :: ts)).length = l.length) :
    (served l c (t :: ts)).Perm l := by
  have hfirst : served l c (t :: ts) = served l (start c t) (⟨false, t.serve⟩ :: ts) := rfl
  have halong : Runs.Along (step l) Undisturbed (start c t) (⟨false, t.serve⟩ :: ts) :=
    ⟨fun hr => absurd hr Bool.false_ne_true, h⟩
  rw [hfirst] at hlen ⊢
  have hrotation := served_prefix hl halong (Nat.le_of_eq hlen)
  rw [hrotation.eq_of_length (by rw [hlen, List.length_rotate])]
  exact List.rotate_perm l _

end RoundRobin
