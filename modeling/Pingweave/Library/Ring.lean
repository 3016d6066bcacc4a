import Mathlib.Logic.Function.Basic
import Mathlib.Data.List.Basic

/-!
# Lists stored in a ring of slots

A ring has `n` slots, numbered from 0. `Holds n slots head l` says that the list `l` lies in
order in the slots from `head` on, wrapping around after slot `n - 1`. `Lays R` is the same for slots that only
represent the elements.
-/

namespace Ring
set_option autoImplicit false

universe u
variable {α : Type u} {n head : Nat} {slots : Nat → α} {l : List α} {a : α}

def Holds (n : Nat) (slots : Nat → α) (head : Nat) (l : List α) : Prop :=
  ∀ i a, l[i]? = some a → slots ((head + i) % n) = a

theorem holds_nil : Holds n slots head [] := by
  intro i a h
  rw [List.getElem?_nil] at h
  cases h

/-- Positions less than a turn apart are different slots. -/
theorem slot_ne {i j : Nat} (hij : i < j) (hj : j < n) : (head + i) % n ≠ (head + j) % n := by
  intro h
  have hmod : (head + j - (head + i)) % n = 0 := Nat.sub_mod_eq_zero_of_mod_eq h.symm
  have hdiff : head + j - (head + i) = j - i := by omega
  rw [hdiff, Nat.mod_eq_of_lt (by omega)] at hmod
  omega

theorem slot_inj {i j : Nat} (hi : i < n) (hj : j < n) : (head + i) % n = (head + j) % n ↔ i = j := by
  constructor
  · intro h
    rcases Nat.lt_trichotomy i j with hlt | heq | hlt
    · exact absurd h (slot_ne hlt hj)
    · exact heq
    · exact absurd h.symm (slot_ne hlt hi)
  · rintro rfl
    rfl

theorem Holds.front (h : Holds n slots head (a :: l)) (hhead : head < n) : slots head = a := by
  have hslot := h 0 a rfl
  rwa [Nat.add_zero, Nat.mod_eq_of_lt hhead] at hslot

theorem Holds.pop (h : Holds n slots head (a :: l)) : Holds n slots ((head + 1) % n) l := by
  intro i b hb
  have hslot := h (i + 1) b hb
  rwa [Nat.mod_add_mod, Nat.add_right_comm, Nat.add_assoc]

theorem Holds.write (h : Holds n slots head l) (hlen : l.length < n) (a : α) :
    Holds n (Function.update slots ((head + l.length) % n) a) head l := by
  intro i b hb
  have hi : i < l.length := (List.getElem?_eq_some_iff.mp hb).1
  rw [Function.update_of_ne (slot_ne hi hlen)]
  exact h i b hb

theorem Holds.push (h : Holds n slots head l) (ha : slots ((head + l.length) % n) = a) :
    Holds n slots head (l ++ [a]) := by
  intro i b hb
  by_cases hi : i < l.length
  · rw [List.getElem?_append_left hi] at hb
    exact h i b hb
  · have hlen := (List.getElem?_eq_some_iff.mp hb).1
    rw [List.length_append, List.length_singleton] at hlen
    have heq : i = l.length := by omega
    subst heq
    rw [List.getElem?_append_right (Nat.le_refl _), Nat.sub_self] at hb
    cases hb
    exact ha

section Lays
universe v
variable {β : Type v} {R : α → β → Prop} {m : List β} {b : β}

def Lays (R : α → β → Prop) (n : Nat) (slots : Nat → α) (head : Nat) (m : List β) : Prop :=
  ∀ i b, m[i]? = some b → R (slots ((head + i) % n)) b

/-- Replacing an element and the slot of its position. -/
theorem Lays.set (h : Lays R n slots head m) (hlen : m.length ≤ n) {i : Nat} (hi : i < m.length)
    (hab : R a b) : Lays R n (Function.update slots ((head + i) % n) a) head (m.set i b) := by
  intro j c hc
  have hj : j < m.length := by
    have hset := (List.getElem?_eq_some_iff.mp hc).1
    rwa [List.length_set] at hset
  by_cases hij : i = j
  · subst hij
    rw [List.getElem?_set_self hi] at hc
    cases hc
    rw [Function.update_self]
    exact hab
  · rw [List.getElem?_set_ne hij] at hc
    have hne : (head + j) % n ≠ (head + i) % n := by
      rcases Nat.lt_or_gt_of_ne hij with hlt | hlt
      · exact (slot_ne hlt (by omega)).symm
      · exact slot_ne hlt (by omega)
    rw [Function.update_of_ne hne]
    exact h j c hc

/-- A slot may change as long as it represents the same element. -/
theorem Lays.update (h : Lays R n slots head m) (hlen : m.length ≤ n) {i : Nat} (hb : m[i]? = some b)
    (hab : R a b) : Lays R n (Function.update slots ((head + i) % n) a) head m := by
  obtain ⟨hi, hget⟩ := List.getElem?_eq_some_iff.mp hb
  have hset := h.set hlen hi hab
  rwa [← hget, List.set_getElem_self hi] at hset

/-- The first slot of a full ring becomes its last one. -/
theorem Lays.rotate (h : Lays R n slots head (b :: m)) (hlen : m.length + 1 = n) :
    Lays R n slots ((head + 1) % n) (m ++ [b]) := by
  intro i c hc
  rw [Nat.mod_add_mod, Nat.add_right_comm]
  by_cases hi : i < m.length
  · rw [List.getElem?_append_left hi] at hc
    exact h (i + 1) c hc
  · have hilen := (List.getElem?_eq_some_iff.mp hc).1
    rw [List.length_append, List.length_singleton] at hilen
    obtain rfl : i = m.length := by omega
    rw [List.getElem?_append_right (Nat.le_refl _), Nat.sub_self] at hc
    cases hc
    have hfirst := h 0 b rfl
    rw [Nat.add_assoc, hlen, Nat.add_mod_right]
    exact hfirst

end Lays

end Ring
