import Mathlib.Data.List.Infix

/-!
# A pattern in a list

What stands before the first occurrence of a pattern, and the replacement of every occurrence from
the left. A pattern whose first element stands nowhere else in it cannot begin before an end and go
beyond it, so behind a list without the pattern it is found where it was put.
-/

namespace Pattern
set_option autoImplicit false

universe u
variable {α : Type u} [DecidableEq α]

/-- `s.split(pattern)[0]` -/
def cut (pattern : List α) : List α → List α
  | [] => []
  | c :: s => if pattern.isPrefixOf (c :: s) then [] else c :: cut pattern s

/-- `replace` with a number of elements to leave out first. -/
def replaceFrom (pattern new : List α) : Nat → List α → List α
  | _, [] => []
  | n + 1, _ :: s => replaceFrom pattern new n s
  | 0, c :: s =>
    if pattern.isPrefixOf (c :: s) then new ++ replaceFrom pattern new (pattern.length - 1) s
    else c :: replaceFrom pattern new 0 s

/-- `s.replace(pattern, new)` -/
def replace (pattern new s : List α) : List α := replaceFrom pattern new 0 s

theorem replaceFrom_append (pattern new s t : List α) :
    replaceFrom pattern new s.length (s ++ t) = replaceFrom pattern new 0 t := by
  induction s with
  | nil => rfl
  | cons c s ih => exact ih

section Mark
variable {d : α} {rest : List α}

omit [DecidableEq α] in
theorem not_prefix_append {c : α} {s t : List α} (hd : d ∉ rest) (h : ¬ d :: rest <+: c :: s) :
    ¬ d :: rest <+: (c :: s) ++ (d :: rest ++ t) := by
  intro hp
  rcases Nat.le_total (d :: rest).length (c :: s).length with hle | hle
  · exact h (List.prefix_of_prefix_length_le hp (List.prefix_append _ _) hle)
  · obtain ⟨k, hk⟩ := List.prefix_of_prefix_length_le (List.prefix_append (c :: s) (d :: rest ++ t)) hp hle
    cases k with
    | nil =>
      rw [List.append_nil] at hk
      exact h (hk ▸ List.prefix_rfl)
    | cons e k =>
      -- the pattern begins anew inside itself
      rw [← hk, List.prefix_append_right_inj, hk] at hp
      have he : e = d := (List.cons_prefix_cons.mp hp).1
      have hmem : e ∈ rest := by
        have htail := congrArg List.tail hk
        rw [List.cons_append, List.tail_cons, List.tail_cons] at htail
        rw [← htail]
        exact List.mem_append_right s List.mem_cons_self
      exact hd (he ▸ hmem)

theorem cut_append {s : List α} (t : List α) (hd : d ∉ rest) (h : ¬ d :: rest <:+: s) :
    cut (d :: rest) (s ++ (d :: rest ++ t)) = s := by
  induction s with
  | nil =>
    rw [List.nil_append, List.cons_append, cut, if_pos]
    exact List.isPrefixOf_iff_prefix.mpr (List.prefix_append (d :: rest) t)
  | cons c s ih =>
    rw [List.infix_cons_iff, not_or] at h
    have hnot := not_prefix_append (t := t) hd h.1
    rw [List.cons_append] at hnot ⊢
    rw [cut, if_neg (fun hp => hnot (List.isPrefixOf_iff_prefix.mp hp)), ih h.2]

theorem replace_append {s : List α} (new : List α) (hd : d ∉ rest) (h : ¬ d :: rest <:+: s) :
    replace (d :: rest) new (s ++ (d :: rest)) = s ++ new := by
  unfold replace
  induction s with
  | nil =>
    have hend := replaceFrom_append (d :: rest) new rest []
    rw [List.append_nil] at hend
    rw [List.nil_append, replaceFrom, if_pos (List.isPrefixOf_iff_prefix.mpr List.prefix_rfl), List.length_cons,
      Nat.add_sub_cancel, hend, replaceFrom, List.append_nil, List.nil_append]
  | cons c s ih =>
    rw [List.infix_cons_iff, not_or] at h
    have hnot := not_prefix_append (t := []) hd h.1
    rw [List.append_nil, List.cons_append] at hnot
    rw [List.cons_append, replaceFrom, if_neg (fun hp => hnot (List.isPrefixOf_iff_prefix.mp hp)), ih h.2,
      List.cons_append]

end Mark

omit [DecidableEq α] in
/-- A pattern without `c` does not go across one. -/
theorem infix_append_cons {c : α} {pattern s t : List α} (hc : c ∉ pattern) :
    pattern <:+: s ++ c :: t ↔ pattern <:+: s ∨ pattern <:+: t := by
  constructor
  · intro h
    induction s with
    | nil =>
      rcases List.infix_cons_iff.mp h with hp | ht
      · cases pattern with
        | nil => exact .inl List.nil_infix
        | cons d rest => exact absurd ((List.cons_prefix_cons.mp hp).1 ▸ List.mem_cons_self) hc
      · exact .inr ht
    | cons d s ih =>
      rcases List.infix_cons_iff.mp h with hp | h
      · left
        rcases Nat.le_total pattern.length (d :: s).length with hle | hle
        · exact (List.prefix_of_prefix_length_le hp (List.prefix_append (d :: s) (c :: t)) hle).isInfix
        · obtain ⟨k, hk⟩ := List.prefix_of_prefix_length_le (List.prefix_append (d :: s) (c :: t)) hp hle
          have hp' : d :: s ++ k <+: d :: s ++ c :: t := hk.symm ▸ hp
          rw [List.prefix_append_right_inj] at hp'
          cases k with
          | nil =>
            rw [List.append_nil] at hk
            exact hk ▸ List.infix_rfl
          | cons e k =>
            have he : e = c := (List.cons_prefix_cons.mp hp').1
            have hmem : e ∈ pattern := hk ▸ List.mem_append_right (d :: s) List.mem_cons_self
            exact absurd (he ▸ hmem) hc
      · rcases ih h with hs | ht
        · exact .inl (hs.trans (List.infix_cons List.infix_rfl))
        · exact .inr ht
  · rintro (h | h)
    · exact h.trans (List.prefix_append s (c :: t)).isInfix
    · exact h.trans ((List.suffix_cons c t).trans (List.suffix_append s (c :: t))).isInfix

end Pattern
