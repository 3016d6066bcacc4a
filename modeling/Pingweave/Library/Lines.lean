import Mathlib.Data.List.DropRight

/-!
# Lines of a text

`lines sep` splits a text at its separators the way a loop over its lines reads it: a last line
need not be terminated, and nothing follows the last separator. `trim p` takes away the blanks
at both ends, where `p` says what a blank is.
-/

namespace Lines
set_option autoImplicit false

universe u
variable {α : Type u}

section Split
variable [DecidableEq α] (sep : α)

def lines : List α → List (List α)
  | [] => []
  | c :: s =>
    if c = sep then [] :: lines s
    else
      match lines s with
      | [] => [[c]]
      | l :: ls => (c :: l) :: ls

/-- The text of some lines, each terminated. -/
def unlines (ls : List (List α)) : List α := ls.flatMap fun l => l ++ [sep]

variable {sep}

theorem lines_cons_of_ne {c : α} (h : c ≠ sep) {s l : List α} {ls : List (List α)}
    (hs : lines sep s = l :: ls) : lines sep (c :: s) = (c :: l) :: ls := by
  rw [lines, if_neg h, hs]

theorem lines_append_sep {l : List α} (h : sep ∉ l) (s : List α) :
    lines sep (l ++ sep :: s) = l :: lines sep s := by
  induction l with
  | nil => rw [List.nil_append, lines, if_pos rfl]
  | cons c l ih =>
    obtain ⟨hne, hrest⟩ := not_or.mp (mt List.mem_cons.mpr h)
    exact lines_cons_of_ne (Ne.symm hne) (ih hrest)

theorem lines_unlines {ls : List (List α)} (h : ∀ l ∈ ls, sep ∉ l) :
    lines sep (unlines sep ls) = ls := by
  induction ls with
  | nil => rfl
  | cons l ls ih =>
    obtain ⟨hl, hls⟩ := List.forall_mem_cons.mp h
    rw [unlines, List.flatMap_cons, List.append_assoc, List.singleton_append, lines_append_sep hl]
    exact congrArg (List.cons l) (ih hls)

variable (sep) in
/-- A separator at the end makes no difference, up to an empty last line. -/
theorem lines_append_singleton (s : List α) :
    lines sep (s ++ [sep]) = lines sep s ∨ lines sep (s ++ [sep]) = lines sep s ++ [[]] := by
  induction s with
  | nil => exact .inr (by simp [lines])
  | cons c s ih =>
    rw [List.cons_append, lines, lines]
    by_cases hc : c = sep
    · rw [if_pos hc, if_pos hc]
      exact ih.imp (congrArg _) (congrArg _)
    · rw [if_neg hc, if_neg hc]
      rcases ih with h | h
      · exact .inl (by rw [h])
      · rw [h]
        cases lines sep s with
        | nil => exact .inl rfl
        | cons l ls => exact .inr rfl

end Split

variable (p : α → Bool)

def trim (s : List α) : List α := (s.dropWhile p).rdropWhile p

/-- There is no blank at either end. -/
def Trimmed (s : List α) : Prop :=
  (∀ c ∈ s.head?, p c = false) ∧ ∀ c ∈ s.getLast?, p c = false

variable {p}

theorem trim_blank {s : List α} (h : ∀ c ∈ s, p c = true) : trim p s = [] := by
  rw [trim, List.dropWhile_eq_nil_iff.mpr h, List.rdropWhile_nil]

theorem dropWhile_of_trimmed {s : List α} (h : Trimmed p s) (hne : s ≠ []) (t : List α) :
    (s ++ t).dropWhile p = s ++ t := by
  cases s with
  | nil => exact absurd rfl hne
  | cons c s => exact List.dropWhile_cons_of_neg (by simp [h.1 c rfl])

theorem rdropWhile_of_trimmed {s t : List α} (h : Trimmed p s) (ht : ∀ c ∈ t, p c = true) :
    (s ++ t).rdropWhile p = s := by
  induction t using List.reverseRecOn with
  | nil =>
    rw [List.append_nil, List.rdropWhile_eq_self_iff]
    intro hne
    rw [h.2 _ (List.getLast?_eq_getLast_of_ne_nil hne)]
    exact Bool.false_ne_true
  | append_singleton t c ih =>
    rw [← List.append_assoc, List.rdropWhile_concat_pos _ _ _ (ht c (by simp))]
    exact ih fun d hd => ht d (List.mem_append_left _ hd)

theorem trim_append {s t : List α} (h : Trimmed p s) (ht : ∀ c ∈ t, p c = true) :
    trim p (s ++ t) = s := by
  by_cases hne : s = []
  · subst hne
    exact trim_blank ht
  · rw [trim, dropWhile_of_trimmed h hne, rdropWhile_of_trimmed h ht]

theorem trim_prepend {r : List α} (hr : ∀ c ∈ r, p c = true) (s : List α) :
    trim p (r ++ s) = trim p s := by
  rw [trim, List.dropWhile_append_of_pos hr, trim]

theorem trim_dropWhile (s : List α) : trim p (s.dropWhile p) = trim p s := by
  rw [trim, List.dropWhile_idempotent, trim]

/-! A character that is no blank stays, and only what is next to the ends goes. -/

theorem dropWhile_append_cons {c : α} (hc : p c = false) (s t : List α) :
    (s ++ c :: t).dropWhile p = s.dropWhile p ++ c :: t := by
  induction s with
  | nil => exact List.dropWhile_cons_of_neg (by simp [hc])
  | cons d s ih =>
    cases hd : p d with
    | true => rw [List.cons_append, List.dropWhile_cons_of_pos hd, List.dropWhile_cons_of_pos hd, ih]
    | false =>
      rw [List.cons_append, List.dropWhile_cons_of_neg (by simp [hd]),
        List.dropWhile_cons_of_neg (by simp [hd]), List.cons_append]

theorem rdropWhile_append_cons {c : α} (hc : p c = false) (s t : List α) :
    (s ++ c :: t).rdropWhile p = s ++ c :: t.rdropWhile p := by
  induction t using List.reverseRecOn with
  | nil => rw [List.rdropWhile_concat_neg _ _ _ (by simp [hc]), List.rdropWhile_nil]
  | append_singleton t d ih =>
    rw [← List.cons_append, ← List.append_assoc]
    cases hd : p d with
    | true => rw [List.rdropWhile_concat_pos _ _ _ hd, List.rdropWhile_concat_pos _ _ _ hd, ih]
    | false =>
      rw [List.rdropWhile_concat_neg _ _ _ (by simp [hd]),
        List.rdropWhile_concat_neg _ _ _ (by simp [hd]), List.append_assoc, List.cons_append]

theorem trim_append_cons {c : α} (hc : p c = false) (s t : List α) :
    trim p (s ++ c :: t) = s.dropWhile p ++ c :: t.rdropWhile p := by
  rw [trim, dropWhile_append_cons hc, rdropWhile_append_cons hc]

theorem trim_rdropWhile (s : List α) : trim p (s.rdropWhile p) = trim p s := by
  cases hrest : s.dropWhile p with
  | nil =>
    have hall := List.dropWhile_eq_nil_iff.mp hrest
    rw [trim_blank hall, List.rdropWhile_eq_nil_iff.mpr hall]
    rfl
  | cons c t =>
    -- the first character that is no blank
    have hc : p c = false := by
      have hhead := List.head_dropWhile_not p (l := s) (by rw [hrest]; exact List.cons_ne_nil c t)
      simpa only [hrest, List.head_cons] using hhead
    rw [← List.takeWhile_append_dropWhile (p := p) (l := s), hrest, rdropWhile_append_cons hc,
      trim_append_cons hc, trim_append_cons hc, List.rdropWhile_idempotent]

theorem trim_eq_self {s : List α} (h : Trimmed p s) : trim p s = s := by
  have htrim := trim_append h (t := []) fun c hc => absurd hc List.not_mem_nil
  rwa [List.append_nil] at htrim

end Lines
