import Mathlib.Data.Set.Lattice

/-!
# Loops that collect

Nested loops that add what they come across to a state, and that fail on a bad element. A body
`Collects` the set of the elements it visits; a sequence and a loop collect the union.
-/

namespace CollectLoop
set_option autoImplicit false

universe u v w
variable {σ : Type u} {α : Type v} {ι : Type w}

/-- What a state holds, what of the visited elements is to be added to it, and what fails. -/
structure Collector (σ : Type u) (α : Type v) where
  valid : σ → Prop
  content : σ → Set α
  wanted : Set α
  bad : Set α

structure Collects (c : Collector σ α) (body : σ → Option σ) (visits : Set α) : Prop where
  fails : (∃ x ∈ visits, x ∈ c.bad) → ∀ s, c.valid s → body s = none
  adds : (∀ x ∈ visits, x ∉ c.bad) → ∀ s, c.valid s →
    ∃ s', body s = some s' ∧ c.valid s' ∧ c.content s' = c.content s ∪ visits ∩ c.wanted

variable {c : Collector σ α}

theorem Collects.congr {body body' : σ → Option σ} {V W : Set α} (h : Collects c body V)
    (hbody : ∀ s, c.valid s → body' s = body s) (hvisits : V = W) : Collects c body' W := by
  subst hvisits
  constructor
  · intro hbad s hs
    rw [hbody s hs]
    exact h.fails hbad s hs
  · intro hgood s hs
    rw [hbody s hs]
    exact h.adds hgood s hs

theorem collects_skip : Collects c some ∅ := by
  constructor
  · rintro ⟨x, hx, -⟩
    cases hx
  · intro _ s hs
    refine ⟨s, rfl, hs, ?_⟩
    rw [Set.empty_inter, Set.union_empty]

theorem Collects.bind {f g : σ → Option σ} {V W : Set α} (hf : Collects c f V) (hg : Collects c g W) :
    Collects c (fun s => (f s).bind g) (V ∪ W) := by
  constructor
  · rintro ⟨x, hx, hbad⟩ s hs
    by_cases hV : ∃ y ∈ V, y ∈ c.bad
    · rw [hf.fails hV s hs]
      rfl
    · have hgood : ∀ y ∈ V, y ∉ c.bad := fun y hy hbad => hV ⟨y, hy, hbad⟩
      obtain ⟨s', hbody, hs', -⟩ := hf.adds hgood s hs
      rw [hbody]
      exact hg.fails ⟨x, hx.resolve_left fun h => hgood x h hbad, hbad⟩ s' hs'
  · intro hgood s hs
    obtain ⟨s', hfirst, hs', hcontent⟩ := hf.adds (fun x hx => hgood x (Or.inl hx)) s hs
    obtain ⟨s'', hsecond, hs'', hcontent'⟩ := hg.adds (fun x hx => hgood x (Or.inr hx)) s' hs'
    refine ⟨s'', ?_, hs'', ?_⟩
    · rw [hfirst]
      exact hsecond
    · rw [hcontent', hcontent, Set.union_assoc, ← Set.union_inter_distrib_right]

theorem collects_foldlM {f : σ → ι → Option σ} {V : ι → Set α} {l : List ι}
    (hbody : ∀ a ∈ l, Collects c (fun s => f s a) (V a)) :
    Collects c (fun s => l.foldlM f s) {x | ∃ a ∈ l, x ∈ V a} := by
  induction l with
  | nil =>
    have hempty : {x | ∃ a ∈ ([] : List ι), x ∈ V a} = ∅ := by
      ext x
      simp
    rw [hempty]
    exact collects_skip
  | cons a l ih =>
    have hunion : {x | ∃ b ∈ a :: l, x ∈ V b} = V a ∪ {x | ∃ b ∈ l, x ∈ V b} := by
      ext x
      simp
    rw [hunion]
    have hrest := ih fun b hb => hbody b (List.mem_cons_of_mem a hb)
    exact (hbody a List.mem_cons_self).bind hrest

/-- What a collecting body does from one state. -/
theorem Collects.isSome_iff {body : σ → Option σ} {V : Set α} (h : Collects c body V) {s : σ} (hs : c.valid s) :
    (body s).isSome = true ↔ ∀ x ∈ V, x ∉ c.bad := by
  constructor
  · intro hsome x hx hbad
    rw [h.fails ⟨x, hx, hbad⟩ s hs] at hsome
    cases hsome
  · intro hgood
    obtain ⟨s', hbody, -⟩ := h.adds hgood s hs
    rw [hbody]
    rfl

theorem Collects.content_eq {body : σ → Option σ} {V : Set α} (h : Collects c body V) {s s' : σ} (hs : c.valid s)
    (hbody : body s = some s') : c.content s' = c.content s ∪ V ∩ c.wanted := by
  have hgood : ∀ x ∈ V, x ∉ c.bad := by
    rw [← h.isSome_iff hs, hbody]
    rfl
  obtain ⟨t, ht, -, hcontent⟩ := h.adds hgood s hs
  rw [hbody] at ht
  rw [Option.some.inj ht, hcontent]

end CollectLoop
