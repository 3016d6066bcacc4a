import Mathlib.Data.List.AList

/-!
# Dictionaries that keep their order

An association list without a repeated key, as a dictionary that iterates over its entries in the
order in which they were added. A comprehension sets every key of a list to one value; `at2` and
`set2` reach into a dictionary of dictionaries.
-/

/-- A dictionary. -/
abbrev Dict (K V : Type*) := AList fun _ : K => V

namespace Dict
set_option autoImplicit false

universe u v w
variable {K : Type u} {L : Type v} {V W : Type w}

theorem keys_map_pair {α : Type*} (l : List α) (k : α → K) (v : α → V) :
    (l.map fun a => (⟨k a, v a⟩ : (_ : K) × V)).keys = l.map k := by
  rw [List.keys, List.map_map]
  rfl

variable [DecidableEq K] [DecidableEq L]

theorem nodup_eraseDups (l : List K) : l.eraseDups.Nodup := by
  induction hlength : l.length using Nat.strong_induction_on generalizing l with
  | _ n ih =>
    cases l with
    | nil => exact List.nodup_nil
    | cons a l =>
      rw [List.eraseDups_cons, List.nodup_cons]
      constructor
      · intro hmem
        have hkept := (List.mem_filter.mp (List.mem_eraseDups.mp hmem)).2
        simp at hkept
      · apply ih _ ?_ _ rfl
        rw [← hlength, List.length_cons]
        exact Nat.lt_succ_of_le (List.length_filter_le _ l)

def mapValues (f : V → W) (d : Dict K V) : Dict K W :=
  ⟨d.entries.map fun e => ⟨e.1, f e.2⟩, by
    rw [List.NodupKeys, keys_map_pair]
    exact d.nodupKeys⟩

/-- The dictionary that maps each of the keys to `v`. -/
def ofKeys (v : V) (ks : List K) : Dict K V :=
  ⟨ks.eraseDups.map fun k => ⟨k, v⟩, by
    rw [List.NodupKeys, keys_map_pair, List.map_id']
    exact nodup_eraseDups ks⟩

theorem mem_entries_iff {d : Dict K V} {k : K} {v : V} : ⟨k, v⟩ ∈ d.entries ↔ d.lookup k = some v :=
  AList.mem_lookup_iff.symm

theorem lookup_mapValues (f : V → W) (d : Dict K V) (k : K) : (mapValues f d).lookup k = (d.lookup k).map f :=
  List.dlookup_map₂ (γ := fun _ => V) (δ := fun _ => W) (f := fun _ => f) k

theorem lookup_ofKeys_eq_some {v v' : V} {ks : List K} {k : K} :
    (ofKeys v ks).lookup k = some v' ↔ k ∈ ks ∧ v' = v := by
  rw [← mem_entries_iff]
  constructor
  · intro hmem
    obtain ⟨k', hk', heq⟩ := List.mem_map.mp hmem
    cases heq
    exact ⟨List.mem_eraseDups.mp hk', rfl⟩
  · rintro ⟨hk, rfl⟩
    exact List.mem_map.mpr ⟨k, List.mem_eraseDups.mpr hk, rfl⟩

theorem dlookup_kreplace (l : List ((_ : K) × V)) (k k' : K) (v : V) :
    (l.kreplace k v).dlookup k' = if k' = k ∧ k ∈ l.keys then some v else l.dlookup k' := by
  induction l with
  | nil => simp [List.kreplace]
  | cons e l ih =>
    obtain ⟨a, b⟩ := e
    by_cases ha : k = a
    · subst ha
      have hhead : List.kreplace k v (⟨k, b⟩ :: l) = ⟨k, v⟩ :: l := List.lookmap_cons_some _ _ (if_pos rfl)
      rw [hhead]
      by_cases hk : k' = k
      · subst hk
        simp
      · rw [List.dlookup_cons_ne _ _ hk, List.dlookup_cons_ne _ _ hk, if_neg fun h => hk h.1]
    · have hhead : List.kreplace k v (⟨a, b⟩ :: l) = ⟨a, b⟩ :: List.kreplace k v l :=
        List.lookmap_cons_none _ _ (if_neg ha)
      rw [hhead]
      by_cases hk : k' = a
      · subst hk
        rw [List.dlookup_cons_eq, List.dlookup_cons_eq, if_neg fun h => ha h.1.symm]
      · rw [List.dlookup_cons_ne _ _ hk, List.dlookup_cons_ne _ _ hk, ih]
        simp [ha]

theorem lookup_replace (d : Dict K V) (k k' : K) (v : V) :
    (d.replace k v).lookup k' = if k' = k ∧ k ∈ d then some v else d.lookup k' :=
  (dlookup_kreplace d.entries k k' v).trans (if_congr Iff.rfl rfl rfl)

theorem kreplace_eq_map (k : K) (v : V) {l : List ((_ : K) × V)} (h : l.NodupKeys) :
    l.kreplace k v = l.map fun e => if e.1 = k then ⟨k, v⟩ else e := by
  induction l with
  | nil => rfl
  | cons e l ih =>
    obtain ⟨a, b⟩ := e
    have hrest : l.NodupKeys := (List.nodupKeys_cons.mp h).2
    by_cases ha : k = a
    · subst ha
      have hhead : List.kreplace k v (⟨k, b⟩ :: l) = ⟨k, v⟩ :: l := List.lookmap_cons_some _ _ (if_pos rfl)
      have hsame : (l.map fun e => if e.1 = k then (⟨k, v⟩ : (_ : K) × V) else e) = l := by
        refine (List.map_congr_left ?_).trans (List.map_id l)
        intro e he
        have hmem : e.1 ∈ l.keys := List.mem_map_of_mem he
        have hne : e.1 ≠ k := fun heq => (List.nodupKeys_cons.mp h).1 (heq ▸ hmem)
        rw [if_neg hne, id]
      rw [hhead, List.map_cons, if_pos rfl, hsame]
    · have hhead : List.kreplace k v (⟨a, b⟩ :: l) = ⟨a, b⟩ :: List.kreplace k v l :=
        List.lookmap_cons_none _ _ (if_neg ha)
      rw [hhead, ih hrest, List.map_cons, if_neg (Ne.symm ha)]

/-- `d[k] = v`; a new key comes last. -/
def assign (d : Dict K V) (k : K) (v : V) : Dict K V :=
  if h : k ∈ d then d.replace k v
  else
    ⟨d.entries ++ [⟨k, v⟩], by
      have hkeys : (d.entries ++ [(⟨k, v⟩ : (_ : K) × V)]).keys = d.entries.keys ++ [k] := List.map_append
      rw [List.NodupKeys, hkeys, List.nodup_append]
      refine ⟨d.nodupKeys, List.nodup_singleton k, ?_⟩
      intro a ha b hb hab
      rw [List.mem_singleton.mp hb] at hab
      exact h (hab ▸ ha)⟩

theorem entries_assign (d : Dict K V) (k : K) (v : V) : (d.assign k v).entries =
    if k ∈ d then d.entries.map (fun e => if e.1 = k then ⟨k, v⟩ else e) else d.entries ++ [⟨k, v⟩] := by
  unfold assign
  split
  · exact kreplace_eq_map k v d.nodupKeys
  · rfl

/-- The dictionary without the values that `p` rejects. -/
def filterValues (p : V → Bool) (d : Dict K V) : Dict K V :=
  ⟨d.entries.filter fun e => p e.2, d.nodupKeys.sublist List.filter_sublist⟩

theorem lookup_assign (d : Dict K V) (k k' : K) (v : V) :
    (d.assign k v).lookup k' = if k' = k then some v else d.lookup k' := by
  unfold assign
  split
  · rename_i hk
    rw [lookup_replace]
    exact if_congr (and_iff_left hk) rfl rfl
  · rename_i hk
    have hnone : d.entries.dlookup k = none := List.dlookup_eq_none.mpr hk
    refine (List.dlookup_append d.entries [⟨k, v⟩] k').trans ?_
    by_cases hkk : k' = k
    · rw [if_pos hkk, hkk, hnone, Option.none_or, List.dlookup_cons_eq]
    · rw [if_neg hkk, List.dlookup_cons_ne _ _ hkk, List.dlookup_nil, Option.or_none]
      rfl

theorem lookup_filterValues_eq_some {p : V → Bool} {d : Dict K V} {k : K} {v : V} :
    (d.filterValues p).lookup k = some v ↔ d.lookup k = some v ∧ p v = true := by
  rw [← mem_entries_iff, ← mem_entries_iff, filterValues, List.mem_filter]

/-! ### Dictionaries of dictionaries -/

def at2 (d : Dict K (Dict L V)) (k : K) (l : L) : Option V := (d.lookup k).bind fun inner => inner.lookup l

/-- `d[k][l] = v`, where both keys are there. -/
def set2 (d : Dict K (Dict L V)) (k : K) (l : L) (v : V) : Dict K (Dict L V) :=
  match d.lookup k with
  | none => d
  | some inner => d.replace k (inner.replace l v)

theorem mem_set2 (d : Dict K (Dict L V)) (k k' : K) (l : L) (v : V) : k' ∈ set2 d k l v ↔ k' ∈ d := by
  unfold set2
  split
  · exact Iff.rfl
  · exact AList.mem_replace

theorem at2_set2 {d : Dict K (Dict L V)} {k : K} {l : L} (h : (at2 d k l).isSome = true) (k' : K) (l' : L) (v : V) :
    at2 (set2 d k l v) k' l' = if k' = k ∧ l' = l then some v else at2 d k' l' := by
  unfold at2 at h
  cases hinner : d.lookup k with
  | none =>
    rw [hinner] at h
    cases h
  | some inner =>
    rw [hinner, Option.bind_some] at h
    have hk : k ∈ d := by
      rw [← AList.lookup_isSome, hinner]
      rfl
    have hl : l ∈ inner := AList.lookup_isSome.mp h
    unfold at2 set2
    rw [hinner, lookup_replace]
    by_cases hk' : k' = k
    · subst hk'
      rw [if_pos ⟨rfl, hk⟩, Option.bind_some, lookup_replace, hinner, Option.bind_some]
      by_cases hl' : l' = l
      · rw [if_pos ⟨hl', hl⟩, if_pos ⟨rfl, hl'⟩]
      · rw [if_neg fun h => hl' h.1, if_neg fun h => hl' h.2]
    · rw [if_neg fun h => hk' h.1, if_neg fun h => hk' h.1]

/-- `d[k][l] = v`, where what is missing is added. -/
def assign2 (d : Dict K (Dict L V)) (k : K) (l : L) (v : V) : Dict K (Dict L V) :=
  d.assign k (((d.lookup k).getD ∅).assign l v)

theorem at2_assign2 (d : Dict K (Dict L V)) (k k' : K) (l l' : L) (v : V) :
    at2 (assign2 d k l v) k' l' = if k' = k ∧ l' = l then some v else at2 d k' l' := by
  unfold at2 assign2
  rw [lookup_assign]
  by_cases hk : k' = k
  · subst hk
    rw [if_pos rfl, Option.bind_some, lookup_assign]
    by_cases hl : l' = l
    · rw [if_pos hl, if_pos ⟨rfl, hl⟩]
    · rw [if_neg hl, if_neg fun h => hl h.2]
      cases d.lookup k' with
      | none => rfl
      | some inner => rfl
  · rw [if_neg hk, if_neg fun h => hk h.1]

end Dict
