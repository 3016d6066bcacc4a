import Mathlib.Data.Finmap

/-!
# A keyed table that expires its oldest entries

A finite map together with the list of its keys in insertion order. An entry records when
it was inserted and the list node that carries its key, so it can also be taken out of the
middle of the list. Expiry pops stale entries off the front of the list and stops at the
first one that is not stale.
-/

namespace ExpiryTable
set_option autoImplicit false

universe u v
variable {K : Type u} {V : Type v}

/-- A node of the key list; an iterator to it is its `id`. -/
structure Node (K : Type u) where
  id : Nat
  key : K
  deriving DecidableEq, Repr

structure Entry (V : Type v) where
  value : V
  timestamp : Nat
  listIter : Nat
  deriving DecidableEq, Repr

structure Table (K : Type u) (V : Type v) where
  map : Finmap fun _ : K => Entry V
  keyList : List (Node K)
  nextId : Nat

namespace Table

def empty : Table K V := ⟨∅, [], 0⟩

variable [DecidableEq K]

def find (t : Table K V) (key : K) : Option (Entry V) := t.map.lookup key

/-- A new node at the end of the list, and the key mapped to a new entry. -/
def emplace (t : Table K V) (key : K) (value : V) (now : Nat) : Table K V where
  map := t.map.insert key ⟨value, now, t.nextId⟩
  keyList := t.keyList ++ [⟨t.nextId, key⟩]
  nextId := t.nextId + 1

/-- Overwrite the value of an existing entry in place. -/
def assign (t : Table K V) (key : K) (value : V) : Table K V :=
  match t.find key with
  | none => t
  | some e => { t with map := t.map.insert key { e with value := value } }

def remove (t : Table K V) (key : K) : Table K V × Bool :=
  match t.find key with
  | none => (t, false)
  | some e =>
    ({ t with
        map := t.map.erase key
        keyList := t.keyList.filter fun n => n.id ≠ e.listIter }, true)

/-- The expiry loop over the key list: the remaining list, the remaining map, and the entries
taken out with their keys. -/
def expireLoop (stale : Entry V → Bool) :
    List (Node K) → (Finmap fun _ : K => Entry V) →
      List (Node K) × (Finmap fun _ : K => Entry V) × List (K × Entry V)
  | [], m => ([], m, [])
  | n :: rest, m =>
    match m.lookup n.key with
    | none => expireLoop stale rest m
    | some e =>
      if stale e then
        let r := expireLoop stale rest (m.erase n.key)
        (r.1, r.2.1, (n.key, e) :: r.2.2)
      else (n :: rest, m, [])

def expire (stale : Entry V → Bool) (t : Table K V) : Table K V × List (K × Entry V) :=
  let r := expireLoop stale t.keyList t.map
  ({ t with map := r.2.1, keyList := r.1 }, r.2.2)

@[simp] theorem find_empty (key : K) : (empty : Table K V).find key = none := Finmap.lookup_empty key

@[simp] theorem find_emplace_self (t : Table K V) (key : K) (value : V) (now : Nat) :
    (t.emplace key value now).find key = some ⟨value, now, t.nextId⟩ :=
  Finmap.lookup_insert t.map

theorem find_emplace_ne (t : Table K V) {key key' : K} (value : V) (now : Nat) (h : key' ≠ key) :
    (t.emplace key value now).find key' = t.find key' :=
  Finmap.lookup_insert_of_ne t.map h

theorem find_assign_self {t : Table K V} {key : K} {e : Entry V} (h : t.find key = some e)
    (value : V) : (t.assign key value).find key = some { e with value := value } := by
  simp only [assign, h]
  exact Finmap.lookup_insert t.map

theorem find_assign_ne (t : Table K V) {key key' : K} (value : V) (h : key' ≠ key) :
    (t.assign key value).find key' = t.find key' := by
  unfold assign
  split
  · rfl
  · exact Finmap.lookup_insert_of_ne t.map h

@[simp] theorem nextId_assign (t : Table K V) (key : K) (value : V) :
    (t.assign key value).nextId = t.nextId := by
  unfold assign
  split <;> rfl

@[simp] theorem find_remove_self (t : Table K V) (key : K) : (t.remove key).1.find key = none := by
  unfold remove
  split
  · assumption
  · exact Finmap.lookup_erase key t.map

theorem find_remove_ne (t : Table K V) {key key' : K} (h : key' ≠ key) :
    (t.remove key).1.find key' = t.find key' := by
  unfold remove
  split
  · rfl
  · exact Finmap.lookup_erase_ne h

@[simp] theorem nextId_remove (t : Table K V) (key : K) : (t.remove key).1.nextId = t.nextId := by
  unfold remove
  split <;> rfl

section Loop
variable {stale : Entry V → Bool}

/-- The loop splits the entries into those it keeps and those it takes out. -/
theorem lookup_expireLoop (stale : Entry V → Bool) (l : List (Node K)) (m : Finmap fun _ : K => Entry V)
    (key : K) (e : Entry V) :
    m.lookup key = some e ↔
      (expireLoop stale l m).2.1.lookup key = some e ∨ (key, e) ∈ (expireLoop stale l m).2.2 := by
  induction l generalizing m with
  | nil => simp [expireLoop]
  | cons n rest ih =>
    cases hn : m.lookup n.key with
    | none => simpa only [expireLoop, hn] using ih m
    | some d =>
      by_cases hs : stale d
      · simp only [expireLoop, hn, hs, if_true, List.mem_cons, Prod.mk.injEq]
        by_cases hk : key = n.key
        · subst hk
          have hgone := (ih (m.erase n.key)).not.mp (by simp [Finmap.lookup_erase])
          rw [hn, Option.some.injEq]
          constructor
          · intro hde
            exact Or.inr (Or.inl ⟨rfl, hde.symm⟩)
          · rintro (h | h | h)
            · exact absurd (Or.inl h) hgone
            · exact h.2.symm
            · exact absurd (Or.inr h) hgone
        · rw [← Finmap.lookup_erase_ne hk, ih (m.erase n.key)]
          simp [hk]
      · simp [expireLoop, hn, hs]

theorem expireLoop_removed {l : List (Node K)} {m : Finmap fun _ : K => Entry V} {key : K} {e : Entry V}
    (h : (key, e) ∈ (expireLoop stale l m).2.2) :
    (expireLoop stale l m).2.1.lookup key = none ∧ stale e = true := by
  induction l generalizing m with
  | nil => simp [expireLoop] at h
  | cons n rest ih =>
    cases hn : m.lookup n.key with
    | none =>
      simp only [expireLoop, hn] at h ⊢
      exact ih h
    | some d =>
      by_cases hs : stale d
      · simp only [expireLoop, hn, hs, if_true, List.mem_cons, Prod.mk.injEq] at h ⊢
        rcases h with ⟨rfl, rfl⟩ | h
        · refine ⟨?_, hs⟩
          -- the map only shrinks, and the key has just been erased from it
          rw [Option.eq_none_iff_forall_ne_some]
          intro d hd
          have hm := (lookup_expireLoop stale rest (m.erase n.key) n.key d).mpr (Or.inl hd)
          simp [Finmap.lookup_erase] at hm
        · exact ih h
      · simp [expireLoop, hn, hs] at h

theorem expireLoop_nodup (l : List (Node K)) (m : Finmap fun _ : K => Entry V) :
    ((expireLoop stale l m).2.2.map Prod.fst).Nodup := by
  induction l generalizing m with
  | nil => simp [expireLoop]
  | cons n rest ih =>
    cases hn : m.lookup n.key with
    | none => simpa only [expireLoop, hn] using ih m
    | some d =>
      by_cases hs : stale d
      · simp only [expireLoop, hn, hs, if_true, List.map_cons, List.nodup_cons]
        refine ⟨?_, ih (m.erase n.key)⟩
        intro hmem
        obtain ⟨⟨_, e⟩, he, rfl⟩ := List.mem_map.mp hmem
        have hm := (lookup_expireLoop stale rest (m.erase n.key) n.key e).mpr (Or.inr he)
        simp [Finmap.lookup_erase] at hm
      · simp [expireLoop, hn, hs]

end Loop

variable {stale : Entry V → Bool}

theorem find_expire_or (stale : Entry V → Bool) (t : Table K V) (key : K) (e : Entry V) :
    t.find key = some e ↔ (t.expire stale).1.find key = some e ∨ (key, e) ∈ (t.expire stale).2 :=
  lookup_expireLoop stale t.keyList t.map key e

theorem find_of_find_expire {t : Table K V} {key : K} {e : Entry V}
    (h : (t.expire stale).1.find key = some e) : t.find key = some e :=
  (find_expire_or stale t key e).mpr (Or.inl h)

theorem find_of_mem_expired {t : Table K V} {key : K} {e : Entry V}
    (h : (key, e) ∈ (t.expire stale).2) : t.find key = some e :=
  (find_expire_or stale t key e).mpr (Or.inr h)

theorem find_expire_of_mem {t : Table K V} {key : K} {e : Entry V}
    (h : (key, e) ∈ (t.expire stale).2) : (t.expire stale).1.find key = none :=
  (expireLoop_removed h).1

theorem stale_of_mem_expired {t : Table K V} {key : K} {e : Entry V}
    (h : (key, e) ∈ (t.expire stale).2) : stale e = true :=
  (expireLoop_removed h).2

theorem expired_nodup (t : Table K V) : ((t.expire stale).2.map Prod.fst).Nodup :=
  expireLoop_nodup t.keyList t.map

end Table
end ExpiryTable
