import Pingweave.ReaderWriterQueueBlock

/-!
# The circle of blocks

How the contents of the queue lie in its blocks, and what each store does to them.
-/

namespace Pingweave
namespace ReaderWriterQueue
set_option autoImplicit false

universe u
variable {T : Type u}

/-- The contents `lay` of the blocks, from the front block once around the circle. The tail block
is `k` blocks after the front block, and `ahead` is what lies in the block after it. -/
structure Layout (e n : Nat) (block : Nat → Block T) (frontBlock tailBlock : Nat) (ahead : List T)
    (lay : List (List T)) (k : Nat) : Prop where
  length : lay.length = n
  lays : Ring.Lays (Block.Holds e) n block frontBlock lay
  front_lt : frontBlock < n
  tail_eq : tailBlock = (frontBlock + k) % n
  behind : k < n
  filled : ∀ i l, lay[i]? = some l → 0 < i → i < k → l.length + 1 = 2 ^ e
  visited : ∀ i l, lay[i]? = some l → 0 < i → i ≤ k → l ≠ []
  unused : ∀ i l, lay[i]? = some l → k < i → l = if i = k + 1 then ahead else []
  room : ahead ≠ [] → k + 1 < n

namespace Layout
variable {e n frontBlock tailBlock k : Nat} {block : Nat → Block T} {ahead l : List T}
  {lay : List (List T)} {b : Block T} {x : T}

theorem holds (h : Layout e n block frontBlock tailBlock ahead lay k) {i : Nat}
    (hl : lay[i]? = some l) : (block ((frontBlock + i) % n)).Holds e l :=
  h.lays i l hl

theorem get (h : Layout e n block frontBlock tailBlock ahead lay k) {i : Nat} (hi : i < n) :
    ∃ l, lay[i]? = some l ∧ (block ((frontBlock + i) % n)).Holds e l := by
  have hlt : i < lay.length := by rw [h.length]; exact hi
  exact ⟨lay[i], List.getElem?_eq_getElem hlt, h.lays i _ (List.getElem?_eq_getElem hlt)⟩

theorem front (h : Layout e n block frontBlock tailBlock ahead lay k) :
    ∃ l, lay[0]? = some l ∧ (block frontBlock).Holds e l := by
  obtain ⟨l, hl, hb⟩ := h.get (Nat.lt_of_le_of_lt (Nat.zero_le k) h.behind)
  rw [Nat.add_zero, Nat.mod_eq_of_lt h.front_lt] at hb
  exact ⟨l, hl, hb⟩

theorem tail (h : Layout e n block frontBlock tailBlock ahead lay k) :
    ∃ l, lay[k]? = some l ∧ (block tailBlock).Holds e l := by
  obtain ⟨l, hl, hb⟩ := h.get h.behind
  rw [← h.tail_eq] at hb
  exact ⟨l, hl, hb⟩

theorem next_tail (h : Layout e n block frontBlock tailBlock ahead lay k) :
    (tailBlock + 1) % n = (frontBlock + (k + 1)) % n := by
  rw [h.tail_eq, Nat.mod_add_mod, Nat.add_assoc]

/-- The block after the tail block, where there is one besides the front block. -/
theorem afterTail (h : Layout e n block frontBlock tailBlock ahead lay k) (hk : k + 1 < n) :
    lay[k + 1]? = some ahead ∧ (block ((tailBlock + 1) % n)).Holds e ahead := by
  obtain ⟨l, hl, hb⟩ := h.get hk
  have heq := h.unused (k + 1) l hl (Nat.lt_succ_self k)
  rw [if_pos rfl] at heq
  rw [← h.next_tail, heq] at hb
  exact ⟨heq ▸ hl, hb⟩

theorem next_tail_eq_front (h : Layout e n block frontBlock tailBlock ahead lay k) :
    (tailBlock + 1) % n = frontBlock ↔ k + 1 = n := by
  have hbehind := h.behind
  rw [h.next_tail]
  constructor
  · intro heq
    by_contra hne
    have hslot : (frontBlock + (k + 1)) % n = (frontBlock + 0) % n := by
      rw [heq, Nat.add_zero, Nat.mod_eq_of_lt h.front_lt]
    have := (Ring.slot_inj (by omega) (by omega)).mp hslot
    omega
  · intro heq
    rw [heq, Nat.add_mod_right, Nat.mod_eq_of_lt h.front_lt]

theorem front_eq_tail (h : Layout e n block frontBlock tailBlock ahead lay k) :
    frontBlock = tailBlock ↔ k = 0 := by
  have hbehind := h.behind
  rw [h.tail_eq]
  constructor
  · intro heq
    have hslot : (frontBlock + 0) % n = (frontBlock + k) % n := by
      rw [← heq, Nat.add_zero, Nat.mod_eq_of_lt h.front_lt]
    exact ((Ring.slot_inj (by omega) hbehind).mp hslot).symm
  · rintro rfl
    rw [Nat.add_zero, Nat.mod_eq_of_lt h.front_lt]

/-- A block may change as long as it holds the same. -/
theorem update (h : Layout e n block frontBlock tailBlock ahead lay k) {i : Nat}
    (hl : lay[i]? = some l) (hb : b.Holds e l) :
    Layout e n (Function.update block ((frontBlock + i) % n) b) frontBlock tailBlock ahead lay k :=
  { h with lays := h.lays.update (Nat.le_of_eq h.length) hl hb }

theorem updateFront (h : Layout e n block frontBlock tailBlock ahead lay k)
    (hl : lay[0]? = some l) (hb : b.Holds e l) :
    Layout e n (Function.update block frontBlock b) frontBlock tailBlock ahead lay k := by
  have hupdate := h.update hl hb
  rwa [Nat.add_zero, Nat.mod_eq_of_lt h.front_lt] at hupdate

theorem updateTail (h : Layout e n block frontBlock tailBlock ahead lay k)
    (hl : lay[k]? = some l) (hb : b.Holds e l) :
    Layout e n (Function.update block tailBlock b) frontBlock tailBlock ahead lay k := by
  have hupdate := h.update hl hb
  rwa [← h.tail_eq] at hupdate

theorem getElem?_set_of_ne {i j : Nat} {m : List T} (hij : i ≠ j) (hl : (lay.set i m)[j]? = some l) :
    lay[j]? = some l := by
  rwa [List.getElem?_set_ne hij] at hl

/-- The producer's element arrives in its block. -/
theorem push (h : Layout e n block frontBlock tailBlock ahead lay k) (hb : b.Holds e (l ++ [x])) :
    Layout e n (Function.update block tailBlock b) frontBlock tailBlock ahead
      (lay.set k (l ++ [x])) k where
  length := by rw [List.length_set, h.length]
  lays := by
    have hset := h.lays.set (Nat.le_of_eq h.length) (h.length ▸ h.behind) hb
    rwa [← h.tail_eq] at hset
  front_lt := h.front_lt
  tail_eq := h.tail_eq
  behind := h.behind
  filled := fun i m hm hi hik => h.filled i m (getElem?_set_of_ne (by omega) hm) hi hik
  visited := by
    intro i m hm hi hik
    by_cases heq : k = i
    · subst heq
      rw [List.getElem?_set_self (h.length ▸ h.behind)] at hm
      cases hm
      exact List.append_ne_nil_of_right_ne_nil l (List.cons_ne_nil x [])
    · exact h.visited i m (getElem?_set_of_ne heq hm) hi hik
  unused := fun i m hm hi => h.unused i m (getElem?_set_of_ne (by omega) hm) hi
  room := h.room

/-- The producer's element arrives in the next block. -/
theorem pushNext (h : Layout e n block frontBlock tailBlock [] lay k) (hk : k + 1 < n)
    (hb : b.Holds e [x]) :
    Layout e n (Function.update block ((tailBlock + 1) % n) b) frontBlock tailBlock [x]
      (lay.set (k + 1) [x]) k where
  length := by rw [List.length_set, h.length]
  lays := by
    have hset := h.lays.set (Nat.le_of_eq h.length) (h.length ▸ hk) hb
    rwa [← h.next_tail] at hset
  front_lt := h.front_lt
  tail_eq := h.tail_eq
  behind := h.behind
  filled := fun i m hm hi hik => h.filled i m (getElem?_set_of_ne (by omega) hm) hi hik
  visited := fun i m hm hi hik => h.visited i m (getElem?_set_of_ne (by omega) hm) hi hik
  unused := by
    intro i m hm hi
    by_cases heq : k + 1 = i
    · subst heq
      rw [List.getElem?_set_self (h.length ▸ hk)] at hm
      cases hm
      exact (if_pos rfl).symm
    · have hempty := h.unused i m (getElem?_set_of_ne heq hm) hi
      rw [if_neg (Ne.symm heq)] at hempty ⊢
      exact hempty
  room := fun _ => hk

/-- The producer moves on to the next block. -/
theorem advance (h : Layout e n block frontBlock tailBlock [x] lay k)
    (hfull : ∀ l, lay[k]? = some l → 0 < k → l.length + 1 = 2 ^ e) :
    Layout e n block frontBlock ((tailBlock + 1) % n) [] lay (k + 1) where
  length := h.length
  lays := h.lays
  front_lt := h.front_lt
  tail_eq := h.next_tail
  behind := h.room (List.cons_ne_nil x [])
  filled := by
    intro i m hm hi hik
    rcases Nat.lt_succ_iff_lt_or_eq.mp hik with hlt | rfl
    · exact h.filled i m hm hi hlt
    · exact hfull m hm hi
  visited := by
    intro i m hm hi hik
    rcases Nat.le_or_eq_of_le_succ hik with hle | rfl
    · exact h.visited i m hm hi hle
    · rw [h.unused (k + 1) m hm (Nat.lt_succ_self k), if_pos rfl]
      exact List.cons_ne_nil x []
  unused := by
    intro i m hm hi
    have hempty := h.unused i m hm (by omega)
    rw [if_neg (by omega)] at hempty
    rw [hempty, ite_self]
  room := fun hne => absurd rfl hne

/-- The consumer takes the first element of its block. -/
theorem pop (h : Layout e n block frontBlock tailBlock ahead lay k) (hb : b.Holds e l) :
    Layout e n (Function.update block frontBlock b) frontBlock tailBlock ahead (lay.set 0 l) k where
  length := by rw [List.length_set, h.length]
  lays := by
    have hpos : 0 < lay.length := h.length ▸ Nat.lt_of_le_of_lt (Nat.zero_le k) h.behind
    have hset := h.lays.set (Nat.le_of_eq h.length) hpos hb
    rwa [Nat.add_zero, Nat.mod_eq_of_lt h.front_lt] at hset
  front_lt := h.front_lt
  tail_eq := h.tail_eq
  behind := h.behind
  filled := fun i m hm hi hik => h.filled i m (getElem?_set_of_ne (by omega) hm) hi hik
  visited := fun i m hm hi hik => h.visited i m (getElem?_set_of_ne (by omega) hm) hi hik
  unused := fun i m hm hi => h.unused i m (getElem?_set_of_ne (by omega) hm) hi
  room := h.room

/-- The consumer leaves its empty block, which becomes the last one of the circle. -/
theorem rotate (h : Layout e n block frontBlock tailBlock ahead ([] :: lay) (k + 1)) :
    Layout e n block ((frontBlock + 1) % n) tailBlock ahead (lay ++ [[]]) k := by
  have hlen : lay.length + 1 = n := h.length
  have hbehind := h.behind
  have hold : ∀ i m, (lay ++ [[]])[i]? = some m →
      ([] :: lay : List (List T))[i + 1]? = some m ∨ i + 1 = n ∧ m = [] := by
    intro i m hm
    by_cases hi : i < lay.length
    · rw [List.getElem?_append_left hi] at hm
      exact Or.inl hm
    · have hilen := (List.getElem?_eq_some_iff.mp hm).1
      rw [List.length_append, List.length_singleton] at hilen
      obtain rfl : i = lay.length := by omega
      rw [List.getElem?_append_right (Nat.le_refl _), Nat.sub_self] at hm
      cases hm
      exact Or.inr ⟨hlen, rfl⟩
  refine ⟨by rw [List.length_append, List.length_singleton, hlen], h.lays.rotate hlen,
    Nat.mod_lt _ (by omega), ?_, by omega, ?_, ?_, ?_, ?_⟩
  · rw [h.tail_eq, Nat.mod_add_mod, Nat.add_assoc, Nat.add_comm 1 k]
  · intro i m hm hi hik
    rcases hold i m hm with hm' | ⟨hlast, -⟩
    · exact h.filled (i + 1) m hm' (Nat.succ_pos i) (by omega)
    · omega
  · intro i m hm hi hik
    rcases hold i m hm with hm' | ⟨hlast, -⟩
    · exact h.visited (i + 1) m hm' (Nat.succ_pos i) (by omega)
    · omega
  · intro i m hm hi
    rcases hold i m hm with hm' | ⟨hlast, rfl⟩
    · have hunused := h.unused (i + 1) m hm' (by omega)
      simpa only [Nat.add_right_cancel_iff] using hunused
    · split
      · by_contra hne
        have := h.room (Ne.symm hne)
        omega
      · rfl
  · intro hne
    have := h.room hne
    omega

end Layout

/-- The elements in the blocks from the front block to the tail block. -/
def contents (lay : List (List T)) (k : Nat) : List T := (lay.take (k + 1)).flatten

section Contents
variable {lay : List (List T)} {k : Nat} {l : List T} {x : T}

theorem contents_eq (hl : lay[k]? = some l) : contents lay k = (lay.take k).flatten ++ l := by
  rw [contents, List.take_add_one, hl, List.flatten_append]
  exact congrArg _ (List.append_nil l)

theorem contents_push (hl : lay[k]? = some l) :
    contents (lay.set k (l ++ [x])) k = contents lay k ++ [x] := by
  have hk := (List.getElem?_eq_some_iff.mp hl).1
  rw [contents_eq hl, contents_eq (List.getElem?_set_self hk), List.take_set_of_le (Nat.le_refl k),
    List.append_assoc]

theorem contents_pushNext : contents (lay.set (k + 1) l) k = contents lay k := by
  rw [contents, contents, List.take_set_of_le (Nat.le_refl _)]

theorem contents_advance (hl : lay[k + 1]? = some l) : contents lay (k + 1) = contents lay k ++ l :=
  contents_eq hl

theorem contents_pop : contents ((x :: l) :: lay) k = x :: contents (l :: lay) k := rfl

theorem contents_rotate (hk : k < lay.length) : contents ([] :: lay) (k + 1) = contents (lay ++ [[]]) k := by
  rw [contents, contents, List.take_succ_cons, List.flatten_cons, List.nil_append,
    List.take_append_of_le_length hk]

theorem le_length_flatten {c : Nat} {m : List (List T)} (h : ∀ l ∈ m, c ≤ l.length) :
    c * m.length ≤ m.flatten.length := by
  induction m with
  | nil => exact Nat.le_refl 0
  | cons l m ih =>
    have hl := h l List.mem_cons_self
    have hm := ih fun a ha => h a (List.mem_cons_of_mem l ha)
    rw [List.length_cons, List.flatten_cons, List.length_append, Nat.mul_succ]
    omega

/-- Elements that are pending while the tail block is full. -/
theorem le_length_contents {e n frontBlock tailBlock : Nat} {block : Nat → Block T} {ahead : List T}
    (h : Layout e n block frontBlock tailBlock ahead lay k)
    (hfull : ∀ l, lay[k]? = some l → l.length + 1 = 2 ^ e) :
    (2 ^ e - 1) * k ≤ (contents lay k).length ∧ 2 ^ e - 1 ≤ (contents lay k).length := by
  obtain ⟨l, hl, -⟩ := h.tail
  have hlen : l.length = 2 ^ e - 1 := by
    have := hfull l hl
    omega
  have hk : k < lay.length := h.length ▸ h.behind
  rw [contents_eq hl, List.length_append, hlen]
  refine ⟨?_, Nat.le_add_left _ _⟩
  cases k with
  | zero => exact Nat.zero_le _
  | succ k =>
    -- the front block may hold anything, the `k` blocks after it are full
    cases lay with
    | nil => exact absurd hk (Nat.not_lt_zero _)
    | cons first rest =>
      have hrest : ∀ m ∈ rest.take k, 2 ^ e - 1 ≤ m.length := by
        intro m hm
        obtain ⟨i, hi⟩ := List.mem_iff_getElem?.mp hm
        rw [List.getElem?_take] at hi
        split at hi
        · have := h.filled (i + 1) m hi (Nat.succ_pos i) (by omega)
          omega
        · cases hi
      have hsum := le_length_flatten hrest
      rw [List.length_take, List.length_cons] at *
      rw [Nat.min_eq_left (by omega)] at hsum
      rw [List.take_succ_cons, List.flatten_cons, List.length_append, Nat.mul_succ]
      omega

end Contents

end ReaderWriterQueue
end Pingweave
