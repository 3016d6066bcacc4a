import Mathlib.Logic.Function.Basic
import Mathlib.Order.Lattice
import Pingweave.Library.Runs

/-!
# Registers in which the greatest stamp wins

Every item belongs to a register and has a stamp. A register takes an item over if its stamp is
greater than the one it has. What the registers hold in the end depends on the set of the items
only, not on their order or on how often each comes.
-/

namespace LastWriter
set_option autoImplicit false

universe u v w
variable {Key : Type u} {Item : Type v} {Stamp : Type w} [LinearOrder Stamp]
variable (key : Item → Key) (stamp : Item → Stamp)

/-- The stamp of each register, and the item that it holds; `none` is its initial content. -/
abbrev Registers (Key : Type u) (Item : Type v) (Stamp : Type w) := Key → Stamp × Option Item

/-- What the register `k` holds that started with `first`, once the items of `S` have come. -/
inductive Latest (first : Stamp × Option Item) (S : Item → Prop) (k : Key) : Stamp × Option Item → Prop
  | kept (noneNewer : ∀ a, S a → key a = k → stamp a ≤ first.1) : Latest first S k first
  | taken (a : Item) (mem : S a) (ofKey : key a = k) (newer : first.1 < stamp a)
      (greatest : ∀ b, S b → key b = k → stamp b ≤ stamp a) : Latest first S k (stamp a, some a)

variable {key stamp}

/-- Items with stamps of their own leave one possible outcome. -/
theorem Latest.unique {first : Stamp × Option Item} {S : Item → Prop} {k : Key}
    (distinct : ∀ a b, S a → S b → key a = key b → stamp a = stamp b → a = b) {x y : Stamp × Option Item}
    (hx : Latest key stamp first S k x) (hy : Latest key stamp first S k y) : x = y := by
  cases hx with
  | kept noneNewer =>
    cases hy with
    | kept _ => rfl
    | taken b mem ofKey newer' greatest => exact absurd (noneNewer b mem ofKey) (not_le.mpr newer')
  | taken a mem ofKey newer greatest =>
    cases hy with
    | kept noneNewer => exact absurd (noneNewer a mem ofKey) (not_le.mpr newer)
    | taken b mem' ofKey' newer' greatest' =>
      have hab := le_antisymm (greatest' a mem ofKey) (greatest b mem' ofKey')
      rw [distinct a b mem mem' (ofKey.trans ofKey'.symm) hab]

variable (key stamp) [DecidableEq Key]

def write (r : Registers Key Item Stamp) (a : Item) : Registers Key Item Stamp :=
  if (r (key a)).1 < stamp a then Function.update r (key a) (stamp a, some a) else r

theorem write_of_ne {r : Registers Key Item Stamp} {a : Item} {k : Key} (h : key a ≠ k) :
    write key stamp r a k = r k := by
  unfold write
  split
  · exact Function.update_of_ne (Ne.symm h) _ _
  · rfl

theorem write_self (r : Registers Key Item Stamp) (a : Item) :
    write key stamp r a (key a) = if (r (key a)).1 < stamp a then (stamp a, some a) else r (key a) := by
  unfold write
  split
  · exact Function.update_self _ _ _
  · rfl

variable {key stamp}

theorem Latest.write {first : Stamp × Option Item} {S T : Item → Prop} {k : Key} {r : Registers Key Item Stamp}
    (h : Latest key stamp first S k (r k)) {a : Item} (hT : ∀ b, T b ↔ S b ∨ b = a) :
    Latest key stamp first T k (LastWriter.write key stamp r a k) := by
  have extend : ∀ {bound : Stamp}, (∀ b, S b → key b = k → stamp b ≤ bound) → (key a = k → stamp a ≤ bound) →
      ∀ b, T b → key b = k → stamp b ≤ bound := by
    intro bound hS ha b hb hbk
    rcases (hT b).mp hb with hold | rfl
    · exact hS b hold hbk
    · exact ha hbk
  by_cases hk : key a = k
  · subst hk
    rw [write_self]
    generalize hx : r (key a) = x at h
    cases h with
    | kept noneNewer =>
      split
      · rename_i hlt
        exact .taken a ((hT a).mpr (Or.inr rfl)) rfl hlt
          (extend (fun b hb hbk => le_trans (noneNewer b hb hbk) (le_of_lt hlt)) fun _ => le_refl _)
      · rename_i hnot
        exact .kept (extend noneNewer fun _ => not_lt.mp hnot)
    | taken c mem ofKey newer greatest =>
      split
      · rename_i hlt
        exact .taken a ((hT a).mpr (Or.inr rfl)) rfl (lt_trans newer hlt)
          (extend (fun b hb hbk => le_trans (greatest b hb hbk) (le_of_lt hlt)) fun _ => le_refl _)
      · rename_i hnot
        exact .taken c ((hT c).mpr (Or.inl mem)) ofKey newer (extend greatest fun _ => not_lt.mp hnot)
  · rw [write_of_ne key stamp hk]
    have hskip : ∀ {bound : Stamp}, key a = k → stamp a ≤ bound := fun heq => absurd heq hk
    generalize r k = x at h
    cases h with
    | kept noneNewer => exact .kept (extend noneNewer hskip)
    | taken c mem ofKey newer greatest =>
      exact .taken c ((hT c).mpr (Or.inl mem)) ofKey newer (extend greatest hskip)

theorem latest_run (r : Registers Key Item Stamp) (items : List Item) (k : Key) :
    Latest key stamp (r k) (fun a => a ∈ items) k (Runs.run (write key stamp) r items k) := by
  suffices h : ∀ (done : List Item) (s : Registers Key Item Stamp),
      Latest key stamp (r k) (fun a => a ∈ done) k (s k) →
      Latest key stamp (r k) (fun a => a ∈ done ++ items) k (Runs.run (write key stamp) s items k) by
    have hnone : Latest key stamp (r k) (fun a => a ∈ []) k (r k) := .kept fun a ha => absurd ha List.not_mem_nil
    exact h [] r hnone
  induction items with
  | nil =>
    intro done s hs
    rwa [List.append_nil]
  | cons a items ih =>
    intro done s hs
    have hmem : ∀ b, b ∈ done ++ [a] ↔ b ∈ done ∨ b = a := by
      intro b
      rw [List.mem_append, List.mem_singleton]
    have hstep := ih (done ++ [a]) (write key stamp s a) (hs.write hmem)
    rwa [List.append_assoc, List.singleton_append] at hstep

end LastWriter
