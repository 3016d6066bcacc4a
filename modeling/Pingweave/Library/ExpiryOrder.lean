import Pingweave.Library.ExpiryTable

/-!
# Expiry tables whose list is in order

The key list and the map of a well-formed table list the same keys, and the list is in the order
of the time stamps. In such a table the expiry loop takes out exactly the stale entries.
-/

namespace ExpiryTable
namespace Table
set_option autoImplicit false

universe u v
variable {K : Type u} {V : Type v} [DecidableEq K]

structure Wf (t : Table K V) : Prop where
  keys : (t.keyList.map Node.key).Nodup
  ids : t.keyList.Pairwise fun m n => m.id < n.id
  fresh : ∀ n ∈ t.keyList, n.id < t.nextId
  nodes : ∀ n, n ∈ t.keyList ↔ ∃ e, t.find n.key = some e ∧ e.listIter = n.id
  sorted : t.keyList.Pairwise fun m n =>
    ∀ d e, t.find m.key = some d → t.find n.key = some e → d.timestamp ≤ e.timestamp

/-- Whether the expiry loop meets a key that the map does not have. -/
def LoopSkips (stale : Entry V → Bool) : List (Node K) → (Finmap fun _ : K => Entry V) → Prop
  | [], _ => False
  | n :: rest, m =>
    match m.lookup n.key with
    | none => True
    | some e => stale e = true ∧ LoopSkips stale rest (m.erase n.key)

theorem find_assign (t : Table K V) (key key' : K) (value : V) :
    (t.assign key value).find key' =
      (t.find key').map fun e => if key' = key then { e with value := value } else e := by
  by_cases hk : key' = key
  · subst hk
    cases hf : t.find key' with
    | none => simp [assign, hf]
    | some e => simp [find_assign_self hf]
  · rw [find_assign_ne t value hk]
    simp [hk]

@[simp] theorem keyList_assign (t : Table K V) (key : K) (value : V) :
    (t.assign key value).keyList = t.keyList := by
  unfold assign
  split <;> rfl

theorem find_remove (t : Table K V) (key key' : K) (e : Entry V) :
    (t.remove key).1.find key' = some e ↔ t.find key' = some e ∧ key' ≠ key := by
  by_cases hk : key' = key
  · subst hk
    simp
  · rw [find_remove_ne t hk]
    simp [hk]

/-- With every listed key in the map, the loop takes a front part of the list, up to the first
entry that is not stale. -/
theorem expireLoop_split (stale : Entry V → Bool) {l : List (Node K)} {m : Finmap fun _ : K => Entry V}
    (hkeys : (l.map Node.key).Nodup) (hin : ∀ n ∈ l, ∃ e, m.lookup n.key = some e) :
    (∃ gone, l = gone ++ (expireLoop stale l m).1 ∧
      (expireLoop stale l m).2.2.map Prod.fst = gone.map Node.key) ∧
    (∀ n ∈ (expireLoop stale l m).1.head?, ∃ e, m.lookup n.key = some e ∧ stale e = false) ∧
    ¬LoopSkips stale l m := by
  induction l generalizing m with
  | nil => exact ⟨⟨[], rfl, rfl⟩, fun n hn => absurd hn (by simp [expireLoop]), id⟩
  | cons n rest ih =>
    obtain ⟨e, he⟩ := hin n List.mem_cons_self
    rw [List.map_cons, List.nodup_cons] at hkeys
    have hne : ∀ n' ∈ rest, n'.key ≠ n.key := by
      intro n' hn' heq
      exact hkeys.1 (heq ▸ List.mem_map_of_mem hn')
    by_cases hs : stale e
    · obtain ⟨⟨gone, hl, hfst⟩, hhead, hskip⟩ := ih (m := m.erase n.key) hkeys.2 (by
        intro n' hn'
        obtain ⟨e', he'⟩ := hin n' (List.mem_cons_of_mem n hn')
        exact ⟨e', by rw [Finmap.lookup_erase_ne (hne n' hn')]; exact he'⟩)
      have hrest : ∀ n' ∈ (expireLoop stale rest (m.erase n.key)).1, n' ∈ rest := by
        intro n' hn'
        rw [hl]
        exact List.mem_append_right gone hn'
      simp only [expireLoop, he, hs, if_true, LoopSkips, true_and]
      refine ⟨⟨n :: gone, ?_, ?_⟩, ?_, hskip⟩
      · rw [List.cons_append, ← hl]
      · rw [List.map_cons, List.map_cons, hfst]
      · intro n' hn'
        obtain ⟨e', he', hs'⟩ := hhead n' hn'
        rw [Finmap.lookup_erase_ne (hne n' (hrest n' (List.mem_of_mem_head? hn')))] at he'
        exact ⟨e', he', hs'⟩
    · have hstale : stale e = false := Bool.not_eq_true _ ▸ hs
      simp only [expireLoop, he, hstale, Bool.false_eq_true, if_false, LoopSkips, false_and, not_false_eq_true,
        and_true]
      refine ⟨⟨[], rfl, rfl⟩, ?_⟩
      intro n' hn'
      cases hn'
      exact ⟨e, he, hstale⟩

theorem wf_empty : (empty : Table K V).Wf where
  keys := List.nodup_nil
  ids := List.Pairwise.nil
  fresh := fun n hn => absurd hn List.not_mem_nil
  nodes := by
    intro n
    simp [empty, find]
  sorted := List.Pairwise.nil

namespace Wf
variable {t : Table K V}

theorem exists_find (h : t.Wf) {n : Node K} (hn : n ∈ t.keyList) : ∃ e, t.find n.key = some e := by
  obtain ⟨e, he, -⟩ := (h.nodes n).mp hn
  exact ⟨e, he⟩

theorem node_mem (h : t.Wf) {key : K} {e : Entry V} (he : t.find key = some e) :
    ⟨e.listIter, key⟩ ∈ t.keyList :=
  (h.nodes ⟨e.listIter, key⟩).mpr ⟨e, he, rfl⟩

theorem mem_keys (h : t.Wf) (key : K) : key ∈ t.keyList.map Node.key ↔ (t.find key).isSome := by
  constructor
  · intro hkey
    obtain ⟨n, hn, rfl⟩ := List.mem_map.mp hkey
    obtain ⟨e, he⟩ := h.exists_find hn
    exact Option.isSome_of_eq_some he
  · intro hkey
    obtain ⟨e, he⟩ := Option.isSome_iff_exists.mp hkey
    exact List.mem_map_of_mem (h.node_mem he)

theorem id_inj (h : t.Wf) {m n : Node K} (hm : m ∈ t.keyList) (hn : n ∈ t.keyList)
    (heq : m.id = n.id) : m = n := by
  have hids : (t.keyList.map Node.id).Nodup :=
    List.pairwise_map.mpr (h.ids.imp fun hlt => Nat.ne_of_lt hlt)
  exact List.inj_on_of_nodup_map hids hm hn heq

theorem emplace (h : t.Wf) {key : K} (hnone : t.find key = none) (value : V) {now : Nat}
    (hlast : ∀ k e, t.find k = some e → e.timestamp ≤ now) : (t.emplace key value now).Wf where
  keys := by
    have hkey : key ∉ t.keyList.map Node.key := by
      rw [h.mem_keys, hnone]
      exact Bool.false_ne_true
    rw [Table.emplace, List.map_append, List.nodup_append]
    refine ⟨h.keys, List.nodup_singleton _, ?_⟩
    rintro a ha b hb rfl
    have hak : a = key := List.mem_singleton.mp hb
    exact hkey (hak ▸ ha)
  ids := by
    rw [Table.emplace, List.pairwise_append]
    refine ⟨h.ids, List.pairwise_singleton _ _, ?_⟩
    intro m hm n hn
    rw [List.mem_singleton.mp hn]
    exact h.fresh m hm
  fresh := by
    intro n hn
    rcases List.mem_append.mp hn with hold | hnew
    · exact Nat.lt_succ_of_lt (h.fresh n hold)
    · rw [List.mem_singleton.mp hnew]
      exact Nat.lt_succ_self _
  nodes := by
    intro n
    have hmem : n ∈ (t.emplace key value now).keyList ↔ n ∈ t.keyList ∨ n = ⟨t.nextId, key⟩ := by
      rw [Table.emplace, List.mem_append, List.mem_singleton]
    rw [hmem]
    by_cases hk : n.key = key
    · have hold : n ∉ t.keyList := by
        intro hn
        obtain ⟨e, he⟩ := h.exists_find hn
        rw [hk, hnone] at he
        cases he
      rw [hk, find_emplace_self]
      constructor
      · rintro (hn | rfl)
        · exact absurd hn hold
        · exact ⟨_, rfl, rfl⟩
      · rintro ⟨e, he, hid⟩
        cases he
        refine Or.inr ?_
        cases n
        exact congrArg₂ Node.mk hid.symm hk
    · rw [find_emplace_ne t value now hk, h.nodes]
      constructor
      · rintro (hn | rfl)
        · exact hn
        · exact absurd rfl hk
      · exact Or.inl
  sorted := by
    have hother : ∀ n ∈ t.keyList, n.key ≠ key := by
      intro n hn heq
      obtain ⟨e, he⟩ := h.exists_find hn
      rw [heq, hnone] at he
      cases he
    rw [Table.emplace, List.pairwise_append]
    refine ⟨?_, List.pairwise_singleton _ _, ?_⟩
    · refine h.sorted.imp_of_mem ?_
      intro m n hm hn hle d e hd he
      have hd' := (find_emplace_ne t value now (hother m hm)).symm.trans hd
      have he' := (find_emplace_ne t value now (hother n hn)).symm.trans he
      exact hle d e hd' he'
    · intro m hm n hn d e hd he
      rw [List.mem_singleton.mp hn] at he
      have hd' := (find_emplace_ne t value now (hother m hm)).symm.trans hd
      have he' := (find_emplace_self t key value now).symm.trans he
      cases he'
      exact hlast m.key d hd'

theorem assign (h : t.Wf) (key : K) (value : V) : (t.assign key value).Wf where
  keys := by
    rw [keyList_assign]
    exact h.keys
  ids := by
    rw [keyList_assign]
    exact h.ids
  fresh := by
    rw [keyList_assign, nextId_assign]
    exact h.fresh
  nodes := by
    intro n
    rw [keyList_assign, h.nodes, find_assign]
    constructor
    · rintro ⟨e, he, hid⟩
      refine ⟨_, by rw [he]; rfl, ?_⟩
      split <;> exact hid
    · rintro ⟨e, he, hid⟩
      obtain ⟨d, hd, rfl⟩ := Option.map_eq_some_iff.mp he
      refine ⟨d, hd, ?_⟩
      split at hid <;> exact hid
  sorted := by
    rw [keyList_assign]
    refine h.sorted.imp ?_
    intro m n hle d e hd he
    rw [find_assign] at hd he
    obtain ⟨d', hd', rfl⟩ := Option.map_eq_some_iff.mp hd
    obtain ⟨e', he', rfl⟩ := Option.map_eq_some_iff.mp he
    have hts := hle d' e' hd' he'
    split <;> split <;> exact hts

/-- Part of the list, with the entries of the nodes that are left. -/
theorem sublist (h : t.Wf) {t' : Table K V} (hnext : t'.nextId = t.nextId)
    (hlist : t'.keyList.Sublist t.keyList)
    (hfind : ∀ key e, t'.find key = some e ↔ t.find key = some e ∧ ⟨e.listIter, key⟩ ∈ t'.keyList) :
    t'.Wf where
  keys := h.keys.sublist (hlist.map Node.key)
  ids := h.ids.sublist hlist
  fresh := by
    intro n hn
    rw [hnext]
    exact h.fresh n (hlist.subset hn)
  nodes := by
    intro n
    constructor
    · intro hn
      obtain ⟨e, he, hid⟩ := (h.nodes n).mp (hlist.subset hn)
      refine ⟨e, (hfind n.key e).mpr ⟨he, ?_⟩, hid⟩
      rw [hid]
      exact hn
    · rintro ⟨e, he, hid⟩
      have hn := ((hfind n.key e).mp he).2
      rw [hid] at hn
      exact hn
  sorted := by
    refine (h.sorted.sublist hlist).imp ?_
    intro m n hle d e hd he
    exact hle d e ((hfind _ _).mp hd).1 ((hfind _ _).mp he).1

theorem remove (h : t.Wf) (key : K) : (t.remove key).1.Wf := by
  cases hf : t.find key with
  | none =>
    have hsame : (t.remove key).1 = t := by
      simp only [Table.remove, hf]
    rw [hsame]
    exact h
  | some e =>
    have hlist : (t.remove key).1.keyList = t.keyList.filter fun n => n.id ≠ e.listIter := by
      simp only [Table.remove, hf]
    refine h.sublist (nextId_remove t key) (hlist ▸ List.filter_sublist) ?_
    intro key' e'
    rw [find_remove, hlist]
    constructor
    · rintro ⟨he', hk⟩
      refine ⟨he', List.mem_filter.mpr ⟨h.node_mem he', decide_eq_true ?_⟩⟩
      intro hid
      exact hk (congrArg Node.key (h.id_inj (h.node_mem he') (h.node_mem hf) hid))
    · rintro ⟨he', hn⟩
      refine ⟨he', ?_⟩
      rintro rfl
      rw [hf] at he'
      cases he'
      exact of_decide_eq_true (List.mem_filter.mp hn).2 rfl

section Expire
variable (stale : Entry V → Bool)

theorem expire_split (h : t.Wf) :
    (∃ gone, t.keyList = gone ++ (t.expire stale).1.keyList ∧
      (t.expire stale).2.map Prod.fst = gone.map Node.key) ∧
    (∀ n ∈ (t.expire stale).1.keyList.head?, ∃ e, t.find n.key = some e ∧ stale e = false) ∧
    ¬LoopSkips stale t.keyList t.map :=
  expireLoop_split stale h.keys fun _ hn => h.exists_find hn

theorem find_expire (h : t.Wf) (key : K) (e : Entry V) :
    (t.expire stale).1.find key = some e ↔
      t.find key = some e ∧ ⟨e.listIter, key⟩ ∈ (t.expire stale).1.keyList := by
  obtain ⟨⟨gone, hlist, hfst⟩, -, -⟩ := h.expire_split stale
  constructor
  · intro he
    have hold := find_of_find_expire he
    refine ⟨hold, ?_⟩
    have hn := h.node_mem hold
    rw [hlist] at hn
    rcases List.mem_append.mp hn with hgone | hkept
    · have hmem : key ∈ (t.expire stale).2.map Prod.fst := hfst ▸ List.mem_map_of_mem hgone
      obtain ⟨⟨_, d⟩, hd, rfl⟩ := List.mem_map.mp hmem
      rw [find_expire_of_mem hd] at he
      cases he
    · exact hkept
  · rintro ⟨he, hn⟩
    rcases (find_expire_or stale t key e).mp he with hkept | hgone
    · exact hkept
    · have hmem : key ∈ gone.map Node.key := hfst ▸ List.mem_map_of_mem hgone
      obtain ⟨m, hm, hkey⟩ := List.mem_map.mp hmem
      have hkeys := h.keys
      rw [hlist, List.map_append, List.nodup_append] at hkeys
      exact absurd rfl (hkeys.2.2 key (hkey ▸ List.mem_map_of_mem hm) key (List.mem_map_of_mem hn))

theorem expire (h : t.Wf) : (t.expire stale).1.Wf := by
  obtain ⟨⟨gone, hlist, -⟩, -, -⟩ := h.expire_split stale
  exact h.sublist rfl (hlist ▸ List.sublist_append_right gone _) (h.find_expire stale)

theorem not_stale_of_find_expire (h : t.Wf)
    (hmono : ∀ d e : Entry V, d.timestamp ≤ e.timestamp → stale e = true → stale d = true) {key : K}
    {e : Entry V} (he : (t.expire stale).1.find key = some e) : stale e = false := by
  obtain ⟨⟨gone, hlist, -⟩, hhead, -⟩ := h.expire_split stale
  have hn := ((h.find_expire stale key e).mp he).2
  cases hkept : (t.expire stale).1.keyList with
  | nil =>
    rw [hkept] at hn
    cases hn
  | cons m rest =>
    obtain ⟨d, hd, hfirst⟩ := hhead m (by rw [hkept]; rfl)
    by_contra hstale
    have hle : d.timestamp ≤ e.timestamp := by
      rw [hkept] at hn
      rcases List.mem_cons.mp hn with heq | hrest
      · subst heq
        have hde : d = e := Option.some.inj (hd.symm.trans (find_of_find_expire he))
        exact Nat.le_of_eq (congrArg Entry.timestamp hde)
      · have hsorted := (h.expire stale).sorted
        rw [hkept, List.pairwise_cons] at hsorted
        have hd' : (t.expire stale).1.find m.key = some d := by
          have hm : m ∈ (t.expire stale).1.keyList := hkept ▸ List.mem_cons_self
          obtain ⟨d', hd'⟩ := (h.expire stale).exists_find hm
          rw [hd', ← find_of_find_expire hd']
          exact hd
        exact hsorted.1 _ hrest d e hd' he
    have hd' := hmono d e hle (by simpa using hstale)
    rw [hfirst] at hd'
    cases hd'

theorem mem_expired_iff (h : t.Wf)
    (hmono : ∀ d e : Entry V, d.timestamp ≤ e.timestamp → stale e = true → stale d = true) (key : K)
    (e : Entry V) : (key, e) ∈ (t.expire stale).2 ↔ t.find key = some e ∧ stale e = true := by
  constructor
  · intro hmem
    exact ⟨find_of_mem_expired hmem, stale_of_mem_expired hmem⟩
  · rintro ⟨he, hstale⟩
    rcases (find_expire_or stale t key e).mp he with hkept | hgone
    · rw [h.not_stale_of_find_expire stale hmono hkept] at hstale
      cases hstale
    · exact hgone

theorem find_expire_iff (h : t.Wf)
    (hmono : ∀ d e : Entry V, d.timestamp ≤ e.timestamp → stale e = true → stale d = true) (key : K)
    (e : Entry V) : (t.expire stale).1.find key = some e ↔ t.find key = some e ∧ stale e = false := by
  constructor
  · intro he
    exact ⟨find_of_find_expire he, h.not_stale_of_find_expire stale hmono he⟩
  · rintro ⟨he, hstale⟩
    rcases (find_expire_or stale t key e).mp he with hkept | hgone
    · exact hkept
    · rw [stale_of_mem_expired hgone] at hstale
      cases hstale

end Expire
end Wf
end Table
end ExpiryTable
