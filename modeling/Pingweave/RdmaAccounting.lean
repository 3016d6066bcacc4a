import Pingweave.RdmaPingOps

/-!
# Accounting for the results of the RDMA ping table

The invariant of the book over every run, and what it says about the results of each insert.
-/

namespace Pingweave
namespace RdmaPinginfoMap
open ExpiryTable
set_option autoImplicit false

/-- A life whose entry is still in the table. -/
structure Life.Open (l : Life) : Prop where
  missing : l.value.recv_bitmap ≠ PINGWEAVE_MASK_RECV
  quiet : l.results = []
  unexpired : l.expired = false

/-- A life whose entry is gone. -/
inductive Life.Closed (l : Life) : Prop
  | completed (unexpired : l.expired = false) (complete : l.value.recv_bitmap = PINGWEAVE_MASK_RECV)
      (sent : l.results = if l.value.recv_cnt = 3 then [l.value.report] else [])
  | expired (out : l.expired = true) (missing : l.value.recv_bitmap ≠ PINGWEAVE_MASK_RECV)
      (sent : l.results = l.value.expireReport.toList)

/-- An entry that has received nothing. -/
structure Fresh (v : RdmaPinginfo) : Prop where
  recv_cnt : v.recv_cnt = 0
  recv_bitmap : v.recv_bitmap = PINGWEAVE_MASK_INIT
  network_delay : v.network_delay = 0

/-- The invariant of the book. -/
structure Book.Ok (b : Book) : Prop where
  nextId : b.table.table.nextId = b.lives.length
  owned : ∀ p e, b.table.find p = some e →
    ∃ l, b.lives[e.listIter]? = some l ∧ l.pingid = p ∧ e.value = l.value
  fresh : ∀ l ∈ b.lives, Fresh l.first
  live : ∀ (i : Nat) (l : Life), b.lives[i]? = some l → (l.held b.table i).isSome → l.Open
  gone : ∀ (i : Nat) (l : Life), b.lives[i]? = some l → l.held b.table i = none → l.Closed

theorem Life.held_eq_some {t : RdmaPinginfoMap} {i : Nat} {l : Life} {e : Entry RdmaPinginfo} :
    l.held t i = some e ↔ t.find l.pingid = some e ∧ e.listIter = i := by
  simp only [Life.held, Option.filter_eq_some_iff, decide_eq_true_eq]

theorem Life.held_eq_none {t : RdmaPinginfoMap} {i : Nat} {l : Life} :
    l.held t i = none ↔ ∀ e, t.find l.pingid = some e → e.listIter ≠ i := by
  simp only [Life.held, Option.filter_eq_none_iff, decide_eq_true_eq]

namespace Book

theorem opened_spec {t : RdmaPinginfoMap} {op : Op} {l : Life} (h : l ∈ opened t op) :
    l.events = [] ∧ l.results = [] ∧ l.expired = false ∧ Fresh l.first := by
  cases op with
  | insert msg dstip now steady_now system_ns =>
    simp only [opened] at h
    split at h
    · rw [List.mem_singleton] at h
      subst h
      exact ⟨rfl, rfl, rfl, ⟨rfl, rfl, rfl⟩⟩
    · cases h
  | update key event => cases h
  | probe now => cases h

theorem open_of_mem_opened {t : RdmaPinginfoMap} {op : Op} {l : Life} (h : l ∈ opened t op) :
    l.Open ∧ l.value = l.first := by
  obtain ⟨hev, hres, hexp, hfresh⟩ := opened_spec h
  have hv : l.value = l.first := by rw [Life.value, hev]; rfl
  refine ⟨⟨?_, hres, hexp⟩, hv⟩
  rw [hv, hfresh.recv_bitmap]
  decide

/-- A life after a step was there before, or the step has just opened it. -/
theorem getElem?_step {b : Book} {op : Op} {i : Nat} {l' : Life}
    (h : (b.step op).lives[i]? = some l') :
    (∃ l, b.lives[i]? = some l ∧ l' = l.observe b.table op i) ∨
    (i = b.lives.length ∧ opened b.table op = [l']) := by
  have hlen : (opened b.table op).length ≤ 1 := by
    cases op with
    | insert msg dstip now steady_now system_ns => simp only [opened]; split <;> simp
    | update key event => exact Nat.zero_le 1
    | probe now => exact Nat.zero_le 1
  rw [step, List.getElem?_append] at h
  split at h
  · rw [List.getElem?_mapIdx, Option.map_eq_some_iff] at h
    obtain ⟨l, hl, rfl⟩ := h
    exact Or.inl ⟨l, hl, rfl⟩
  · rename_i hi
    rw [List.length_mapIdx] at hi h
    have hlt := (List.getElem?_eq_some_iff.mp h).1
    have hz : i - b.lives.length = 0 := by omega
    rw [hz] at h
    refine Or.inr ⟨by omega, ?_⟩
    obtain ⟨l, hl⟩ := List.length_eq_one_iff.mp (by omega : (opened b.table op).length = 1)
    rw [hl] at h ⊢
    exact congrArg (fun l => [l]) (Option.some.inj h)

/-- A step changes no life's first entry, and adds to its events at most its own. -/
theorem mem_step_cases {b : Book} {op : Op} {l' : Life} (h : l' ∈ (b.step op).lives) :
    (∃ l ∈ b.lives, l'.first = l.first ∧
      (l'.events = l.events ∨ l'.events = l.events ++ op.eventFor l.pingid)) ∨
    l' ∈ opened b.table op := by
  obtain ⟨i, hi⟩ := List.mem_iff_getElem?.mp h
  rcases getElem?_step hi with ⟨l, hl, rfl⟩ | ⟨-, hl⟩
  · refine Or.inl ⟨l, List.mem_of_getElem? hl, ?_⟩
    unfold Life.observe
    split
    · exact ⟨rfl, Or.inr rfl⟩
    · exact ⟨rfl, Or.inl rfl⟩
  · exact Or.inr (hl ▸ List.mem_singleton_self l')

theorem getElem?_step_opened {b : Book} {op : Op} {l : Life} (h : opened b.table op = [l]) :
    (b.step op).lives[b.lives.length]? = some l := by
  rw [step, h, List.getElem?_append_right (by simp), List.length_mapIdx, Nat.sub_self]
  rfl

theorem getElem?_step_observe {b : Book} (op : Op) {i : Nat} {l : Life}
    (h : b.lives[i]? = some l) : (b.step op).lives[i]? = some (l.observe b.table op i) := by
  have hi := (List.getElem?_eq_some_iff.mp h).1
  rw [step, List.getElem?_append_left (by rwa [List.length_mapIdx]), List.getElem?_mapIdx, h]
  rfl

end Book

theorem Life.observe_of_some {t : RdmaPinginfoMap} {op : Op} {i : Nat} {l : Life}
    {e : Entry RdmaPinginfo} (h : l.held t i = some e) :
    l.observe t op i =
      { l with
        events := l.events ++ op.eventFor l.pingid
        results := l.results ++ (t.apply op).enqueued.filter fun r => r.pingid = l.pingid
        expired := decide (l.pingid ∈ (op.expires t).map Prod.fst) } := by
  rw [Life.observe, h, Option.isSome_some, if_pos rfl]

theorem Life.observe_of_none {t : RdmaPinginfoMap} {op : Op} {i : Nat} {l : Life}
    (h : l.held t i = none) : l.observe t op i = l := by
  rw [Life.observe, h, Option.isSome_none, if_neg Bool.false_ne_true]

@[simp] theorem Life.observe_first (t : RdmaPinginfoMap) (op : Op) (i : Nat) (l : Life) :
    (l.observe t op i).first = l.first := by
  unfold Life.observe
  split <;> rfl

@[simp] theorem Life.observe_pingid (t : RdmaPinginfoMap) (op : Op) (i : Nat) (l : Life) :
    (l.observe t op i).pingid = l.pingid :=
  congrArg RdmaPinginfo.pingid (Life.observe_first t op i l)

namespace Book
namespace Ok
variable {b : Book}

theorem keyed (h : b.Ok) : b.table.Keyed := by
  intro p e he
  obtain ⟨l, -, hp, hv⟩ := h.owned p e he
  rw [hv, Life.value, received_pingid]
  exact hp

theorem missing_of_find (h : b.Ok) {p : UInt64} {e : Entry RdmaPinginfo}
    (he : b.table.find p = some e) : e.value.recv_bitmap ≠ PINGWEAVE_MASK_RECV := by
  obtain ⟨l, hl, hp, hv⟩ := h.owned p e he
  rw [hv]
  refine (h.live e.listIter l hl ?_).missing
  rw [Life.held_eq_some.mpr ⟨hp ▸ he, rfl⟩]
  rfl

theorem observe_cases (h : b.Ok) (op : Op) {i : Nat} {l : Life} (hl : b.lives[i]? = some l) :
    ((l.observe b.table op i).Open ∧ ∃ e, (b.table.apply op).table.find l.pingid = some e ∧
      e.listIter = i ∧ e.value = (l.observe b.table op i).value) ∨
    ((l.observe b.table op i).Closed ∧
      ∀ e, (b.table.apply op).table.find l.pingid = some e → e.listIter ≠ i) := by
  have hi := (List.getElem?_eq_some_iff.mp hl).1
  have hnew : ∀ e, b.table.New op l.pingid e → e.listIter ≠ i := by
    intro e hn hei
    have hid := hn.1
    rw [h.nextId] at hid
    omega
  cases hentry : l.held b.table i with
  | none =>
    rw [Life.observe_of_none hentry]
    refine Or.inr ⟨h.gone i l hl hentry, ?_⟩
    intro e he
    cases hf : b.table.find l.pingid with
    | none => exact hnew e ((apply_none h.keyed hf op).2 e he)
    | some d =>
      have hdi := Life.held_eq_none.mp hentry d hf
      rcases apply_some h.keyed hf (h.missing_of_find hf) op with ⟨-, -, -, after⟩ | ⟨-, -, -, after⟩ | ⟨-, -, -, after⟩
      · exact hnew e (after e he)
      · rw [after] at he
        cases he
        exact hdi
      · rw [after] at he
        cases he
  | some e =>
    have hopen := h.live i l hl (by rw [hentry]; rfl)
    obtain ⟨hf, hei⟩ := Life.held_eq_some.mp hentry
    have hv : e.value = l.value := by
      obtain ⟨m, hm, -, hmv⟩ := h.owned _ e hf
      rw [hei, hl] at hm
      cases hm
      exact hmv
    rw [Life.observe_of_some hentry]
    have hvalue : received e.value (op.eventFor l.pingid) =
        received l.first (l.events ++ op.eventFor l.pingid) := by
      rw [hv, Life.value, received, received, received, List.foldl_append]
    rcases apply_some h.keyed hf (hv ▸ hopen.missing) op with
      ⟨out, quiet, sent, after⟩ | ⟨stays, missing, sent, after⟩ | ⟨stays, complete, sent, after⟩
    · refine Or.inr ⟨.expired ?_ ?_ ?_, fun e' he' => hnew e' (after e' he')⟩
      · exact decide_eq_true out
      · rw [Life.value, ← hvalue, quiet]
        exact hv ▸ hopen.missing
      · rw [hopen.quiet, sent, Life.value, ← hvalue, quiet]
        rfl
    · refine Or.inl ⟨⟨?_, ?_, ?_⟩, _, after, hei, ?_⟩
      · rwa [Life.value, ← hvalue]
      · rw [hopen.quiet, sent]
        rfl
      · exact decide_eq_false stays
      · rw [Life.value, ← hvalue]
    · refine Or.inr ⟨.completed ?_ ?_ ?_, ?_⟩
      · exact decide_eq_false stays
      · rwa [Life.value, ← hvalue]
      · rw [hopen.quiet, sent, Life.value, ← hvalue]
        rfl
      · intro e' he'
        rw [after] at he'
        cases he'

theorem step (h : b.Ok) (op : Op) : (b.step op).Ok where
  nextId := by
    have hid := nextId_apply b.table op
    rw [h.nextId] at hid
    rw [Book.step, List.length_append, List.length_mapIdx]
    exact hid
  owned := by
    intro p e' he'
    have hnew : ∀ e, b.table.New op p e →
        ∃ l, (b.step op).lives[e.listIter]? = some l ∧ l.pingid = p ∧ e.value = l.value := by
      rintro e ⟨hid, l, hl, hlp, hv⟩
      refine ⟨l, ?_, hlp, ?_⟩
      · rw [hid, h.nextId]
        exact getElem?_step_opened hl
      · rw [hv, (open_of_mem_opened (hl ▸ List.mem_singleton_self l)).2]
    cases hf : b.table.find p with
    | none => exact hnew e' ((apply_none h.keyed hf op).2 e' he')
    | some e =>
      obtain ⟨l, hl, rfl, hv⟩ := h.owned p e hf
      refine (?_ : b.table.New op l.pingid e' ∨ _).elim (hnew e') fun hl' => hl'
      rcases h.observe_cases op hl with ⟨-, d, hd, hdi, hdv⟩ | ⟨-, hgone⟩
      · have hde : d = e' := Option.some.inj (hd.symm.trans he')
        subst hde
        rw [hdi]
        exact Or.inr ⟨_, getElem?_step_observe op hl, Life.observe_pingid _ _ _ _, hdv⟩
      · rcases apply_some h.keyed hf (h.missing_of_find hf) op with
          ⟨-, -, -, after⟩ | ⟨-, -, -, after⟩ | ⟨-, -, -, after⟩
        · exact Or.inl (after e' he')
        · exact (hgone _ after rfl).elim
        · cases after.symm.trans he'
  fresh := by
    intro l' hl'
    obtain ⟨i, hi⟩ := List.mem_iff_getElem?.mp hl'
    rcases getElem?_step hi with ⟨l, hl, rfl⟩ | ⟨-, hl⟩
    · rw [Life.observe_first]
      exact h.fresh l (List.mem_of_getElem? hl)
    · obtain ⟨-, -, -, hfirst⟩ := opened_spec (hl ▸ List.mem_singleton_self l')
      exact hfirst
  live := by
    intro i l' hl' hentry
    rcases getElem?_step hl' with ⟨l, hl, rfl⟩ | ⟨-, hl⟩
    · rcases h.observe_cases op hl with ⟨hopen, -⟩ | ⟨-, hgone⟩
      · exact hopen
      · obtain ⟨e, he⟩ := Option.isSome_iff_exists.mp hentry
        obtain ⟨hf, hei⟩ := Life.held_eq_some.mp he
        rw [Life.observe_pingid] at hf
        exact absurd hei (hgone e hf)
    · exact (open_of_mem_opened (hl ▸ List.mem_singleton_self l')).1
  gone := by
    intro i l' hl' hentry
    rcases getElem?_step hl' with ⟨l, hl, rfl⟩ | ⟨rfl, hl⟩
    · rcases h.observe_cases op hl with ⟨-, e, he, hei, -⟩ | ⟨hclosed, -⟩
      · have hnone := Life.held_eq_none.mp hentry e (by rwa [Life.observe_pingid])
        exact absurd hei hnone
      · exact hclosed
    · obtain ⟨e, he, hei⟩ := find_opened hl
      have hnone := Life.held_eq_none.mp hentry e he
      exact absurd (hei.trans h.nextId) hnone

theorem init (threshold_ms : Nat) : (Book.init threshold_ms).Ok where
  nextId := rfl
  owned := by
    intro p e he
    rw [Book.init, find_init] at he
    cases he
  fresh := by
    intro l hl
    cases hl
  live := by
    intro i l hl
    cases hl
  gone := by
    intro i l hl
    cases hl

end Ok

/-- The book after the operations of a run on an empty table. -/
def run (threshold_ms : Nat) (ops : List Op) : Book := Runs.run step (Book.init threshold_ms) ops

theorem run_ok (threshold_ms : Nat) (ops : List Op) : (run threshold_ms ops).Ok :=
  Runs.run_invariant (fun _ op h => h.step op) (Ok.init threshold_ms) ops

end Book

theorem sum_map_mapIdx_eq {α : Type} (l : List α) (f : α → Nat) (g : Nat → α → α)
    (h : ∀ (i : Nat) a, l[i]? = some a → f (g i a) = f a) :
    ((l.mapIdx g).map f).sum = (l.map f).sum := by
  induction l generalizing g with
  | nil => rfl
  | cons a l ih =>
    rw [List.mapIdx_cons, List.map_cons, List.map_cons, List.sum_cons, List.sum_cons, h 0 a rfl,
      ih (fun i => g (i + 1)) fun i => h (i + 1)]

theorem sum_map_mapIdx_add {α : Type} (l : List α) (f : α → Nat) (g : Nat → α → α) {k c : Nat}
    (hk : k < l.length)
    (h : ∀ (i : Nat) a, l[i]? = some a → f (g i a) = f a + if i = k then c else 0) :
    ((l.mapIdx g).map f).sum = (l.map f).sum + c := by
  induction l generalizing g k with
  | nil => cases hk
  | cons a l ih =>
    rw [List.mapIdx_cons, List.map_cons, List.map_cons, List.sum_cons, List.sum_cons, h 0 a rfl]
    cases k with
    | zero =>
      rw [sum_map_mapIdx_eq l f (fun i => g (i + 1)) fun i b hb => by simpa using h (i + 1) b hb,
        if_pos rfl]
      omega
    | succ k =>
      rw [ih (fun i => g (i + 1)) (Nat.lt_of_succ_lt_succ hk) fun i b hb => by
        simpa using h (i + 1) b hb]
      simp only [Nat.right_eq_add, Nat.add_one_ne_zero, if_false]
      omega

namespace Book
variable {b : Book}

/-- The results that the lives of the book account for. -/
def results (b : Book) : List RdmaResultMsg := b.lives.flatMap Life.results

theorem count_results (b : Book) (r : RdmaResultMsg) :
    b.results.count r = (b.lives.map fun l => l.results.count r).sum :=
  List.count_flatMap

theorem count_observe {t : RdmaPinginfoMap} {op : Op} {i : Nat} {l : Life} (r : RdmaResultMsg) :
    (l.observe t op i).results.count r = l.results.count r +
      if (l.held t i).isSome ∧ l.pingid = r.pingid then (t.apply op).enqueued.count r else 0 := by
  cases hentry : l.held t i with
  | none => simp [Life.observe_of_none hentry]
  | some e =>
    simp only [Life.observe_of_some hentry, List.count_append, Option.isSome_some, true_and]
    congr 1
    by_cases hp : l.pingid = r.pingid
    · rw [if_pos hp]
      exact List.count_filter (decide_eq_true hp.symm)
    · rw [if_neg hp]
      apply List.count_eq_zero.mpr
      intro hr
      exact hp (of_decide_eq_true (List.mem_filter.mp hr).2).symm

theorem count_step (h : b.Ok) (op : Op) (r : RdmaResultMsg) :
    (b.step op).results.count r = b.results.count r + (b.table.apply op).enqueued.count r := by
  have hopened : ((opened b.table op).map fun l => l.results.count r).sum = 0 := by
    cases op with
    | insert msg dstip now steady_now system_ns =>
      simp only [opened]
      split <;> rfl
    | update key event => rfl
    | probe now => rfl
  rw [count_results, count_results, step, List.map_append, List.sum_append, hopened, Nat.add_zero]
  cases hf : b.table.find r.pingid with
  | none =>
    have hzero : (b.table.apply op).enqueued.count r = 0 := by
      rw [List.count_eq_zero]
      intro hr
      have hnone := List.filter_eq_nil_iff.mp (apply_none h.keyed hf op).1 r hr
      exact hnone (decide_eq_true rfl)
    rw [hzero, Nat.add_zero]
    apply sum_map_mapIdx_eq
    intro i l _
    rw [count_observe, hzero, ite_self, Nat.add_zero]
  | some e =>
    obtain ⟨m, hm, hmp, -⟩ := h.owned _ e hf
    have hk := (List.getElem?_eq_some_iff.mp hm).1
    apply sum_map_mapIdx_add b.lives _ _ hk
    intro i l hl
    rw [count_observe]
    congr 1
    by_cases hi : i = e.listIter
    · subst hi
      rw [hm] at hl
      cases hl
      have hentry : m.held b.table e.listIter = some e :=
        Life.held_eq_some.mpr ⟨hmp ▸ hf, rfl⟩
      rw [if_pos ⟨by rw [hentry]; rfl, hmp⟩, if_pos rfl]
    · rw [if_neg hi, if_neg]
      rintro ⟨hsome, hlp⟩
      obtain ⟨d, hd⟩ := Option.isSome_iff_exists.mp hsome
      obtain ⟨hfd, hdi⟩ := Life.held_eq_some.mp hd
      rw [hlp, hf] at hfd
      cases hfd
      exact hi hdi.symm

/-- Every message sent out belongs to a life, and to one life only. -/
theorem enqueued_perm (threshold_ms : Nat) (ops : List Op) :
    (run threshold_ms ops).enqueued.Perm (run threshold_ms ops).results := by
  have hinv : ∀ b : Book, (b.Ok ∧ b.enqueued.Perm b.results) → ∀ op,
      (b.step op).Ok ∧ (b.step op).enqueued.Perm (b.step op).results := by
    rintro b ⟨h, hperm⟩ op
    refine ⟨h.step op, ?_⟩
    rw [List.perm_iff_count] at hperm ⊢
    intro r
    rw [count_step h op r, ← hperm r, step, List.count_append]
  exact (Runs.run_invariant (fun b op h => hinv b h op)
    ⟨Ok.init threshold_ms, List.Perm.refl _⟩ ops).2

end Book

section Kinds

/-- The bitmap of a list of kinds. -/
def bitmapOf (ks : List Kind) : Nat :=
  (if Kind.cqe ∈ ks then PINGWEAVE_MASK_RECV_PING_CQE else 0) |||
    (if Kind.pong ∈ ks then PINGWEAVE_MASK_RECV_PONG else 0) |||
    (if Kind.ack ∈ ks then PINGWEAVE_MASK_RECV_ACK else 0)

theorem mask_or_bitmapOf (k : Kind) (ks : List Kind) : k.mask ||| bitmapOf ks = bitmapOf (k :: ks) := by
  by_cases hc : Kind.cqe ∈ ks <;> by_cases hp : Kind.pong ∈ ks <;> by_cases ha : Kind.ack ∈ ks <;>
    cases k <;> simp [bitmapOf, Kind.mask, hc, hp, ha, PINGWEAVE_MASK_RECV_PING_CQE,
      PINGWEAVE_MASK_RECV_PONG, PINGWEAVE_MASK_RECV_ACK]

theorem bitmapOf_eq_recv (ks : List Kind) :
    bitmapOf ks = PINGWEAVE_MASK_RECV ↔ Kind.cqe ∈ ks ∧ Kind.pong ∈ ks ∧ Kind.ack ∈ ks := by
  by_cases hc : Kind.cqe ∈ ks <;> by_cases hp : Kind.pong ∈ ks <;> by_cases ha : Kind.ack ∈ ks <;>
    simp [bitmapOf, hc, hp, ha, PINGWEAVE_MASK_RECV, PINGWEAVE_MASK_RECV_PING_CQE,
      PINGWEAVE_MASK_RECV_PONG, PINGWEAVE_MASK_RECV_ACK]

theorem received_recv_bitmap (v : RdmaPinginfo) (events : List Event) :
    (received v events).recv_bitmap = v.recv_bitmap ||| bitmapOf (events.map Event.kind) := by
  induction events generalizing v with
  | nil => exact (Nat.or_zero _).symm
  | cons e events ih =>
    have hstep : received v (e :: events) = received (e.receive v) events := rfl
    rw [hstep, ih, receive_recv_bitmap, Nat.or_assoc, mask_or_bitmapOf, List.map_cons]

theorem received_recv_cnt (v : RdmaPinginfo) (events : List Event) :
    (received v events).recv_cnt = v.recv_cnt + UInt32.ofNat events.length := by
  induction events generalizing v with
  | nil => exact (UInt32.add_zero _).symm
  | cons e events ih =>
    have hstep : received v (e :: events) = received (e.receive v) events := rfl
    rw [hstep, ih, receive_recv_cnt, List.length_cons, UInt32.ofNat_add, UInt32.add_assoc,
      UInt32.add_comm 1]
    rfl

theorem length_kinds (ks : List Kind) :
    ks.length = ks.count .cqe + ks.count .pong + ks.count .ack := by
  induction ks with
  | nil => rfl
  | cons k ks ih =>
    rw [List.length_cons, ih]
    cases k <;> simp <;> omega

end Kinds

namespace Life
variable {l : Life}

/-- How often the life received an event of this kind. -/
def times (l : Life) (k : Kind) : Nat := (l.events.map Event.kind).count k

theorem events_length (l : Life) :
    l.events.length = l.times .cqe + l.times .pong + l.times .ack := by
  have hlen : (l.events.map Event.kind).length = l.events.length := List.length_map Event.kind
  rw [← hlen, length_kinds]
  rfl

theorem value_of_fresh (hfresh : Fresh l.first)
    (hlen : l.events.length < 2 ^ 32) :
    l.value.recv_cnt.toNat = l.events.length ∧
      (l.value.recv_bitmap = PINGWEAVE_MASK_RECV ↔
        0 < l.times .cqe ∧ 0 < l.times .pong ∧ 0 < l.times .ack) := by
  constructor
  · rw [value, received_recv_cnt, hfresh.recv_cnt, UInt32.zero_add, UInt32.toNat_ofNat_of_lt' hlen]
  · have hz : l.first.recv_bitmap = 0 := hfresh.recv_bitmap
    rw [value, received_recv_bitmap, hz, Nat.zero_or, bitmapOf_eq_recv]
    simp only [times, List.count_pos_iff]

theorem report_result (v : RdmaPinginfo) :
    v.report.result = if v.network_delay ≤ v.server_delay then .weird else .success := rfl

theorem expireReport_toList (v : RdmaPinginfo) :
    v.expireReport.toList = if v.recv_cnt ≥ 3 then [] else
      [⟨v.pingid, ip2uint v.dstip, v.time_ping_send, 0, 0, 0, .failure⟩] := by
  unfold RdmaPinginfo.expireReport
  split <;> rfl

/-- What the results of life `i` say about its events. -/
structure Accounted (t : RdmaPinginfoMap) (i : Nat) (l : Life) : Prop where
  once : l.results.length ≤ 1
  own : ∀ r ∈ l.results, r.pingid = l.pingid
  pending : ∀ e, l.held t i = some e →
    l.results = [] ∧ e.value.recv_bitmap ≠ PINGWEAVE_MASK_RECV
  success : (∃ r ∈ l.results, r.result = .success) ↔
    (∀ k, l.times k = 1) ∧ l.value.network_delay > l.value.server_delay
  weird : (∃ r ∈ l.results, r.result = .weird) ↔
    (∀ k, l.times k = 1) ∧ l.value.network_delay ≤ l.value.server_delay
  failure : (∃ r ∈ l.results, r.result = .failure) ↔ l.expired = true ∧ l.events.length < 3
  silent : l.held t i = none → l.results = [] → 3 ≤ l.events.length ∧ ∃ k, 2 ≤ l.times k

theorem value_pingid (l : Life) : l.value.pingid = l.pingid := received_pingid l.first l.events

theorem results_of_closed (hfresh : Fresh l.first)
    (hlen : l.events.length < 2 ^ 32) (h : l.Closed) :
    (l.expired = false ∧ (∀ k, 0 < l.times k) ∧
      l.results = if l.events.length = 3 then [l.value.report] else []) ∨
    (l.expired = true ∧ (∃ k, l.times k = 0) ∧
      l.results = if l.events.length < 3 then
        [⟨l.value.pingid, ip2uint l.value.dstip, l.value.time_ping_send, 0, 0, 0, .failure⟩]
        else []) := by
  obtain ⟨hcnt, hbm⟩ := value_of_fresh hfresh hlen
  rcases h with ⟨hexp, hcomplete, hres⟩ | ⟨hexp, hmissing, hres⟩
  · obtain ⟨hc, hp, ha⟩ := hbm.mp hcomplete
    have hiff : l.value.recv_cnt = 3 ↔ l.events.length = 3 := by
      rw [← UInt32.toNat_inj, hcnt]
      rfl
    refine Or.inl ⟨hexp, ?_, ?_⟩
    · intro k
      cases k <;> assumption
    · rw [hres, if_congr hiff rfl rfl]
  · have hiff : l.value.recv_cnt ≥ 3 ↔ ¬ l.events.length < 3 := by
      rw [ge_iff_le, UInt32.le_iff_toNat_le, hcnt, Nat.not_lt]
      rfl
    refine Or.inr ⟨hexp, ?_, ?_⟩
    · by_contra hall
      rw [not_exists] at hall
      exact hmissing (hbm.mpr ⟨Nat.pos_of_ne_zero (hall _), Nat.pos_of_ne_zero (hall _),
        Nat.pos_of_ne_zero (hall _)⟩)
    · rw [hres, expireReport_toList, if_congr hiff rfl rfl, ite_not]

/-- With all three kinds received, three events are one of each kind. -/
theorem each_once_iff (l : Life) :
    (∀ k, l.times k = 1) ↔ (∀ k, 0 < l.times k) ∧ l.events.length = 3 := by
  have hlen := l.events_length
  constructor
  · intro h
    rw [h, h, h] at hlen
    exact ⟨fun k => by rw [h k]; exact Nat.one_pos, hlen⟩
  · rintro ⟨hpos, h3⟩ k
    have hc := hpos .cqe
    have hp := hpos .pong
    have ha := hpos .ack
    cases k <;> omega

/-- Of three events or more one kind comes twice, unless each comes once. -/
theorem exists_twice {l : Life} (hlen : 3 ≤ l.events.length) (hnot : ¬ ∀ k, l.times k = 1) :
    ∃ k, 2 ≤ l.times k := by
  have hsum := l.events_length
  by_contra hno
  simp only [not_exists, Nat.not_le] at hno
  have hc := hno .cqe
  have hp := hno .pong
  have ha := hno .ack
  apply hnot
  intro k
  cases k <;> omega

theorem accounted_of_open {t : RdmaPinginfoMap} {i : Nat} {e : Entry RdmaPinginfo}
    (hfresh : Fresh l.first)
    (hlen : l.events.length < 2 ^ 32) (hentry : l.held t i = some e) (hv : e.value = l.value)
    (h : l.Open) : l.Accounted t i := by
  obtain ⟨-, hbm⟩ := value_of_fresh hfresh hlen
  have hnot : ¬ ∀ k, l.times k = 1 := by
    intro hall
    have hpos := ((each_once_iff l).mp hall).1
    exact h.missing (hbm.mpr ⟨hpos _, hpos _, hpos _⟩)
  refine ⟨?_, ?_, ?_, ?_, ?_, ?_, ?_⟩
  · simp [h.quiet]
  · simp [h.quiet]
  · intro d hd
    rw [hentry] at hd
    cases hd
    exact ⟨h.quiet, hv ▸ h.missing⟩
  · simp [h.quiet, hnot]
  · simp [h.quiet, hnot]
  · simp [h.quiet, h.unexpired]
  · intro hnone
    rw [hentry] at hnone
    cases hnone

theorem accounted_of_closed {t : RdmaPinginfoMap} {i : Nat}
    (hfresh : Fresh l.first)
    (hlen : l.events.length < 2 ^ 32) (hentry : l.held t i = none)
    (h : l.Closed) : l.Accounted t i := by
  have hsum := l.events_length
  have hpending : ∀ e, l.held t i = some e →
      l.results = [] ∧ e.value.recv_bitmap ≠ PINGWEAVE_MASK_RECV := by
    intro e he
    rw [hentry] at he
    cases he
  rcases results_of_closed hfresh hlen h with ⟨hexp, hpos, hres⟩ | ⟨hexp, ⟨k, hk⟩, hres⟩
  · by_cases h3 : l.events.length = 3
    · rw [if_pos h3] at hres
      have hall := (each_once_iff l).mpr ⟨hpos, h3⟩
      have hpid : l.value.report.pingid = l.pingid := l.value_pingid
      refine ⟨?_, ?_, hpending, ?_, ?_, ?_, ?_⟩
      · simp [hres]
      · simp [hres, hpid]
      · simp [hres, hall, report_result]
      · simp [hres, hall, report_result]
      · simp [hexp, hres, report_result]
        split <;> simp
      · simp [hres]
    · rw [if_neg h3] at hres
      have hnot : ¬ ∀ k, l.times k = 1 := fun hall => h3 ((each_once_iff l).mp hall).2
      have hc := hpos .cqe
      have hp := hpos .pong
      have ha := hpos .ack
      refine ⟨?_, ?_, hpending, ?_, ?_, ?_, ?_⟩
      · simp [hres]
      · simp [hres]
      · simp [hres, hnot]
      · simp [hres, hnot]
      · simp [hres, hexp]
      · intro _ _
        have hmany : 3 ≤ l.events.length := by omega
        exact ⟨hmany, exists_twice hmany hnot⟩
  · have hnot : ¬ ∀ k, l.times k = 1 := by
      intro hall
      rw [hall k] at hk
      cases hk
    by_cases h3 : l.events.length < 3
    · rw [if_pos h3] at hres
      refine ⟨?_, ?_, hpending, ?_, ?_, ?_, ?_⟩
      · simp [hres]
      · simp [hres, l.value_pingid]
      · simp [hres, hnot]
      · simp [hres, hnot]
      · simp [hres, hexp, h3]
      · simp [hres]
    · rw [if_neg h3] at hres
      refine ⟨?_, ?_, hpending, ?_, ?_, ?_, ?_⟩
      · simp [hres]
      · simp [hres]
      · simp [hres, hnot]
      · simp [hres, hnot]
      · simp [hres, h3]
      · intro _ _
        have hmany : 3 ≤ l.events.length := by omega
        exact ⟨hmany, exists_twice hmany hnot⟩

end Life

theorem Book.Ok.accounted {b : Book} (h : b.Ok) {i : Nat} {l : Life} (hl : b.lives[i]? = some l)
    (hlen : l.events.length < 2 ^ 32) : l.Accounted b.table i := by
  have hfresh := h.fresh l (List.mem_of_getElem? hl)
  cases hentry : l.held b.table i with
  | none => exact Life.accounted_of_closed hfresh hlen hentry (h.gone i l hl hentry)
  | some e =>
    obtain ⟨hf, hei⟩ := Life.held_eq_some.mp hentry
    obtain ⟨m, hm, -, hmv⟩ := h.owned _ e hf
    rw [hei, hl] at hm
    cases hm
    exact Life.accounted_of_open hfresh hlen hentry hmv (h.live i l hl (by rw [hentry]; rfl))

theorem Book.Ok.results_of_each_once {b : Book} (h : b.Ok) {i : Nat} {l : Life}
    (hl : b.lives[i]? = some l) (hall : ∀ k, l.times k = 1) : l.results = [l.value.report] := by
  have hfresh := h.fresh l (List.mem_of_getElem? hl)
  obtain ⟨hpos, h3⟩ := (Life.each_once_iff l).mp hall
  have hlen : l.events.length < 2 ^ 32 := by rw [h3]; decide
  cases hentry : l.held b.table i with
  | none =>
    rcases Life.results_of_closed hfresh hlen (h.gone i l hl hentry) with
      ⟨-, -, hres⟩ | ⟨-, ⟨k, hk⟩, -⟩
    · rwa [if_pos h3] at hres
    · rw [hall k] at hk
      cases hk
  | some e =>
    have hopen := h.live i l hl (by rw [hentry]; rfl)
    exact absurd ((Life.value_of_fresh hfresh hlen).2.mpr ⟨hpos _, hpos _, hpos _⟩) hopen.missing

section Origins

/-- The pingid that an operation inserts. -/
def Op.insertId : Op → Option UInt64
  | .insert msg _ _ _ _ => some msg.pingid
  | _ => none

end Origins

/-- Every result that leaves the table belongs to one successful insert, and each insert has the
results its events call for. -/
theorem result_accounting (threshold_ms : Nat) (ops : List Op)
    (hlen : ∀ l ∈ (Book.run threshold_ms ops).lives, l.events.length < 2 ^ 32) :
    (Book.run threshold_ms ops).enqueued.Perm
      ((Book.run threshold_ms ops).lives.flatMap Life.results) ∧
    ∀ (i : Nat) (l : Life), (Book.run threshold_ms ops).lives[i]? = some l →
      l.Accounted (Book.run threshold_ms ops).table i :=
  ⟨Book.enqueued_perm threshold_ms ops, fun _ l hl =>
    (Book.run_ok threshold_ms ops).accounted hl (hlen l (List.mem_of_getElem? hl))⟩

/-- A ping whose three events arrive in the usual order. -/
def completedOps : List Op :=
  [.insert ⟨4294967297, 17, default, 0, 0⟩ ['1', '0', '.', '0', '.', '0', '.', '2'] 0 0 5,
    .update 4294967297 (.cqe 20), .update 4294967297 (.pong 50 48), .update 4294967297 (.ack 9)]

theorem result_accounting_completed :
    (Book.run 1000 completedOps).enqueued.Perm
      ((Book.run 1000 completedOps).lives.flatMap Life.results) ∧
    ∀ (i : Nat) (l : Life), (Book.run 1000 completedOps).lives[i]? = some l →
      l.Accounted (Book.run 1000 completedOps).table i :=
  result_accounting 1000 completedOps (by decide +kernel)

end RdmaPinginfoMap
end Pingweave
