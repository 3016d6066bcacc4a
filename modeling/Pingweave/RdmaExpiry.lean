import Pingweave.PingTables
import Pingweave.RdmaAccounting

/-!
# Late answers in the RDMA ping table

Only an insert expires entries, so an event that comes after the threshold still completes its
ping unless another ping has been inserted in between. This follows the table along the clock,
with the time of the last expiry beside it.
-/

namespace Pingweave
namespace RdmaPinginfoMap
open ExpiryTable
set_option autoImplicit false

/-- The clock reading that the operation's expiry uses. -/
def Op.sweep : Op → Option TimePoint
  | .insert _ _ now _ _ => some now
  | .update _ _ => none
  | .probe now => some now

/-- The table with the time of its last operation and the reading of its last expiry. -/
structure Timed where
  book : Book
  clock : TimePoint
  swept : TimePoint

/-- An operation and the time at which it is done. -/
structure Act where
  time : TimePoint
  op : Op
  deriving DecidableEq, Repr

namespace Timed

def init : Timed := ⟨Book.init PINGWEAVE_TABLE_EXPIRY_TIME_RDMA_MS, 0, 0⟩

def step (s : Timed) (a : Act) : Timed where
  book := s.book.step a.op
  clock := a.time
  swept := a.op.sweep.getD s.swept

end Timed

def Chrono (s : Timed) (a : Act) : Prop :=
  (s.clock :: (a.op.clocks ++ [a.time])).Pairwise (· ≤ ·)

/-- The event brings `v` to its last state: all three kinds are there and nothing came twice. -/
def Completes (event : Event) (v : RdmaPinginfo) : Prop :=
  (event.receive v).recv_bitmap = PINGWEAVE_MASK_RECV ∧ (event.receive v).recv_cnt = 3

section Operations
variable {t : RdmaPinginfoMap}

/-- An entry after an operation was there before, with the same time stamp and not expired, or
the operation has just inserted it. -/
theorem find_apply_cases (hk : t.Keyed) (op : Op) {p : UInt64} {e' : Entry RdmaPinginfo}
    (h : (t.apply op).table.find p = some e') :
    (∃ e, t.find p = some e ∧ e'.listIter = e.listIter ∧ e'.timestamp = e.timestamp ∧
      ∀ now, op.sweep = some now → (t.expireEntries now).1.find p = some e) ∨
    (∃ msg dstip now steady_now system_ns, op = .insert msg dstip now steady_now system_ns ∧
      (t.expireEntries now).1.find msg.pingid = none ∧
      e' = ⟨newPinginfo msg dstip system_ns steady_now, steady_now, t.table.nextId⟩) := by
  have hkept : ∀ now, (t.expireEntries now).1.find p = some e' → t.find p = some e' :=
    fun now he => (t.find_expireEntries_or now p e').mpr (Or.inl he)
  cases op with
  | insert msg dstip now steady_now system_ns =>
    have hold : (t.expireEntries now).1.find p = some e' → ∃ e, t.find p = some e ∧
        e'.listIter = e.listIter ∧ e'.timestamp = e.timestamp ∧
        ∀ now', Op.sweep (.insert msg dstip now steady_now system_ns) = some now' →
          (t.expireEntries now').1.find p = some e := by
      intro he
      refine ⟨e', hkept now he, rfl, rfl, ?_⟩
      intro now' hnow
      cases hnow
      exact he
    cases hm : (t.expireEntries now).1.find msg.pingid with
    | some d =>
      simp only [apply, insert_some hm] at h
      exact Or.inl (hold h)
    | none =>
      simp only [apply, insert_none hm] at h
      by_cases hp : p = msg.pingid
      · subst hp
        have hfind := Table.find_emplace_self (t.expireEntries now).1.table msg.pingid
          (newPinginfo msg dstip system_ns steady_now) steady_now
        exact Or.inr ⟨msg, dstip, now, steady_now, system_ns, rfl, hm,
          (Option.some.inj (hfind.symm.trans h)).symm⟩
      · exact Or.inl (hold ((Table.find_emplace_ne _ _ _ hp).symm.trans h))
  | update key event =>
    rw [apply_update] at h
    have hpid := fun v => (receive_frame event v).1
    have hnone : ∀ e : Entry RdmaPinginfo, ∀ now, Op.sweep (.update key event) = some now →
        (t.expireEntries now).1.find p = some e := by
      intro e now hnow
      cases hnow
    refine Or.inl ?_
    by_cases hp : p = key
    · subst hp
      cases hf : t.find p with
      | none =>
        rw [updateEntry_none _ hf, hf] at h
        cases h
      | some e =>
        rcases updateEntry_cases event.receive hpid hk hf with ⟨-, hfind, -⟩ | ⟨-, hfind, -⟩
        · cases hfind.symm.trans h
          exact ⟨e, rfl, rfl, rfl, hnone e⟩
        · cases hfind.symm.trans h
    · rw [find_updateEntry_ne event.receive hpid hk hp] at h
      exact ⟨e', h, rfl, rfl, hnone e'⟩
  | probe now =>
    refine Or.inl ⟨e', hkept now h, rfl, rfl, ?_⟩
    intro now' hnow
    cases hnow
    exact h

/-- A message that is not a FAILURE comes from an event that completes its ping. -/
theorem completes_of_enqueued (hk : t.Keyed) {op : Op} {m : RdmaResultMsg}
    (hm : m ∈ (t.apply op).enqueued) (hres : m.result ≠ .failure) :
    ∃ key event e, op = .update key event ∧ t.find key = some e ∧ Completes event e.value ∧
      m = (event.receive e.value).report := by
  have hexpired : ∀ now, m ∉ (t.expireEntries now).2.2 := by
    intro now hmem
    obtain ⟨q, -, hq⟩ := List.mem_filterMap.mp hmem
    unfold RdmaPinginfo.expireReport at hq
    split at hq
    · cases hq
    · cases hq
      exact hres rfl
  cases op with
  | insert msg dstip now steady_now system_ns =>
    rw [enqueued_insert] at hm
    exact absurd hm (hexpired now)
  | probe now => exact absurd hm (hexpired now)
  | update key event =>
    rw [apply_update] at hm
    have hpid := fun v => (receive_frame event v).1
    cases hf : t.find key with
    | none =>
      rw [updateEntry_none _ hf] at hm
      cases hm
    | some e =>
      rcases updateEntry_cases event.receive hpid hk hf with ⟨-, -, hmsg⟩ | ⟨hb, -, hmsg⟩
      · rw [hmsg] at hm
        cases hm
      · rw [hmsg] at hm
        split at hm
        · rename_i hc
          exact ⟨key, event, e, rfl, hf, ⟨hb, hc⟩, List.mem_singleton.mp hm⟩
        · cases hm

end Operations

namespace Timed

/-- What holds along the clock: the entries are of the past, carry their insert times, and were
young at the last expiry. -/
structure Ok (s : Timed) : Prop where
  book : s.book.Ok
  threshold : s.book.table.threshold_ms = PINGWEAVE_TABLE_EXPIRY_TIME_RDMA_MS
  order : ∃ past, InOrder s.book.table.table past ∧ (past ++ [s.clock]).Pairwise (· ≤ ·)
  swept_le : s.swept ≤ s.clock
  inserted : ∀ key e l, s.book.table.find key = some e → s.book.lives[e.listIter]? = some l →
    l.first.client_delay = convertClockToNs e.timestamp
  young : ∀ key e, s.book.table.find key = some e →
    elapsedMs s.swept e.timestamp < PINGWEAVE_TABLE_EXPIRY_TIME_RDMA_MS

theorem init_ok : Timed.init.Ok where
  book := Book.Ok.init _
  threshold := rfl
  order := ⟨[], InOrder.empty, List.pairwise_singleton _ _⟩
  swept_le := Nat.le_refl 0
  inserted := by
    intro key e l he
    cases (find_init _ key).symm.trans he
  young := by
    intro key e he
    cases (find_init _ key).symm.trans he

namespace Ok
variable {s : Timed} {a : Act}

theorem order_step (h : s.Ok) (hclock : Chrono s a) :
    ∃ past, InOrder (s.step a).book.table.table past ∧
      (past ++ [(s.step a).clock]).Pairwise (· ≤ ·) := by
  obtain ⟨past, hin, hpast⟩ := h.order
  obtain ⟨hle, hrest⟩ := List.pairwise_cons.mp hclock
  have hall : (past ++ (a.op.clocks ++ [a.time])).Pairwise (· ≤ ·) := by
    obtain ⟨hsorted, -, hlast⟩ := List.pairwise_append.mp hpast
    refine List.pairwise_append.mpr ⟨hsorted, hrest, ?_⟩
    intro c hc d hd
    exact Nat.le_trans (hlast c hc s.clock List.mem_cons_self) (hle d hd)
  rw [← List.append_assoc] at hall
  exact ⟨past ++ a.op.clocks, inOrder_apply _ a.op past hin (List.pairwise_append.mp hall).1, hall⟩

theorem swept_le_step (h : s.Ok) (hclock : Chrono s a) : (s.step a).swept ≤ a.time := by
  obtain ⟨hle, hrest⟩ := List.pairwise_cons.mp hclock
  obtain ⟨-, -, hlast⟩ := List.pairwise_append.mp hrest
  have hold : s.swept ≤ a.time :=
    Nat.le_trans h.swept_le (hle a.time (List.mem_append_right _ List.mem_cons_self))
  have hnew : ∀ now ∈ a.op.clocks, now ≤ a.time := fun now hn => hlast now hn a.time List.mem_cons_self
  unfold Timed.step
  cases hop : a.op with
  | insert msg dstip now steady_now system_ns =>
    rw [hop] at hnew
    exact hnew now List.mem_cons_self
  | update key event => exact hold
  | probe now =>
    rw [hop] at hnew
    exact hnew now List.mem_cons_self

theorem inserted_step (h : s.Ok) (a : Act) {key : UInt64} {e' : Entry RdmaPinginfo} {l' : Life}
    (he' : (s.step a).book.table.find key = some e') (hl' : (s.step a).book.lives[e'.listIter]? = some l') :
    l'.first.client_delay = convertClockToNs e'.timestamp := by
  rcases find_apply_cases h.book.keyed a.op he' with
    ⟨e, he, hid, hts, -⟩ | ⟨msg, dstip, now, steady_now, system_ns, hop, hm, rfl⟩
  · obtain ⟨l, hl, -⟩ := h.book.owned key e he
    have hstep : (s.step a).book.lives[e.listIter]? = some (l.observe s.book.table a.op e.listIter) :=
      Book.getElem?_step_observe a.op hl
    rw [hid, hstep] at hl'
    cases hl'
    rw [Life.observe_first, hts]
    exact h.inserted key e l he hl
  · have hopened : Book.opened s.book.table a.op = [⟨newPinginfo msg dstip system_ns steady_now, [], [], false⟩] := by
      rw [hop]
      simp only [Book.opened, insert_none hm, if_true]
    have hstep := Book.getElem?_step_opened hopened
    rw [← h.book.nextId] at hstep
    cases hstep.symm.trans hl'
    rfl

theorem young_step (h : s.Ok) (hclock : Chrono s a) {key : UInt64} {e' : Entry RdmaPinginfo}
    (he' : (s.step a).book.table.find key = some e') :
    elapsedMs (s.step a).swept e'.timestamp < PINGWEAVE_TABLE_EXPIRY_TIME_RDMA_MS := by
  obtain ⟨past, hin, -⟩ := h.order
  rcases find_apply_cases h.book.keyed a.op he' with
    ⟨e, he, -, hts, hkept⟩ | ⟨msg, dstip, now, steady_now, system_ns, hop, -, rfl⟩
  · rw [hts]
    cases hsweep : a.op.sweep with
    | none =>
      have hswept : (s.step a).swept = s.swept := by rw [Timed.step, hsweep, Option.getD_none]
      rw [hswept]
      exact h.young key e he
    | some now =>
      have hswept : (s.step a).swept = now := by rw [Timed.step, hsweep, Option.getD_some]
      have hfresh := (hin.represented s.book.table.threshold_ms).expires now
      rw [hswept, ← h.threshold]
      exact ((hfresh.kept key e).mp (hkept now hsweep)).2
  · have hle : now ≤ steady_now := by
      have hrest := (List.pairwise_cons.mp hclock).2
      rw [hop] at hrest
      exact (List.pairwise_cons.mp hrest).1 steady_now List.mem_cons_self
    have hswept : (s.step a).swept = now := by rw [Timed.step, hop]; rfl
    rw [hswept, elapsedMs, Nat.sub_eq_zero_of_le hle]
    decide

theorem step (h : s.Ok) (hclock : Chrono s a) : (s.step a).Ok where
  book := h.book.step a.op
  threshold := (threshold_apply s.book.table a.op).trans h.threshold
  order := h.order_step hclock
  swept_le := h.swept_le_step hclock
  inserted := fun _ _ _ he hl => h.inserted_step a he hl
  young := fun _ _ he => h.young_step hclock he

theorem overdue_lt (h : s.Ok) (time : TimePoint) {key : UInt64} {e : Entry RdmaPinginfo}
    (he : s.book.table.find key = some e) :
    time - e.timestamp < PINGWEAVE_TABLE_EXPIRY_TIME_RDMA_MS * 1000000 + (time - s.swept) := by
  have hyoung : s.swept - e.timestamp < PINGWEAVE_TABLE_EXPIRY_TIME_RDMA_MS * 1000000 :=
    (Nat.div_lt_iff_lt_mul (by decide)).mp (h.young key e he)
  have hsplit : ∀ a b c : Nat, a - c ≤ (b - c) + (a - b) := by
    intro a b c
    omega
  calc time - e.timestamp ≤ (s.swept - e.timestamp) + (time - s.swept) := hsplit _ _ _
    _ < PINGWEAVE_TABLE_EXPIRY_TIME_RDMA_MS * 1000000 + (time - s.swept) :=
        Nat.add_lt_add_right hyoung _

end Ok
end Timed

/-- In every run a SUCCESS or WEIRD report is late by less than the time since the last expiry. -/
theorem answered_late_lt (acts : List Act) (hclock : Runs.Along Timed.step Chrono Timed.init acts) :
    Runs.Along Timed.step (fun s a => ∀ m ∈ (s.book.table.apply a.op).enqueued, m.result ≠ .failure →
      ∃ key event e, a.op = .update key event ∧ s.book.table.find key = some e ∧
        m = (event.receive e.value).report ∧
        a.time - e.timestamp < PINGWEAVE_TABLE_EXPIRY_TIME_RDMA_MS * 1000000 + (a.time - s.swept))
      Timed.init acts := by
  apply Runs.along_of_invariant (fun _ _ h hc => h.step hc) _ Timed.init_ok hclock
  intro s a h _ m hm hres
  obtain ⟨key, event, e, hop, he, -, hreport⟩ := completes_of_enqueued h.book.keyed hm hres
  exact ⟨key, event, e, hop, he, hreport, h.overdue_lt a.time he⟩

instance (s : Timed) (a : Act) : Decidable (Chrono s a) :=
  inferInstanceAs (Decidable ((s.clock :: (a.op.clocks ++ [a.time])).Pairwise (· ≤ ·)))

end RdmaPinginfoMap
end Pingweave
