import Pingweave.RdmaReports

/-!
# The time stamps of a report

`ts_start` and `ts_end` of a destination are the send times of the first and the last message that a
result thread has taken since the last report. These are the oldest and the newest ping only if the
messages come in that order; a failure comes when its ping expires, after successes of later pings.
-/

namespace Pingweave
open ExpiryTable
set_option autoImplicit false

/-- `ts_start` and `ts_end` after a message sent at `t`, where a start of 0 is not set yet. -/
def stampSpan (span : UInt64 × UInt64) (t : UInt64) : UInt64 × UInt64 := (if span.1 = 0 then t else span.1, t)

/-- `start` is the least and `stop` the greatest of the times. -/
structure Spans (times : List UInt64) (span : UInt64 × UInt64) : Prop where
  start_mem : span.1 ∈ times
  start_le : ∀ t ∈ times, span.1 ≤ t
  stop_mem : span.2 ∈ times
  le_stop : ∀ t ∈ times, t ≤ span.2

theorem Spans.start_le_stop {times : List UInt64} {span : UInt64 × UInt64} (h : Spans times span) :
    span.1 ≤ span.2 :=
  h.start_le span.2 h.stop_mem

/-- The first time is the oldest and the last the newest; a first time of 0 is no time. -/
def OldestToNewest (times : List UInt64) : Prop :=
  ∀ first ∈ times.head?, ∀ last ∈ times.getLast?,
    (∀ t ∈ times, first ≤ t ∧ t ≤ last) ∧ (first = 0 → ∀ t ∈ times, t = 0)

section Span

theorem foldl_stampSpan_of_ne {start : UInt64} (h : start ≠ 0) (stop : UInt64) (times : List UInt64) :
    (times.foldl stampSpan (start, stop)).1 = start := by
  induction times generalizing stop with
  | nil => rfl
  | cons t times ih =>
    rw [List.foldl_cons, stampSpan, if_neg h]
    exact ih t

theorem foldl_stampSpan_zero {times : List UInt64} {stop : UInt64} :
    (times.foldl stampSpan (0, stop)).1 = 0 ↔ ∀ t ∈ times, t = 0 := by
  induction times generalizing stop with
  | nil => exact ⟨fun _ t ht => absurd ht List.not_mem_nil, fun _ => rfl⟩
  | cons t times ih =>
    rw [List.foldl_cons, stampSpan, if_pos rfl, List.forall_mem_cons]
    by_cases ht : t = 0
    · rw [ht, ih]
      exact (and_iff_right rfl).symm
    · rw [foldl_stampSpan_of_ne ht]
      exact ⟨fun h => absurd h ht, fun h => absurd h.1 ht⟩

theorem foldl_stampSpan_snd (span : UInt64 × UInt64) (times : List UInt64) (t : UInt64) :
    ((times ++ [t]).foldl stampSpan span).2 = t := by
  rw [List.foldl_append, List.foldl_cons, List.foldl_nil, stampSpan]

/-- The stamps are right exactly if the times come in order. -/
theorem spans_iff {times : List UInt64} (hne : times ≠ []) :
    Spans times (times.foldl stampSpan (0, 0)) ↔ OldestToNewest times := by
  obtain ⟨first, rest, rfl⟩ := List.exists_cons_of_ne_nil hne
  obtain ⟨front, last, hlast⟩ := (List.eq_nil_or_concat' (first :: rest)).resolve_left hne
  have hstop : ((first :: rest).foldl stampSpan (0, 0)).2 = last := by
    rw [hlast]
    exact foldl_stampSpan_snd _ front last
  have hlast? : (first :: rest).getLast? = some last := by rw [hlast, List.getLast?_concat]
  have hmem : last ∈ first :: rest := hlast ▸ List.mem_append_right front List.mem_cons_self
  have hstart : first ≠ 0 → ((first :: rest).foldl stampSpan (0, 0)).1 = first := by
    intro hfirst
    rw [List.foldl_cons, stampSpan, if_pos rfl]
    exact foldl_stampSpan_of_ne hfirst _ rest
  have hzero : ((first :: rest).foldl stampSpan (0, 0)).1 = 0 ↔ ∀ t ∈ first :: rest, t = 0 := foldl_stampSpan_zero
  constructor
  · rintro ⟨-, hle, -, hge⟩ first' hfirst' last' hlast'
    obtain rfl : first = first' := Option.some.inj hfirst'
    obtain rfl : last = last' := Option.some.inj (hlast?.symm.trans hlast')
    rw [hstop] at hge
    by_cases hfirst : first = 0
    · have hall : ∀ t ∈ first :: rest, t = 0 := by
        apply hzero.mp
        have hnone := hle first List.mem_cons_self
        rw [hfirst] at hnone ⊢
        exact UInt64.le_antisymm hnone UInt64.zero_le
      exact ⟨fun t ht => ⟨hfirst ▸ UInt64.zero_le, hge t ht⟩, fun _ => hall⟩
    · rw [hstart hfirst] at hle
      exact ⟨fun t ht => ⟨hle t ht, hge t ht⟩, fun h => absurd h hfirst⟩
  · intro hordered
    obtain ⟨hbounds, hnone⟩ := hordered first rfl last hlast?
    have hfirst_eq : ((first :: rest).foldl stampSpan (0, 0)).1 = first := by
      by_cases hfirst : first = 0
      · rw [hzero.mpr (hnone hfirst), hfirst]
      · exact hstart hfirst
    exact ⟨hfirst_eq.symm ▸ List.mem_cons_self, fun t ht => hfirst_eq.symm ▸ (hbounds t ht).1,
      hstop.symm ▸ hmem, fun t ht => hstop.symm ▸ (hbounds t ht).2⟩

end Span

/-! ### The histories of a result thread -/

/-- The parts of a client's result thread that the stamps depend on. -/
structure ResultKind (Msg Info : Type) where
  dstip : Msg → UInt32
  time_ping_send : Msg → UInt64
  record : Info → Msg → Info
  fresh : Info
  span : Info → UInt64 × UInt64
  span_fresh : span fresh = (0, 0)
  span_record : ∀ info m, span (record info m) = stampSpan (span info) (time_ping_send m)

namespace ResultKind
variable {Msg Info : Type} (kind : ResultKind Msg Info)

def recordIn (history : Finmap fun _ : UInt32 => Info) (m : Msg) : Finmap fun _ : UInt32 => Info :=
  history.insert (kind.dstip m) (kind.record ((history.lookup (kind.dstip m)).getD kind.fresh) m)

/-- The send times of the messages for a destination, in the order in which they were taken. -/
def sendTimes (window : List Msg) (dst : UInt32) : List UInt64 :=
  (window.filter fun m => kind.dstip m = dst).map kind.time_ping_send

/-- A destination has a history exactly if the window has messages for it, and is stamped with them. -/
def Stamped (history : Finmap fun _ : UInt32 => Info) (window : List Msg) : Prop :=
  ∀ dst, (history.lookup dst).map kind.span =
    if kind.sendTimes window dst = [] then none else some ((kind.sendTimes window dst).foldl stampSpan (0, 0))

variable {kind}

theorem stamped_nil : kind.Stamped ∅ [] := by
  intro dst
  rw [Finmap.lookup_empty]
  rfl

theorem Stamped.record {history : Finmap fun _ : UInt32 => Info} {window : List Msg} (h : kind.Stamped history window)
    (m : Msg) : kind.Stamped (kind.recordIn history m) (window ++ [m]) := by
  intro dst
  have hd := h dst
  by_cases hm : kind.dstip m = dst
  · have htimes : kind.sendTimes (window ++ [m]) dst = kind.sendTimes window dst ++ [kind.time_ping_send m] := by
      simp [sendTimes, hm]
    have hspan : kind.span ((history.lookup dst).getD kind.fresh) =
        (kind.sendTimes window dst).foldl stampSpan (0, 0) := by
      cases hlook : history.lookup dst with
      | none =>
        rw [hlook] at hd
        have hnil : kind.sendTimes window dst = [] := by
          by_contra hne
          rw [if_neg hne] at hd
          cases hd
        rw [Option.getD_none, kind.span_fresh, hnil]
        rfl
      | some info =>
        rw [hlook] at hd
        split at hd
        · cases hd
        · exact Option.some.inj hd
    rw [recordIn, hm, Finmap.lookup_insert, Option.map_some, kind.span_record, hspan, htimes, if_neg (by simp),
      List.foldl_append]
    rfl
  · have htimes : kind.sendTimes (window ++ [m]) dst = kind.sendTimes window dst := by
      simp [sendTimes, hm]
    rw [recordIn, Finmap.lookup_insert_of_ne _ (Ne.symm hm), htimes]
    exact hd

/-- The stamps of a reported destination are right exactly if its messages were taken in order. -/
theorem Stamped.spans_iff {history : Finmap fun _ : UInt32 => Info} {window : List Msg} (h : kind.Stamped history window)
    {dst : UInt32} {info : Info} (hinfo : history.lookup dst = some info) :
    kind.sendTimes window dst ≠ [] ∧
      (Spans (kind.sendTimes window dst) (kind.span info) ↔ OldestToNewest (kind.sendTimes window dst)) := by
  have hd := h dst
  rw [hinfo] at hd
  split at hd
  · cases hd
  · rename_i hne
    rw [Option.some.inj hd]
    exact ⟨hne, Pingweave.spans_iff hne⟩

end ResultKind

def rdmaResults : ResultKind RdmaResultMsg RdmaResultInfo where
  dstip := RdmaResultMsg.dstip
  time_ping_send := RdmaResultMsg.time_ping_send
  record := RdmaResultInfo.record
  fresh := {}
  span info := (info.ts_start, info.ts_end)
  span_fresh := rfl
  span_record := by
    intro info m
    unfold RdmaResultInfo.record
    cases m.result <;> rfl

def tcpUdpResults : ResultKind TcpUdpResultMsg TcpUdpResultInfo where
  dstip := TcpUdpResultMsg.dstip
  time_ping_send := TcpUdpResultMsg.time_ping_send
  record := TcpUdpResultInfo.record
  fresh := {}
  span info := (info.ts_start, info.ts_end)
  span_fresh := rfl
  span_record := by
    intro info m
    unfold TcpUdpResultInfo.record
    cases m.result <;> rfl

/-! ### The reports of the clients -/

namespace RdmaResultThread

structure Stamped (s : RdmaResultThread) : Prop where
  window : rdmaResults.Stamped s.dstip2result s.window
  reports : ∀ r ∈ s.reports, rdmaResults.Stamped r.history r.window

theorem Stamped.dequeue {s : RdmaResultThread} (h : s.Stamped) : s.dequeue.Stamped := by
  unfold RdmaResultThread.dequeue
  split
  · exact h
  · exact ⟨h.window.record _, h.reports⟩

theorem Stamped.checkReport {s : RdmaResultThread} (h : s.Stamped) (report_interval_ms : Int) (now : TimePoint) :
    (s.checkReport report_interval_ms now).Stamped := by
  unfold RdmaResultThread.checkReport
  split
  · exact ⟨ResultKind.stamped_nil, List.forall_mem_append.mpr ⟨h.reports, List.forall_mem_singleton.mpr h.window⟩⟩
  · exact h

theorem Stamped.step {s : RdmaResultThread} (h : s.Stamped) (cfg : RdmaClientConfig) (report_interval_ms : Int)
    (a : Action) : (RdmaResultThread.step cfg report_interval_ms s a).Stamped := by
  cases a with
  | client a => exact ⟨h.window, h.reports⟩
  | turn dequeues now =>
    cases dequeues with
    | true => exact h.dequeue.checkReport report_interval_ms now
    | false => exact h.checkReport report_interval_ms now

theorem run_stamped (cfg : RdmaClientConfig) (report_interval_ms : Int) (start : TimePoint) (as : List Action) :
    (run cfg report_interval_ms (init start) as).Stamped :=
  Runs.run_invariant (fun _ a h => h.step cfg report_interval_ms a)
    ⟨ResultKind.stamped_nil, fun _ hr => absurd hr List.not_mem_nil⟩ as

end RdmaResultThread

structure TcpUdpReport where
  window : List TcpUdpResultMsg
  history : TcpUdpHistory

/-- A TCP or UDP client with the messages that were taken since the last report, and with those of
every report. -/
structure TcpUdpResultThread where
  client : TcpUdpClient
  window : List TcpUdpResultMsg
  reports : List TcpUdpReport

namespace TcpUdpResultThread

def init (threshold_ms : Nat) (start : TimePoint) : TcpUdpResultThread := ⟨TcpUdpClient.init threshold_ms start, [], []⟩

def dequeue (s : TcpUdpResultThread) : TcpUdpResultThread :=
  { s with client := s.client.dequeue, window := s.window ++ s.client.queue.head?.toList }

def checkReport (report_interval_ms : Int) (s : TcpUdpResultThread) (now : TimePoint) : TcpUdpResultThread :=
  if report_interval_ms ≤ elapsedMs now s.client.last_report_time then
    ⟨TcpUdpClient.checkReport report_interval_ms s.client now, [], s.reports ++ [⟨s.window, s.client.dstip2result⟩]⟩
  else { s with client := TcpUdpClient.checkReport report_interval_ms s.client now }

def step (report_interval_ms : Int) (s : TcpUdpResultThread) : TcpUdpClient.Action → TcpUdpResultThread
  | .result dequeues now => checkReport report_interval_ms (if dequeues then s.dequeue else s) now
  | a => { s with client := TcpUdpClient.step report_interval_ms s.client a }

abbrev run (report_interval_ms : Int) (s : TcpUdpResultThread) (as : List TcpUdpClient.Action) : TcpUdpResultThread :=
  Runs.run (step report_interval_ms) s as

theorem checkReport_client (report_interval_ms : Int) (s : TcpUdpResultThread) (now : TimePoint) :
    (checkReport report_interval_ms s now).client = TcpUdpClient.checkReport report_interval_ms s.client now := by
  unfold checkReport
  split <;> rfl

theorem step_client (report_interval_ms : Int) (s : TcpUdpResultThread) (a : TcpUdpClient.Action) :
    (step report_interval_ms s a).client = TcpUdpClient.step report_interval_ms s.client a := by
  cases a with
  | insert pingid dstip now steady_now system_ns => rfl
  | pong pingid recv_time => rfl
  | result dequeues now =>
    cases dequeues with
    | true => exact checkReport_client report_interval_ms s.dequeue now
    | false => exact checkReport_client report_interval_ms s now

/-- The client runs as it does alone. -/
theorem run_client (report_interval_ms : Int) (s : TcpUdpResultThread) (as : List TcpUdpClient.Action) :
    (run report_interval_ms s as).client = TcpUdpClient.run report_interval_ms s.client as := by
  induction as generalizing s with
  | nil => rfl
  | cons a as ih =>
    rw [run, Runs.run_cons, TcpUdpClient.run, Runs.run_cons, ← step_client]
    exact ih (step report_interval_ms s a)

structure Stamped (s : TcpUdpResultThread) : Prop where
  window : tcpUdpResults.Stamped s.client.dstip2result s.window
  reports : ∀ r ∈ s.reports, tcpUdpResults.Stamped r.history r.window

theorem Stamped.dequeue {s : TcpUdpResultThread} (h : s.Stamped) : s.dequeue.Stamped := by
  unfold TcpUdpResultThread.dequeue TcpUdpClient.dequeue
  refine ⟨?_, h.reports⟩
  cases s.client.queue with
  | nil =>
    rw [List.head?_nil, Option.toList_none, List.append_nil]
    exact h.window
  | cons m rest => exact h.window.record m

theorem Stamped.checkReport {s : TcpUdpResultThread} (h : s.Stamped) (report_interval_ms : Int) (now : TimePoint) :
    (s.checkReport report_interval_ms now).Stamped := by
  unfold TcpUdpResultThread.checkReport TcpUdpClient.checkReport
  split
  · exact ⟨ResultKind.stamped_nil, List.forall_mem_append.mpr ⟨h.reports, List.forall_mem_singleton.mpr h.window⟩⟩
  · exact h

theorem Stamped.step {s : TcpUdpResultThread} (h : s.Stamped) (report_interval_ms : Int) (a : TcpUdpClient.Action) :
    (TcpUdpResultThread.step report_interval_ms s a).Stamped := by
  cases a with
  | insert pingid dstip now steady_now system_ns => exact ⟨h.window, h.reports⟩
  | pong pingid recv_time => exact ⟨h.window, h.reports⟩
  | result dequeues now =>
    cases dequeues with
    | true => exact h.dequeue.checkReport report_interval_ms now
    | false => exact h.checkReport report_interval_ms now

theorem run_stamped (threshold_ms : Nat) (report_interval_ms : Int) (start : TimePoint)
    (as : List TcpUdpClient.Action) : (run report_interval_ms (init threshold_ms start) as).Stamped :=
  Runs.run_invariant (fun _ a h => h.step report_interval_ms a)
    ⟨ResultKind.stamped_nil, fun _ hr => absurd hr List.not_mem_nil⟩ as

end TcpUdpResultThread

/-- `ts_start` and `ts_end` of a reported destination are the send times of its oldest and newest
ping exactly if its messages were taken in that order. -/
theorem report_interval_iff (cfg : RdmaClientConfig) (report_interval_ms : Int) (start : TimePoint)
    (rdma : List RdmaResultThread.Action) (threshold_ms : Nat) (tcpUdp : List TcpUdpClient.Action) :
    (∀ r ∈ (RdmaResultThread.run cfg report_interval_ms (RdmaResultThread.init start) rdma).reports,
      ∀ dst info, r.history.lookup dst = some info →
        rdmaResults.sendTimes r.window dst ≠ [] ∧
        (Spans (rdmaResults.sendTimes r.window dst) (info.ts_start, info.ts_end) ↔
          OldestToNewest (rdmaResults.sendTimes r.window dst))) ∧
    ∀ r ∈ (TcpUdpResultThread.run report_interval_ms (TcpUdpResultThread.init threshold_ms start) tcpUdp).reports,
      ∀ dst info, r.history.lookup dst = some info →
        tcpUdpResults.sendTimes r.window dst ≠ [] ∧
        (Spans (tcpUdpResults.sendTimes r.window dst) (info.ts_start, info.ts_end) ↔
          OldestToNewest (tcpUdpResults.sendTimes r.window dst)) := by
  constructor
  · intro r hr dst info hinfo
    exact ((RdmaResultThread.run_stamped cfg report_interval_ms start rdma).reports r hr).spans_iff hinfo
  · intro r hr dst info hinfo
    exact ((TcpUdpResultThread.run_stamped threshold_ms report_interval_ms start tcpUdp).reports r hr).spans_iff
      hinfo

def exampleDst : Text := ['1', '0', '.', '0', '.', '0', '.', '2']

/-- A ping sent at 1 s that is not answered, and one sent at 1.5 s that is. The first one expires when
a third is inserted. -/
def lateFailure : List TcpUdpClient.Action :=
  [.insert 1 exampleDst 0 0 1000000000, .insert 2 exampleDst 500000000 500000000 1500000000, .pong 2 600000000,
    .insert 3 exampleDst 1500000000 1500000000 2500000000, .result true 2000000000, .result true 2000000000,
    .result false 20000000000]

/-- The same two pings, both answered. -/
def answeredInOrder : List TcpUdpClient.Action :=
  [.insert 1 exampleDst 0 0 1000000000, .pong 1 100000000, .insert 2 exampleDst 500000000 500000000 1500000000,
    .pong 2 600000000, .result true 2000000000, .result true 2000000000, .result false 20000000000]

theorem report_interval_iff_answered :
    ∃ r ∈ (TcpUdpResultThread.run 10000 (TcpUdpResultThread.init 1000 0) answeredInOrder).reports,
      ∃ info, r.history.lookup (ip2uint exampleDst) = some info ∧
        Spans (tcpUdpResults.sendTimes r.window (ip2uint exampleDst)) (info.ts_start, info.ts_end) := by
  have hreported : ((TcpUdpResultThread.run 10000 (TcpUdpResultThread.init 1000 0) answeredInOrder).reports.map fun r =>
      (r.history.lookup (ip2uint exampleDst), tcpUdpResults.sendTimes r.window (ip2uint exampleDst))) =
      [(some ⟨2, 0, 0, 1000000000, 1500000000, [100000000, 100000000]⟩, [1000000000, 1500000000])] := by
    decide +kernel
  obtain ⟨r, rest, hreports, hpair, -⟩ := List.map_eq_cons_iff.mp hreported
  obtain ⟨hlook, htimes⟩ := Prod.mk.inj hpair
  have hr : r ∈ (TcpUdpResultThread.run 10000 (TcpUdpResultThread.init 1000 0) answeredInOrder).reports := by
    rw [hreports]
    exact List.mem_cons_self
  refine ⟨r, hr, _, hlook, ?_⟩
  have hiff := report_interval_iff ⟨exampleDst, ⟨1, ⟨0, 1⟩, 0⟩, true⟩ 10000 0 [] 1000 answeredInOrder
  apply (hiff.2 r hr _ _ hlook).2.mpr
  rw [htimes]
  rintro first ⟨⟩ last ⟨⟩
  refine ⟨?_, fun h => absurd h (by decide)⟩
  simp only [List.forall_mem_cons]
  exact ⟨by decide, by decide, List.forall_mem_nil _⟩

/-- The report of the late failure starts after it ends. -/
theorem not_report_interval :
    ¬ ∀ as, ∀ r ∈ (TcpUdpResultThread.run 10000 (TcpUdpResultThread.init 1000 0) as).reports,
      ∀ dst info, r.history.lookup dst = some info →
        Spans (tcpUdpResults.sendTimes r.window dst) (info.ts_start, info.ts_end) := by
  intro hspans
  have hreported : ((TcpUdpResultThread.run 10000 (TcpUdpResultThread.init 1000 0) lateFailure).reports.map fun r =>
      r.history.lookup (ip2uint exampleDst)) = [some ⟨1, 1, 0, 1500000000, 1000000000, [100000000]⟩] := by
    decide +kernel
  obtain ⟨r, rest, hreports, hlook, -⟩ := List.map_eq_cons_iff.mp hreported
  have hr : r ∈ (TcpUdpResultThread.run 10000 (TcpUdpResultThread.init 1000 0) lateFailure).reports := by
    rw [hreports]
    exact List.mem_cons_self
  exact absurd (hspans lateFailure r hr _ _ hlook).start_le_stop (by decide)

end Pingweave
