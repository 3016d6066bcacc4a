import Pingweave.BlockingQueueSound
import Pingweave.TcpUdpAccounting

/-!
# The clients over the queue as it is

`TcpUdpClient` has a queue that hands every message over at once. Here its place is taken by the
queue of `readerwriterqueue.h` with its capacity and the steps of its calls: the thread that
holds the mutex of the ping table enqueues the messages of its call one by one, while the result
thread waits for them.
-/

namespace Pingweave
open TcpUdpClient
set_option autoImplicit false

def MSG_QUEUE_SIZE : UInt64 := (1 : UInt64) <<< 16

namespace BlockingQueue

universe u
variable {T : Type u}

/-- What the consumer will get if nothing more is enqueued and nothing rejected. -/
def held (s : BlockingQueue T) : List T := s.inner.pending ++ s.inner.producer.inFlight

namespace Inv
variable {e capacity : Nat} {s : BlockingQueue T}

theorem length_dequeued (h : s.Inv e capacity) : s.inner.dequeued.length ≤ s.inner.accepted.length := by
  obtain ⟨lay, k, -, hacc, -, -⟩ := h.inner.laid
  rw [hacc, List.length_append]
  exact Nat.le_add_right _ _

theorem idle (h : s.Inv e capacity) (hs : s.signaller ≠ .enqueuing) : s.inner.producer = .idle :=
  not_not.mp fun hne => hs (h.producer.mp hne)

theorem held_of_idle (h : s.Inv e capacity) (hs : s.signaller ≠ .enqueuing) :
    s.held = s.inner.pending := by
  rw [held, h.idle hs]
  exact List.append_nil _

theorem held_tryEnqueue (h : s.Inv e capacity) (hs : s.signaller = .idle) (x : T) :
    (s.tryEnqueue x).held = s.held ++ [x] ∧ (s.tryEnqueue x).inner.rejected = s.inner.rejected ∧
      (s.tryEnqueue x).inner.dequeued = s.inner.dequeued := by
  have hne : s.signaller ≠ .enqueuing := by
    rw [hs]
    exact (by simp)
  obtain ⟨-, hdeq, hacc, hrej⟩ := s.inner.tryEnqueue_same x
  rw [h.held_of_idle hne, BlockingQueue.tryEnqueue, hs]
  refine ⟨?_, hrej, hdeq⟩
  rw [held, ReaderWriterQueue.pending, hacc, hdeq, s.inner.tryEnqueue_inFlight x (h.idle hne),
    ReaderWriterQueue.pending]

/-- A step of `try_enqueue` keeps the elements in their places, or rejects the last one. -/
theorem held_enqueueStep (h : s.Inv e capacity) :
    s.enqueueStep.1.inner.dequeued = s.inner.dequeued ∧
      (s.enqueueStep.1.held = s.held ∧ s.enqueueStep.1.inner.rejected = s.inner.rejected ∨
        ∃ x n, s.held = s.enqueueStep.1.held ++ [x] ∧
          s.enqueueStep.1.inner.rejected = s.inner.rejected ++ [(x, n)]) := by
  rw [BlockingQueue.enqueueStep]
  cases hs : s.signaller with
  | idle => exact ⟨rfl, Or.inl ⟨rfl, rfl⟩⟩
  | enqueuing =>
    obtain ⟨-, hdeq, hcases⟩ := s.inner.enqueueStep_cases (h.producer.mpr hs)
    dsimp only
    rcases hcases with ⟨hret, -, hacc, hfly, hrej⟩ | ⟨hret, hprod, hacc, x, n, hfly, hrej⟩ |
      ⟨hret, hprod, x, hacc, hfly, hrej⟩
    · rw [hret]
      refine ⟨hdeq, Or.inl ⟨?_, hrej⟩⟩
      rw [held, held, ReaderWriterQueue.pending, hacc, hdeq, hfly, ReaderWriterQueue.pending]
    · rw [hret]
      refine ⟨hdeq, Or.inr ⟨x, n, ?_, hrej⟩⟩
      rw [held, held, ReaderWriterQueue.pending, ReaderWriterQueue.pending, hacc, hdeq, hfly, hprod]
      simp only [ReaderWriterQueue.Producer.inFlight, List.append_nil]
    · rw [hret]
      refine ⟨hdeq, Or.inl ⟨?_, hrej⟩⟩
      rw [held, held, ReaderWriterQueue.pending, ReaderWriterQueue.pending, hacc, hdeq, hfly, hprod,
        List.drop_append_of_le_length h.length_dequeued]
      simp only [ReaderWriterQueue.Producer.inFlight, List.append_nil]
  | fetchAdd =>
    dsimp only
    split
    · exact ⟨rfl, Or.inl ⟨rfl, rfl⟩⟩
    · split
      · exact ⟨rfl, Or.inl ⟨rfl, rfl⟩⟩
      · exact ⟨rfl, Or.inl ⟨rfl, rfl⟩⟩
  | post => exact ⟨rfl, Or.inl ⟨rfl, rfl⟩⟩

theorem held_tryDequeue (h : s.Inv e capacity) (hbusy : s.waiter ≠ .dequeuing) (m_count : Int)
    (m_sema : Nat) :
    (BlockingQueue.tryDequeue { s with m_count := m_count, m_sema := m_sema }).held = s.held ∧
      (BlockingQueue.tryDequeue { s with m_count := m_count, m_sema := m_sema }).inner.rejected =
        s.inner.rejected ∧
      (BlockingQueue.tryDequeue { s with m_count := m_count, m_sema := m_sema }).inner.dequeued =
        s.inner.dequeued := by
  have hidle : s.inner.consumer = .idle := not_not.mp fun hne => hbusy (h.consumer.mp hne)
  obtain ⟨hprod, hdeq, hacc, hrej, -, -⟩ := s.inner.tryDequeue_same hidle
  refine ⟨?_, hrej, hdeq⟩
  dsimp only [held, BlockingQueue.tryDequeue, ReaderWriterQueue.pending]
  rw [hprod, hdeq, hacc]

/-- A step of `wait_dequeue_timed` keeps the elements, or returns the first one. -/
theorem held_dequeueStep (h : s.Inv e capacity) (timeout : Bool) :
    (s.dequeueStep timeout).1.inner.rejected = s.inner.rejected ∧
      (((s.dequeueStep timeout).2 = none ∨ (s.dequeueStep timeout).2 = some none) ∧
          (s.dequeueStep timeout).1.held = s.held ∧
          (s.dequeueStep timeout).1.inner.dequeued = s.inner.dequeued ∨
        ∃ v, (s.dequeueStep timeout).2 = some (some v) ∧
          s.held = v :: (s.dequeueStep timeout).1.held ∧
          (s.dequeueStep timeout).1.inner.dequeued = s.inner.dequeued ++ [v]) := by
  have hthrough := h.held_tryDequeue
  rw [BlockingQueue.dequeueStep]
  cases hw : s.waiter with
  | idle => exact ⟨rfl, Or.inl ⟨Or.inl rfl, rfl, rfl⟩⟩
  | load spin =>
    dsimp only
    split
    · exact ⟨rfl, Or.inl ⟨Or.inl rfl, rfl, rfl⟩⟩
    · split
      · exact ⟨rfl, Or.inl ⟨Or.inl rfl, rfl, rfl⟩⟩
      · exact ⟨rfl, Or.inl ⟨Or.inl rfl, rfl, rfl⟩⟩
  | fetchSub =>
    rw [hw] at hthrough
    obtain ⟨hheld, hrej, hdeq⟩ := hthrough (by simp) (s.m_count - 1) s.m_sema
    exact ⟨hrej, Or.inl ⟨Or.inl rfl, hheld, hdeq⟩⟩
  | giveUpSpinning =>
    rw [hw] at hthrough
    dsimp only
    split
    · obtain ⟨hheld, hrej, hdeq⟩ := hthrough (by simp) (s.m_count - 1) s.m_sema
      exact ⟨hrej, Or.inl ⟨Or.inl rfl, hheld, hdeq⟩⟩
    · exact ⟨rfl, Or.inl ⟨Or.inl rfl, rfl, rfl⟩⟩
  | timedWait =>
    rw [hw] at hthrough
    dsimp only
    split
    · exact ⟨rfl, Or.inl ⟨Or.inl rfl, rfl, rfl⟩⟩
    · split
      · obtain ⟨hheld, hrej, hdeq⟩ := hthrough (by simp) s.m_count (s.m_sema - 1)
        exact ⟨hrej, Or.inl ⟨Or.inl rfl, hheld, hdeq⟩⟩
      · exact ⟨rfl, Or.inl ⟨Or.inl rfl, rfl, rfl⟩⟩
  | restore =>
    dsimp only
    split
    · exact ⟨rfl, Or.inl ⟨Or.inr rfl, rfl, rfl⟩⟩
    · exact ⟨rfl, Or.inl ⟨Or.inl rfl, rfl, rfl⟩⟩
  | retry =>
    dsimp only
    split
    · exact ⟨rfl, Or.inl ⟨Or.inl rfl, rfl, rfl⟩⟩
    · exact ⟨rfl, Or.inl ⟨Or.inl rfl, rfl, rfl⟩⟩
  | tryWait =>
    rw [hw] at hthrough
    dsimp only
    split
    · obtain ⟨hheld, hrej, hdeq⟩ := hthrough (by simp) s.m_count (s.m_sema - 1)
      exact ⟨hrej, Or.inl ⟨Or.inl rfl, hheld, hdeq⟩⟩
    · exact ⟨rfl, Or.inl ⟨Or.inl rfl, rfl, rfl⟩⟩
  | dequeuing =>
    obtain ⟨hprod, hacc, hrej, hcases⟩ := s.inner.dequeueStep_cases (h.consumer.mpr hw)
    dsimp only
    rcases hcases with ⟨hret, -, hdeq, -⟩ | ⟨hret, -, hdeq, -, -⟩ | ⟨v, hret, -, hdeq⟩
    · rw [hret]
      refine ⟨hrej, Or.inl ⟨Or.inl rfl, ?_, hdeq⟩⟩
      rw [held, held, ReaderWriterQueue.pending, ReaderWriterQueue.pending, hprod, hacc, hdeq]
    · rw [hret]
      refine ⟨hrej, Or.inl ⟨Or.inl rfl, ?_, hdeq⟩⟩
      rw [held, held, ReaderWriterQueue.pending, ReaderWriterQueue.pending, hprod, hacc, hdeq]
    · rw [hret]
      refine ⟨hrej, Or.inr ⟨v, rfl, ?_, hdeq⟩⟩
      -- the accepted elements begin with the dequeued ones, `v` the last of them
      obtain ⟨lay, k, -, hafter, -, -⟩ := h.inner.dequeueStep.laid
      have hrest := ReaderWriterQueue.Inv.pending_eq hafter
      rw [hacc, hdeq, List.append_assoc, List.singleton_append] at hafter
      have hpend := ReaderWriterQueue.Inv.pending_eq hafter
      rw [held, held, hpend, hrest, hprod, List.cons_append]

end Inv
end BlockingQueue

namespace TcpUdpQueue

/-- The steps of a client's threads. The clock that the result thread reads at the end of a turn
is `now`. -/
inductive Action where
  | insert (pingid : UInt64) (dstip : Text) (now steady_now : TimePoint) (system_ns : UInt64)
  | pong (pingid recv_time : UInt64)
  | producer
  | waitDequeueTimed
  | result (timeout : Bool) (now : TimePoint)
  deriving DecidableEq, Repr

end TcpUdpQueue

/-- The queue of `client` holds the messages that the call under way, which has the mutex of the
table, has still to enqueue. -/
structure TcpUdpQueue where
  client : TcpUdpClient
  client_queue : BlockingQueue TcpUdpResultMsg

namespace TcpUdpQueue

def init (threshold_ms : Nat) (start : TimePoint) : TcpUdpQueue where
  client := TcpUdpClient.init threshold_ms start
  client_queue := BlockingQueue.init TcpUdpResultMsg MSG_QUEUE_SIZE

/-- No call on the table is under way. -/
def Unlocked (s : TcpUdpQueue) : Prop := s.client.queue = [] ∧ s.client_queue.signaller = .idle

instance (s : TcpUdpQueue) : Decidable s.Unlocked := inferInstanceAs (Decidable (_ ∧ _))

/-- The next step of the call that has the mutex. -/
def producerStep (s : TcpUdpQueue) : TcpUdpQueue :=
  match s.client_queue.signaller with
  | .idle =>
    match s.client.queue with
    | [] => s
    | m :: rest =>
      { client := { s.client with queue := rest }, client_queue := s.client_queue.tryEnqueue m }
  | _ => { s with client_queue := s.client_queue.enqueueStep.1 }

/-- The next step of a turn of the result thread. -/
def resultStep (report_interval_ms : Int) (s : TcpUdpQueue) (timeout : Bool) (now : TimePoint) :
    TcpUdpQueue :=
  let call := s.client_queue.dequeueStep timeout
  match call.2 with
  | none => { s with client_queue := call.1 }
  | some none =>
    { client := checkReport report_interval_ms s.client now, client_queue := call.1 }
  | some (some m) =>
    { client := checkReport report_interval_ms
        { s.client with
          dstip2result := s.client.dstip2result.record m
          counted := s.client.counted ++ [m] } now
      client_queue := call.1 }

def step (report_interval_ms : Int) (s : TcpUdpQueue) : Action → TcpUdpQueue
  | .insert pingid dstip now steady_now system_ns =>
    if s.Unlocked then { s with client := s.client.insert pingid dstip now steady_now system_ns } else s
  | .pong pingid recv_time =>
    if s.Unlocked then { s with client := s.client.pong pingid recv_time } else s
  | .producer => s.producerStep
  | .waitDequeueTimed => { s with client_queue := s.client_queue.waitDequeueTimed }
  | .result timeout now => s.resultStep report_interval_ms timeout now

abbrev run (report_interval_ms : Int) (s : TcpUdpQueue) (as : List Action) : TcpUdpQueue :=
  Runs.run (step report_interval_ms) s as

/-- The client as it looks with a queue that hands every message over at once. -/
def abstract (s : TcpUdpQueue) : TcpUdpClient :=
  { s.client with queue := s.client_queue.held ++ s.client.queue }

/-- The messages that `try_enqueue` has refused. -/
def rejected (s : TcpUdpQueue) : List TcpUdpResultMsg := s.client_queue.inner.rejected.map Prod.fst

/-- A step that takes a message does not wrap the counter it increments. -/
def NoWrap (s : TcpUdpQueue) : Action → Prop
  | .result timeout _ => ∀ m, (s.client_queue.dequeueStep timeout).2 = some (some m) →
      (s.client.dstip2result.entryAt m.dstip).full m = false
  | _ => True

theorem dequeue_cons {c : TcpUdpClient} {m : TcpUdpResultMsg} {rest : List TcpUdpResultMsg}
    (hq : c.queue = m :: rest) :
    c.dequeue = { c with
      queue := rest
      dstip2result := c.dstip2result.record m
      counted := c.counted ++ [m] } := by
  rw [TcpUdpClient.dequeue, hq]

theorem checkReport_queue (report_interval_ms : Int) (c : TcpUdpClient) (now : TimePoint)
    (q : List TcpUdpResultMsg) :
    { checkReport report_interval_ms c now with queue := q ++ (checkReport report_interval_ms c now).queue } =
      checkReport report_interval_ms { c with queue := q ++ c.queue } now := by
  rw [checkReport, checkReport]
  dsimp only
  split
  · rfl
  · rfl

/-- A step of the threads is a step of the client, or none, or loses a message. -/
inductive StepOf (report_interval_ms : Int) (c c' : TcpUdpClient) (lost : List TcpUdpResultMsg)
    (noWrap : Prop) : Prop where
  | stutter (same : c' = c) (kept : lost = [])
  | step (b : TcpUdpClient.Action) (same : c' = TcpUdpClient.step report_interval_ms c b)
      (kept : lost = []) (fits : noWrap → c.NoWrap b)
      (found : ∀ now, b = .result true now → c.queue ≠ [])
  | lose (before : List TcpUdpResultMsg) (m : TcpUdpResultMsg) (after : List TcpUdpResultMsg)
      (held : c.queue = before ++ m :: after) (same : c' = { c with queue := before ++ after })
      (kept : lost = [m])

theorem rejected_same {s s' : TcpUdpQueue}
    (h : s'.client_queue.inner.rejected = s.client_queue.inner.rejected) : s'.rejected = s.rejected ++ [] := by
  rw [rejected, h, List.append_nil, rejected]

theorem rejected_push {s s' : TcpUdpQueue} {m : TcpUdpResultMsg} {n : Nat}
    (h : s'.client_queue.inner.rejected = s.client_queue.inner.rejected ++ [(m, n)]) :
    s'.rejected = s.rejected ++ [m] := by
  rw [rejected, h, List.map_append, rejected]
  rfl

theorem producerStep_busy {s : TcpUdpQueue} (hs : s.client_queue.signaller ≠ .idle) :
    s.producerStep = { s with client_queue := s.client_queue.enqueueStep.1 } := by
  rw [producerStep]
  split
  · rename_i hidle
    exact absurd hidle hs
  · rfl

section step
variable {e capacity : Nat} {s : TcpUdpQueue} {report_interval_ms : Int}

/-- What the threads do in one step, seen from the client. -/
theorem step_cases (report_interval_ms : Int) (h : s.client_queue.Inv e capacity) (a : Action) :
    ∃ lost, (s.step report_interval_ms a).rejected = s.rejected ++ lost ∧
      StepOf report_interval_ms s.abstract (s.step report_interval_ms a).abstract lost (s.NoWrap a) := by
  cases a with
  | insert pingid dstip now steady_now system_ns =>
    rw [step]
    split
    · rename_i hfree
      refine ⟨[], (List.append_nil _).symm,
        .step (.insert pingid dstip now steady_now system_ns) ?_ rfl (fun _ => trivial) (by simp)⟩
      rw [TcpUdpClient.step, abstract, abstract, TcpUdpClient.insert, TcpUdpClient.insert, hfree.1,
        List.nil_append, List.append_nil]
    · exact ⟨[], (List.append_nil _).symm, .stutter rfl rfl⟩
  | pong pingid recv_time =>
    rw [step]
    split
    · rename_i hfree
      refine ⟨[], (List.append_nil _).symm, .step (.pong pingid recv_time) ?_ rfl (fun _ => trivial) (by simp)⟩
      rw [TcpUdpClient.step, abstract, abstract, TcpUdpClient.pong, TcpUdpClient.pong, hfree.1,
        List.nil_append, List.append_nil]
    · exact ⟨[], (List.append_nil _).symm, .stutter rfl rfl⟩
  | producer =>
    rw [step]
    by_cases hs : s.client_queue.signaller = .idle
    · rw [producerStep, hs]
      dsimp only
      split
      · exact ⟨[], (List.append_nil _).symm, .stutter rfl rfl⟩
      · rename_i m rest hq
        obtain ⟨hheld, hrej, -⟩ := h.held_tryEnqueue hs m
        refine ⟨[], rejected_same hrej, .stutter ?_ rfl⟩
        rw [abstract, abstract, hheld, hq, List.append_assoc, List.singleton_append]
    · rw [producerStep_busy hs]
      rcases h.held_enqueueStep.2 with ⟨hheld, hrej⟩ | ⟨m, n, hheld, hrej⟩
      · refine ⟨[], rejected_same hrej, .stutter ?_ rfl⟩
        rw [abstract, abstract, hheld]
      · refine ⟨[m], rejected_push hrej,
          .lose s.client_queue.enqueueStep.1.held m s.client.queue ?_ rfl rfl⟩
        rw [abstract, hheld, List.append_assoc, List.singleton_append]
  | waitDequeueTimed =>
    have hinner : s.client_queue.waitDequeueTimed.inner = s.client_queue.inner := by
      rw [BlockingQueue.waitDequeueTimed]
      split
      · rfl
      · rfl
    refine ⟨[], rejected_same (congrArg ReaderWriterQueue.rejected hinner), .stutter ?_ rfl⟩
    rw [step, abstract, abstract, BlockingQueue.held, hinner, BlockingQueue.held]
  | result timeout now =>
    obtain ⟨hrej, hcases⟩ := h.held_dequeueStep timeout
    have hlost : (s.step report_interval_ms (.result timeout now)).rejected = s.rejected ++ [] := by
      refine rejected_same (Eq.trans ?_ hrej)
      rw [step, resultStep]
      dsimp only
      split
      · rfl
      · rfl
      · rfl
    refine ⟨[], hlost, ?_⟩
    rw [step, resultStep]
    dsimp only
    rcases hcases with ⟨hret | hret, hheld, -⟩ | ⟨m, hret, hheld, -⟩
    · rw [hret]
      refine .stutter ?_ rfl
      rw [abstract, abstract, hheld]
    · rw [hret]
      refine .step (.result false now) ?_ rfl (fun _ => trivial) (by simp)
      rw [TcpUdpClient.step, if_neg Bool.false_ne_true, abstract, hheld]
      exact checkReport_queue report_interval_ms s.client now s.client_queue.held
    · rw [hret]
      have hq : s.abstract.queue = m :: ((s.client_queue.dequeueStep timeout).1.held ++ s.client.queue) := by
        rw [abstract, hheld, List.cons_append]
      refine .step (.result true now) ?_ rfl ?_ fun _ _ hnil => ?_
      · rw [TcpUdpClient.step, if_pos rfl, dequeue_cons hq]
        exact checkReport_queue report_interval_ms _ now _
      · intro hfits m' hm'
        rw [hq, List.head?_cons] at hm'
        cases hm'
        exact hfits m hret
      · rw [hq] at hnil
        cases hnil

theorem step_inv (h : s.client_queue.Inv e capacity) (a : Action) :
    (s.step report_interval_ms a).client_queue.Inv e capacity := by
  cases a with
  | insert pingid dstip now steady_now system_ns =>
    rw [step]
    split
    · exact h
    · exact h
  | pong pingid recv_time =>
    rw [step]
    split
    · exact h
    · exact h
  | producer =>
    rw [step, producerStep]
    split
    · split
      · exact h
      · exact h.tryEnqueue _
    · exact h.enqueueStep
  | waitDequeueTimed => exact h.waitDequeueTimed
  | result timeout now =>
    rw [step, resultStep]
    dsimp only
    split
    · exact h.dequeueStep timeout
    · exact h.dequeueStep timeout
    · exact h.dequeueStep timeout

end step

/-- The client with the refused messages put back at the end of its queue. -/
def withLost (c : TcpUdpClient) (lost : List TcpUdpResultMsg) : TcpUdpClient :=
  { c with queue := c.queue ++ lost }

theorem queue_perm {c : TcpUdpClient} (h : c.Ok) {q : List TcpUdpResultMsg} (hq : c.queue.Perm q) :
    TcpUdpClient.Ok { c with queue := q } :=
  ⟨h.held, h.once.trans (hq.append_left c.counted), h.tallied⟩

theorem withLost_step {c : TcpUdpClient} {lost : List TcpUdpResultMsg} (h : (withLost c lost).Ok)
    (report_interval_ms : Int) {b : TcpUdpClient.Action} (fits : c.NoWrap b)
    (found : ∀ now, b = .result true now → c.queue ≠ []) :
    (withLost (TcpUdpClient.step report_interval_ms c b) lost).Ok := by
  have hswap : ∀ new : List TcpUdpResultMsg, (c.queue ++ lost ++ new).Perm (c.queue ++ new ++ lost) := by
    intro new
    rw [List.append_assoc, List.append_assoc]
    exact List.perm_append_comm.append_left c.queue
  cases b with
  | insert pingid dstip now steady_now system_ns =>
    exact queue_perm (h.insert pingid dstip now steady_now system_ns) (hswap _)
  | pong pingid recv_time => exact queue_perm (h.pong pingid recv_time) (hswap _)
  | result dequeues now =>
    have hreport : ∀ {c : TcpUdpClient}, (withLost c lost).Ok →
        (withLost (checkReport report_interval_ms c now) lost).Ok := by
      intro c h
      have hok := h.checkReport report_interval_ms now
      rw [checkReport] at hok ⊢
      split at hok
      · rename_i hdue
        rw [if_pos (show report_interval_ms ≤ elapsedMs now c.last_report_time from hdue)]
        exact hok
      · rename_i hdue
        rw [if_neg (show ¬report_interval_ms ≤ elapsedMs now c.last_report_time from hdue)]
        exact hok
    cases dequeues with
    | false => exact hreport h
    | true =>
      cases hq : c.queue with
      | nil => exact absurd hq (found now rfl)
      | cons m rest =>
        have hq' : (withLost c lost).queue = m :: (rest ++ lost) := by
          rw [withLost, hq, List.cons_append]
        have hok : (withLost c lost).dequeue.Ok := by
          refine h.dequeue fun m' hm' => ?_
          rw [hq', List.head?_cons] at hm'
          refine fits m' ?_
          rw [hq, List.head?_cons]
          exact hm'
        refine hreport ?_
        rw [dequeue_cons hq'] at hok
        rw [dequeue_cons hq]
        exact hok

/-- The invariant of the threads: no message is anywhere but on its way, counted or refused. -/
structure Inv (e : Nat) (s : TcpUdpQueue) : Prop where
  queue : s.client_queue.Inv e MSG_QUEUE_SIZE.toNat
  ok : (withLost s.abstract s.rejected).Ok
  counted : s.client.counted = s.client_queue.inner.dequeued

theorem checkReport_counted (report_interval_ms : Int) (c : TcpUdpClient) (now : TimePoint) :
    (checkReport report_interval_ms c now).counted = c.counted := by
  rw [checkReport]
  split
  · rfl
  · rfl

/-- The messages are counted in the order in which the queue gives them out. -/
theorem counted_step {s : TcpUdpQueue} {e capacity : Nat} (h : s.client_queue.Inv e capacity)
    (hc : s.client.counted = s.client_queue.inner.dequeued) (report_interval_ms : Int) (a : Action) :
    (s.step report_interval_ms a).client.counted =
      (s.step report_interval_ms a).client_queue.inner.dequeued := by
  cases a with
  | insert pingid dstip now steady_now system_ns =>
    rw [step]
    split
    · exact hc
    · exact hc
  | pong pingid recv_time =>
    rw [step]
    split
    · exact hc
    · exact hc
  | producer =>
    rw [step]
    by_cases hs : s.client_queue.signaller = .idle
    · rw [producerStep, hs]
      dsimp only
      split
      · exact hc
      · exact hc.trans (h.held_tryEnqueue hs _).2.2.symm
    · rw [producerStep_busy hs]
      exact hc.trans h.held_enqueueStep.1.symm
  | waitDequeueTimed =>
    rw [step, BlockingQueue.waitDequeueTimed]
    split
    · exact hc
    · exact hc
  | result timeout now =>
    rw [step, resultStep]
    dsimp only
    rcases (h.held_dequeueStep timeout).2 with ⟨hret | hret, -, hdeq⟩ | ⟨m, hret, -, hdeq⟩
    · rw [hret]
      exact hc.trans hdeq.symm
    · rw [hret]
      dsimp only
      rw [checkReport_counted, hc, hdeq]
    · rw [hret]
      dsimp only
      rw [checkReport_counted, hc, hdeq]

namespace Inv
variable {e : Nat} {s : TcpUdpQueue}

theorem step (h : s.Inv e) (report_interval_ms : Int) {a : Action} (hfits : s.NoWrap a) :
    (step report_interval_ms s a).Inv e := by
  refine ⟨step_inv h.queue a, ?_, counted_step h.queue h.counted report_interval_ms a⟩
  obtain ⟨lost, hrej, hstep⟩ := step_cases report_interval_ms h.queue a
  have hok := h.ok
  rw [hrej]
  cases hstep with
  | stutter same kept =>
    rw [same, kept, List.append_nil]
    exact hok
  | step b same kept fits found =>
    rw [same, kept, List.append_nil]
    exact withLost_step hok report_interval_ms (fits hfits) found
  | lose before m after held same kept =>
    have hperm : (before ++ m :: after ++ s.rejected).Perm (before ++ after ++ (s.rejected ++ [m])) :=
      calc before ++ m :: after ++ s.rejected
        _ = before ++ m :: (after ++ s.rejected) := by rw [List.append_assoc, List.cons_append]
        List.Perm _ (m :: (before ++ (after ++ s.rejected))) := List.perm_middle
        List.Perm _ (before ++ (after ++ s.rejected) ++ [m]) := (List.perm_append_singleton _ _).symm
        _ = before ++ after ++ (s.rejected ++ [m]) := by simp only [List.append_assoc]
    rw [same, kept]
    refine queue_perm hok ?_
    rw [withLost, held]
    exact hperm

end Inv

/-- A new queue is empty. -/
theorem init_queue (threshold_ms : Nat) (start : TimePoint) :
    (init threshold_ms start).client_queue.held = [] ∧
      (init threshold_ms start).client_queue.inner.dequeued = [] ∧
      (init threshold_ms start).client_queue.inner.rejected = [] := by
  rw [init, BlockingQueue.held, BlockingQueue.init, ReaderWriterQueue.pending, ReaderWriterQueue.init]
  dsimp only
  split
  · exact ⟨rfl, rfl, rfl⟩
  · exact ⟨rfl, rfl, rfl⟩

theorem init_inv (threshold_ms : Nat) (start : TimePoint) : ∃ e, (init threshold_ms start).Inv e := by
  obtain ⟨e, hqueue⟩ := BlockingQueue.init_inv (T := TcpUdpResultMsg) MSG_QUEUE_SIZE (by decide)
  obtain ⟨hheld, hdeq, hrej⟩ := init_queue threshold_ms start
  refine ⟨e, hqueue, ?_, hdeq.symm⟩
  rw [withLost, rejected, hrej, abstract, hheld]
  exact init_ok threshold_ms start

instance (s : TcpUdpQueue) (a : Action) : Decidable (s.NoWrap a) :=
  match a with
  | .result timeout _ =>
    match h : (s.client_queue.dequeueStep timeout).2 with
    | some (some m) =>
      decidable_of_iff ((s.client.dstip2result.entryAt m.dstip).full m = false)
        ⟨fun hm m' hm' => by rw [h] at hm'; cases hm'; exact hm, fun hm => hm m h⟩
    | some none => isTrue fun m hm => by rw [h] at hm; cases hm
    | none => isTrue fun m hm => by rw [h] at hm; cases hm
  | .insert _ _ _ _ _ => isTrue trivial
  | .pong _ _ => isTrue trivial
  | .producer => isTrue trivial
  | .waitDequeueTimed => isTrue trivial

/-- What has become of the pings of a client whose queue is the one of `readerwriterqueue.h`. -/
structure Accounted (s : TcpUdpQueue) : Prop where
  /-- The messages under way and the refused ones make up the difference between the fates of the
  pings and the histories. -/
  conserved : TcpUdpClient.Conserved
    { s.client with queue := s.client_queue.held ++ s.client.queue ++ s.rejected }
  /-- A message is refused only where 65536 others wait in the queue. -/
  full : ∀ r ∈ s.client_queue.inner.rejected, 65536 ≤ r.2
  inOrder : s.client.counted <+: s.client_queue.inner.accepted
  sound : s.client_queue.fault = false ∧ s.client_queue.inner.fault = false

/-- Until a message is refused, the threads carry out a run of the client. -/
structure Simulates (report_interval_ms : Int) (c : TcpUdpClient) (e : Nat) (s : TcpUdpQueue) : Prop where
  queue : s.client_queue.Inv e MSG_QUEUE_SIZE.toNat
  client : s.rejected = [] → ∃ bs, s.abstract = TcpUdpClient.run report_interval_ms c bs

theorem Simulates.step {report_interval_ms : Int} {c : TcpUdpClient} {e : Nat} {s : TcpUdpQueue}
    (h : s.Simulates report_interval_ms c e) (a : Action) :
    (s.step report_interval_ms a).Simulates report_interval_ms c e := by
  refine ⟨step_inv h.queue a, fun hnone => ?_⟩
  obtain ⟨lost, hrej, hstep⟩ := step_cases report_interval_ms h.queue a
  rw [hnone] at hrej
  obtain ⟨hkept, hlost⟩ := List.append_eq_nil_iff.mp hrej.symm
  obtain ⟨bs, hbs⟩ := h.client hkept
  cases hstep with
  | stutter same kept => exact ⟨bs, same.trans hbs⟩
  | step b same kept fits found =>
    refine ⟨bs ++ [b], ?_⟩
    rw [same, hbs]
    exact (Runs.run_concat (TcpUdpClient.step report_interval_ms) c bs b).symm
  | lose before m after held same kept =>
    rw [hlost] at kept
    cases kept

/-- As long as the queue refuses nothing, its steps cannot be told from a queue that hands every
message over at once. -/
theorem refines (threshold_ms : Nat) (report_interval_ms : Int) (start : TimePoint) (as : List Action)
    (hkept : (run report_interval_ms (init threshold_ms start) as).rejected = []) :
    ∃ bs, (run report_interval_ms (init threshold_ms start) as).abstract =
      TcpUdpClient.run report_interval_ms (TcpUdpClient.init threshold_ms start) bs := by
  obtain ⟨e, hinit⟩ := init_inv threshold_ms start
  have hstart : (init threshold_ms start).abstract = TcpUdpClient.init threshold_ms start := by
    rw [abstract, (init_queue threshold_ms start).1]
    rfl
  have hstep : ∀ s a, Simulates report_interval_ms (TcpUdpClient.init threshold_ms start) e s →
      Simulates report_interval_ms (TcpUdpClient.init threshold_ms start) e (step report_interval_ms s a) :=
    fun s a h => h.step a
  exact (Runs.run_invariant hstep ⟨hinit.queue, fun _ => ⟨[], hstart⟩⟩ as).client hkept

/-- A message that is there before the result thread looks for it. -/
def foundAtOnce : List Action :=
  [.insert 1 ['1', '0', '.', '0', '.', '0', '.', '2'] 0 0 5, .pong 1 250] ++ List.replicate 5 .producer ++
    [.waitDequeueTimed] ++ List.replicate 7 (.result false 300)

theorem refines_foundAtOnce : ∃ bs, (run 10000 (init 1000 0) foundAtOnce).abstract =
    TcpUdpClient.run 10000 (TcpUdpClient.init 1000 0) bs :=
  refines 1000 10000 0 foundAtOnce (by decide +kernel)

end TcpUdpQueue
end Pingweave
