import Mathlib.Algebra.Order.Ring.Rat
import Pingweave.Format
import Pingweave.Library.Runs

/-!
# The thread that reports results

The loop of `thread_process_messages` in `agent_sender.py` with the two functions that send a
message to the controller. A batch of messages has left the shared memory when the loop over it
begins; an exception leaves the thread.
-/

namespace Pingweave
set_option autoImplicit false

/-- How far a sender comes, with the seconds from its start to its end. -/
inductive Attempt where
  | raises
  | timesOut (elapsed : Rat)
  | answered (elapsed : Rat)
  deriving DecidableEq

/-- The latency in microseconds. Every exception is handled, and a timeout is one. -/
def sendMessageViaHttp : Attempt → Option Rat
  | .raises => none
  | .timesOut _ => none
  | .answered elapsed => some (elapsed * 1000000)

/-- The poller does not raise when no reply comes in time. -/
def sendMessageViaZmq : Attempt → Option Rat
  | .raises => none
  | .timesOut elapsed => some (elapsed * 1000000)
  | .answered elapsed => some (elapsed * 1000000)

/-- A call of one of the two. -/
inductive SendCall where
  | http (message rest_api control_host : Text) (collect_port_http : Nat)
  | zmq (message protocol ipv4 : Text)
  deriving DecidableEq

/-- What the thread is started with. -/
structure SenderConfig where
  protocol : Text
  ipv4 : Text
  control_host : Text
  collect_port_http : Nat
  protocol_to_report_result : Text

inductive ThreadStatus where
  | running
  | stopped
  | terminated
  deriving DecidableEq, Repr

/-- The calls so far and the latencies of more than a second, which it warns of. -/
structure AgentSender where
  handed : List SendCall
  slow : List Rat
  status : ThreadStatus

namespace AgentSender

/-- A round of the loop: `stop_event` is set, or `read_messages` returns a batch. Each message stands
with what becomes of its sending. -/
inductive Event where
  | stop
  | read (batch : List (Text × Attempt))

section Thread
variable (config : SenderConfig)

def viaZmq : Bool := config.protocol_to_report_result = "zmq".toList

def call (m : Text) : SendCall :=
  if viaZmq config then .zmq m config.protocol config.ipv4
  else .http m ("/result_".toList ++ config.protocol) config.control_host config.collect_port_http

def send_latency (attempt : Attempt) : Option Rat :=
  if viaZmq config then sendMessageViaZmq attempt else sendMessageViaHttp attempt

/-- The loop over a batch. To compare `None` with a number raises. -/
def processBatch (s : AgentSender) : List (Text × Attempt) → AgentSender
  | [] => s
  | m :: rest =>
    match send_latency config m.2 with
    | none => { s with handed := s.handed ++ [call config m.1], status := .terminated }
    | some latency =>
      processBatch
        { s with
          handed := s.handed ++ [call config m.1]
          slow := if latency > 1000000 then s.slow ++ [latency] else s.slow }
        rest

def step (s : AgentSender) (e : Event) : AgentSender :=
  if s.status = .running then
    match e with
    | .stop => { s with status := .stopped }
    | .read batch => processBatch config s batch
  else s

def start : AgentSender := ⟨[], [], .running⟩

/-- The whole batch is handed over in order, and the thread reads on. -/
def LosesNothing (s : AgentSender) (e : Event) : Prop :=
  ∀ batch, e = .read batch → s.status = .running →
    (step config s e).handed = s.handed ++ batch.map (fun m => call config m.1) ∧
      (step config s e).status = .running

/-- The sender returns `None`. -/
def Fails : Attempt → Prop
  | .raises => True
  | .timesOut _ => viaZmq config = false
  | .answered _ => False

def NoneFails (s : AgentSender) (e : Event) : Prop :=
  ∀ batch, e = .read batch → s.status = .running → ∀ m ∈ batch, ¬ Fails config m.2

end Thread

section Batch
variable {config : SenderConfig}

theorem send_latency_eq_none_iff {attempt : Attempt} : send_latency config attempt = none ↔ Fails config attempt := by
  unfold send_latency
  by_cases hzmq : viaZmq config = true
  · rw [if_pos hzmq]
    cases attempt with
    | raises => exact iff_of_true rfl trivial
    | timesOut elapsed => simp [sendMessageViaZmq, Fails, hzmq]
    | answered elapsed => simp [sendMessageViaZmq, Fails]
  · rw [if_neg hzmq]
    cases attempt with
    | raises => exact iff_of_true rfl trivial
    | timesOut elapsed => exact iff_of_true rfl (Bool.eq_false_iff.mpr hzmq)
    | answered elapsed => simp [sendMessageViaHttp, Fails]

theorem processBatch_of_fails {m : Text × Attempt} (hm : Fails config m.2) (s : AgentSender)
    (rest : List (Text × Attempt)) :
    processBatch config s (m :: rest) =
      { s with handed := s.handed ++ [call config m.1], status := .terminated } := by
  rw [processBatch, send_latency_eq_none_iff.mpr hm]

theorem processBatch_of_sent {m : Text × Attempt} (hm : ¬ Fails config m.2) (s : AgentSender)
    (rest : List (Text × Attempt)) :
    ∃ slow, processBatch config s (m :: rest) =
      processBatch config { s with handed := s.handed ++ [call config m.1], slow := slow } rest := by
  cases hlatency : send_latency config m.2 with
  | none => exact absurd (send_latency_eq_none_iff.mp hlatency) hm
  | some latency =>
    refine ⟨if latency > 1000000 then s.slow ++ [latency] else s.slow, ?_⟩
    rw [processBatch, hlatency]

theorem processBatch_ok (s : AgentSender) {batch : List (Text × Attempt)} (h : ∀ m ∈ batch, ¬ Fails config m.2) :
    (processBatch config s batch).handed = s.handed ++ batch.map (fun m => call config m.1) ∧
      (processBatch config s batch).status = s.status := by
  induction batch generalizing s with
  | nil => exact ⟨(List.append_nil _).symm, rfl⟩
  | cons m rest ih =>
    obtain ⟨hm, hrest⟩ := List.forall_mem_cons.mp h
    obtain ⟨slow, hbatch⟩ := processBatch_of_sent hm s rest
    obtain ⟨hhanded, hstatus⟩ := ih { s with handed := s.handed ++ [call config m.1], slow := slow } hrest
    rw [hbatch]
    refine ⟨?_, hstatus⟩
    rw [hhanded, List.map_cons, List.append_assoc, List.singleton_append]

theorem processBatch_terminates (s : AgentSender) {batch : List (Text × Attempt)}
    (h : ∃ m ∈ batch, Fails config m.2) : (processBatch config s batch).status = .terminated := by
  induction batch generalizing s with
  | nil =>
    obtain ⟨m, hmem, -⟩ := h
    cases hmem
  | cons m rest ih =>
    by_cases hm : Fails config m.2
    · rw [processBatch_of_fails hm]
    · obtain ⟨slow, hbatch⟩ := processBatch_of_sent hm s rest
      rw [hbatch]
      apply ih
      obtain ⟨m', hmem, hfails⟩ := h
      rcases List.mem_cons.mp hmem with rfl | hrest
      · exact absurd hfails hm
      · exact ⟨m', hrest, hfails⟩

theorem losesNothing_step_iff (s : AgentSender) (e : Event) : LosesNothing config s e ↔ NoneFails config s e := by
  constructor
  · intro hlost batch he hrunning
    have hstatus := (hlost batch he hrunning).2
    rw [he, step, if_pos hrunning] at hstatus
    intro m hm hfails
    have hterminated : (processBatch config s batch).status = .terminated := processBatch_terminates s ⟨m, hm, hfails⟩
    exact ThreadStatus.noConfusion (hterminated.symm.trans hstatus)
  · intro hnone batch he hrunning
    obtain ⟨hhanded, hstatus⟩ := processBatch_ok s (hnone batch he hrunning)
    rw [he, step, if_pos hrunning]
    exact ⟨hhanded, hstatus.trans hrunning⟩

end Batch

/-- A thread hands over every batch that it reads and reads on exactly if no sending fails. -/
theorem loses_nothing_iff (config : SenderConfig) (events : List Event) :
    Runs.Along (step config) (LosesNothing config) start events ↔
      Runs.Along (step config) (NoneFails config) start events :=
  Runs.along_congr_of_kept (P := fun _ => True) (fun _ _ _ _ => trivial) (fun s e _ => losesNothing_step_iff s e) trivial
    events

/-- A thread for TCP results. -/
def httpConfig : SenderConfig := ⟨"tcp".toList, ['1'], ['9'], 8080, "http".toList⟩

/-- The second message of the batch is lost with the first. -/
theorem not_loses_nothing :
    ¬ ∀ (config : SenderConfig) (events : List Event), Runs.Along (step config) (LosesNothing config) start events := by
  intro hall
  have hfirst := (hall httpConfig [.read [(['a'], .raises), (['b'], .answered 0)]]).1 _ rfl rfl
  cases hfirst.2

end AgentSender
end Pingweave
