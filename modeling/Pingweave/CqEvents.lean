import Pingweave.Format
import Pingweave.Library.Runs

/-!
# Completion events

The event loops around `wait_for_cq_event` and the four `*_process_*_cqe` functions. A completion
that arrives while its queue is armed raises an event and disarms the queue. What a loop does with
a polled completion matters here only in that it may throw, and the thread ends then.
-/

namespace Pingweave
set_option autoImplicit false

/-- How a loop polls: one completion at a time until the queue is empty with `rnic_hw_ts`, one
batch otherwise. `returnsOnEmpty` tells a return after an empty poll from a throw. -/
structure EventLoop where
  rnic_hw_ts : Bool
  returnsOnEmpty : Bool
  deriving DecidableEq, Repr

def clientProcessRxCqe (rnic_hw_ts : Bool) : EventLoop := ⟨rnic_hw_ts, false⟩
def clientProcessTxCqe (rnic_hw_ts : Bool) : EventLoop := ⟨rnic_hw_ts, true⟩
def serverProcessRxCqe (rnic_hw_ts : Bool) : EventLoop := ⟨rnic_hw_ts, false⟩
def serverProcessTxCqe (rnic_hw_ts : Bool) : EventLoop := ⟨rnic_hw_ts, false⟩

/-- Where a loop stands: `start` is before the first `ibv_req_notify_cq`, `notify` before that at
the end of each round. -/
inductive CqPc where
  | start
  | waiting
  | polling (has_events : Bool)
  | notify
  | failed
  deriving DecidableEq, Repr

/-- A completion queue with the ids of its completions, its pending events, and its loop. -/
structure CqState where
  cq : List UInt64
  armed : Bool
  events : Nat
  pc : CqPc
  deriving DecidableEq, Repr

namespace EventLoop

/-- `ok` says whether a call of the loop succeeds and, for a poll, whether the handling of what it
returns does. -/
inductive Action where
  | complete (wr_id : UInt64)
  | reqNotify (ok : Bool)
  | waitForCqEvent (ok : Bool)
  | poll (ok : Bool)
  deriving DecidableEq, Repr

def init : CqState := ⟨[], false, 0, .start⟩

def step (l : EventLoop) (s : CqState) : Action → CqState
  | .complete wr_id =>
    if s.armed then { s with cq := s.cq ++ [wr_id], armed := false, events := s.events + 1 }
    else { s with cq := s.cq ++ [wr_id] }
  | .reqNotify ok =>
    match s.pc with
    | .start | .notify =>
      if ok then { s with armed := true, pc := .waiting } else { s with pc := .failed }
    | _ => s
  | .waitForCqEvent ok =>
    match s.pc, s.events with
    | .waiting, n + 1 =>
      if ok then { s with events := n, pc := .polling false } else { s with pc := .failed }
    | _, _ => s
  | .poll ok =>
    match s.pc, s.cq with
    | .polling false, [] => { s with pc := if l.returnsOnEmpty then .waiting else .failed }
    | .polling true, [] => { s with pc := .notify }
    | .polling _, _ :: rest =>
      let cq := if l.rnic_hw_ts then rest else s.cq.drop BATCH_CQE
      let pc := if l.rnic_hw_ts then .polling true else .notify
      { s with cq := cq, pc := if ok then pc else .failed }
    | _, _ => s

def run (l : EventLoop) (as : List Action) : CqState := Runs.run l.step init as

/-- A loop that blocks has nothing left to do and will be woken. -/
def Awake (s : CqState) : Prop := s.pc = .waiting → s.events = 0 → s.armed = true ∧ s.cq = []

/-- Notifications are only requested for an empty queue. -/
def NotifiesEmpty (s : CqState) : Action → Prop
  | .reqNotify true => s.pc = .start ∨ s.pc = .notify → s.cq = []
  | _ => True

/-- What holds of each place of a loop, whenever completions arrive. -/
def Wf (s : CqState) : Prop :=
  match s.pc with
  | .start | .polling true | .notify => s.armed = false ∧ s.events = 0
  | .polling false => s.armed = false ∧ s.events = 0 ∧ s.cq ≠ []
  | .waiting => s.armed = true ∧ s.events = 0 ∨ s.armed = false ∧ s.events = 1 ∧ s.cq ≠ []
  | .failed => True

variable {l : EventLoop} {s : CqState}

theorem wf_init : Wf init := ⟨rfl, rfl⟩

theorem Wf.step (h : Wf s) (a : Action) : Wf (l.step s a) := by
  obtain ⟨cq, armed, events, pc⟩ := s
  cases a with
  | complete wr_id =>
    cases armed with
    | true =>
      cases pc with
      | waiting =>
        obtain ⟨-, hev⟩ | ⟨hf, -⟩ := h
        · exact Or.inr ⟨rfl, congrArg (· + 1) hev, List.append_ne_nil_of_right_ne_nil _ (List.cons_ne_nil _ _)⟩
        · cases hf
      | polling has_events => cases has_events <;> cases h.1
      | failed => trivial
      | _ => cases h.1
    | false =>
      cases pc with
      | waiting =>
        obtain ⟨hf, -⟩ | ⟨-, hev, -⟩ := h
        · cases hf
        · exact Or.inr ⟨rfl, hev, List.append_ne_nil_of_right_ne_nil _ (List.cons_ne_nil _ _)⟩
      | polling has_events =>
        cases has_events with
        | true => exact h
        | false => exact ⟨rfl, h.2.1, List.append_ne_nil_of_right_ne_nil _ (List.cons_ne_nil _ _)⟩
      | failed => trivial
      | _ => exact h
  | reqNotify ok =>
    cases pc with
    | start | notify =>
      cases ok with
      | true => exact Or.inl ⟨rfl, h.2⟩
      | false => trivial
    | _ => exact h
  | waitForCqEvent ok =>
    cases pc with
    | waiting =>
      cases events with
      | zero => exact h
      | succ n =>
        cases ok with
        | false => trivial
        | true =>
          obtain ⟨-, hev⟩ | ⟨harmed, hev, hcq⟩ := h
          · cases hev
          · exact ⟨harmed, Nat.succ.inj hev, hcq⟩
    | _ => exact h
  | poll ok =>
    cases pc with
    | polling has_events =>
      have hidle : armed = false ∧ events = 0 := by
        cases has_events with
        | true => exact h
        | false => exact ⟨h.1, h.2.1⟩
      cases cq with
      | nil =>
        cases has_events with
        | true => exact hidle
        | false => exact absurd rfl h.2.2
      | cons wr_id rest =>
        cases ok with
        | false => cases has_events <;> trivial
        | true =>
          obtain ⟨hw, onEmpty⟩ := l
          cases has_events <;> cases hw <;> exact hidle
    | _ => exact h

/-- The early return of `client_process_tx_cqe` and the throws of its siblings are never taken. -/
theorem Wf.poll_nonempty (h : Wf s) (hpc : s.pc = .polling false) : s.cq ≠ [] := by
  unfold Wf at h
  rw [hpc] at h
  exact h.2.2

theorem run_wf (as : List Action) : Wf (l.run as) :=
  Runs.run_invariant (fun _ a h => h.step a) wf_init as

def ArmedEmpty (s : CqState) : Prop := s.armed = true → s.cq = []

theorem ArmedEmpty.step (h : ArmedEmpty s) {a : Action} (ha : NotifiesEmpty s a) :
    ArmedEmpty (l.step s a) := by
  obtain ⟨cq, armed, events, pc⟩ := s
  cases a with
  | complete wr_id =>
    cases armed with
    | true => intro hf; cases hf
    | false => intro hf; cases hf
  | reqNotify ok =>
    cases pc with
    | start | notify =>
      cases ok with
      | true =>
        intro _
        exact ha (by simp)
      | false => exact h
    | _ => exact h
  | waitForCqEvent ok =>
    cases pc with
    | waiting => cases events <;> cases ok <;> exact h
    | _ => exact h
  | poll ok =>
    cases pc with
    | polling has_events =>
      cases cq with
      | nil => cases has_events <;> exact h
      | cons wr_id rest =>
        intro harmed
        have harm : armed = true := by cases has_events <;> exact harmed
        cases h harm
    | _ => exact h

/-- Every state of a run is awake exactly when the run requests notifications only for an empty
queue. -/
theorem awake_iff (l : EventLoop) (as : List Action) :
    (∀ n, Awake (l.run (as.take n))) ↔ Runs.Along l.step NotifiesEmpty init as := by
  constructor
  · intro hawake
    rw [Runs.along_iff]
    intro n a ha
    have hnext := hawake (n + 1)
    rw [List.take_add_one, ha, Option.toList_some, run, Runs.run_concat] at hnext
    have hwf : Wf (Runs.run l.step init (as.take n)) := run_wf (as.take n)
    generalize Runs.run l.step init (as.take n) = s at hnext hwf
    obtain ⟨cq, armed, events, pc⟩ := s
    cases a with
    | reqNotify ok =>
      cases ok with
      | false => trivial
      | true =>
        rintro (rfl | rfl)
        · exact (hnext rfl hwf.2).2
        · exact (hnext rfl hwf.2).2
    | _ => trivial
  · intro hempty n hpc hev
    have harmed : ArmedEmpty (l.run (as.take n)) :=
      Runs.run_invariant_along (fun _ _ h ha => h.step ha) (fun h => by cases h) (hempty.take n)
    have hwf : Wf (l.run (as.take n)) := run_wf (as.take n)
    unfold Wf at hwf
    rw [hpc] at hwf
    obtain ⟨h, -⟩ | ⟨-, hone, -⟩ := hwf
    · exact ⟨h, harmed h⟩
    · rw [hev] at hone
      cases hone

/-- No completion arrives between the last poll and the request, nor before the first request, and
none is left behind by a batch. -/
def Quiet (l : EventLoop) (s : CqState) : Action → Prop
  | .complete _ => s.pc ≠ .start ∧ s.pc ≠ .notify
  | .poll _ => l.rnic_hw_ts = false → s.cq.length ≤ BATCH_CQE
  | _ => True

theorem notifiesEmpty_of_quiet (l : EventLoop) (as : List Action)
    (h : Runs.Along l.step l.Quiet init as) : Runs.Along l.step NotifiesEmpty init as := by
  refine Runs.along_of_invariant (P := fun s => s.pc = .start ∨ s.pc = .notify → s.cq = []) ?_ ?_
    (fun _ => rfl) h
  · rintro ⟨cq, armed, events, pc⟩ a hs hq
    cases a with
    | complete wr_id =>
      cases armed <;> exact fun hpc => absurd hpc (not_or.mpr hq)
    | reqNotify ok =>
      cases pc <;> cases ok <;> first | exact hs | (rintro (hpc | hpc) <;> cases hpc)
    | waitForCqEvent ok =>
      cases pc with
      | waiting => cases events <;> cases ok <;> first | exact hs | (rintro (hpc | hpc) <;> cases hpc)
      | _ => exact hs
    | poll ok =>
      cases pc with
      | polling has_events =>
        cases cq with
        | nil => exact fun _ => by cases has_events <;> rfl
        | cons wr_id rest =>
          obtain ⟨hw, onEmpty⟩ := l
          cases hw with
          | true => cases has_events <;> cases ok <;> (rintro (hpc | hpc) <;> cases hpc)
          | false =>
            intro _
            have hdrop : (wr_id :: rest).drop BATCH_CQE = [] := List.drop_eq_nil_of_le (hq rfl)
            cases has_events <;> exact hdrop
      | _ => exact hs
  · intro s a hs _
    cases a with
    | reqNotify ok =>
      cases ok with
      | true => exact hs
      | false => trivial
    | _ => trivial

/-- The second completion arrives between the poll and the request. -/
def missedActions : List Action :=
  [.reqNotify true, .complete 1, .waitForCqEvent true, .poll true, .complete 2, .reqNotify true]

theorem not_always_awake :
    ¬ ∀ (l : EventLoop) (as : List Action) (n : Nat), Awake (l.run (as.take n)) := by
  intro h
  obtain ⟨-, hcq⟩ := h (clientProcessRxCqe false) missedActions 6 (by decide) (by decide)
  exact absurd hcq (by decide)

end EventLoop
end Pingweave
