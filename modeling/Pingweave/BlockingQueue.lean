import Pingweave.ReaderWriterQueueFifo

/-!
# Waiting for an element

`BlockingReaderWriterQueue` of `readerwriterqueue.h` with its `LightweightSemaphore` of
`atomicops.h`, as the threads use them: `try_enqueue` on one side, `wait_dequeue_timed` with a
positive timeout on the other. A wait may time out at any moment.
-/

namespace Pingweave
set_option autoImplicit false

universe u

namespace BlockingQueue

/-- The producer inside `try_enqueue`: in the queue, or at one of the two steps of `signal`. -/
inductive Signaller where
  | idle
  | enqueuing
  | fetchAdd
  | post
  deriving DecidableEq, Repr

/-- An accepted element that `m_count` does not count yet. -/
def Signaller.uncounted : Signaller → Nat
  | .fetchAdd => 1
  | _ => 0

/-- The consumer inside `wait_dequeue_timed`. -/
inductive Waiter where
  | idle
  /-- `tryWait` and the spinning: `spin` more loads follow. -/
  | load (spin : Nat)
  | fetchSub
  | giveUpSpinning
  | timedWait
  | restore
  | retry
  | tryWait
  | dequeuing
  deriving DecidableEq, Repr

inductive Action (T : Type u) where
  | tryEnqueue (x : T)
  | producer
  | waitDequeueTimed
  | consumer (timeout : Bool)
  deriving DecidableEq, Repr

end BlockingQueue

/-- `returned` records what `wait_dequeue_timed` has returned, and `missed`, for each call that
timed out, how many elements had been signalled by then and were still in the queue. -/
structure BlockingQueue (T : Type u) where
  inner : ReaderWriterQueue T
  m_count : Int
  m_sema : Nat
  signaller : BlockingQueue.Signaller
  waiter : BlockingQueue.Waiter
  fault : Bool
  returned : List (Option T)
  missed : List Nat

namespace BlockingQueue
variable {T : Type u}

def init (T : Type u) (size : UInt64) : BlockingQueue T where
  inner := ReaderWriterQueue.init T size
  m_count := 0
  m_sema := 0
  signaller := .idle
  waiter := .idle
  fault := false
  returned := []
  missed := []

/-- The elements in the queue whose `signal` has counted them. -/
def signalled (s : BlockingQueue T) : Nat :=
  s.inner.pending.length - s.signaller.uncounted

def tryEnqueue (s : BlockingQueue T) (x : T) : BlockingQueue T :=
  match s.signaller with
  | .idle => { s with inner := s.inner.tryEnqueue x, signaller := .enqueuing }
  | _ => s

/-- The next step of `try_enqueue`, and what the call returns if it ends here. -/
def enqueueStep (s : BlockingQueue T) : BlockingQueue T × Option Bool :=
  match s.signaller with
  | .idle => (s, none)
  | .enqueuing =>
    let call := s.inner.enqueueStep
    match call.2 with
    | none => ({ s with inner := call.1 }, none)
    | some true => ({ s with inner := call.1, signaller := .fetchAdd }, none)
    | some false => ({ s with inner := call.1, signaller := .idle }, some false)
  | .fetchAdd =>
    let oldCount := s.m_count
    let s' := { s with m_count := oldCount + 1 }
    if oldCount < -1 then ({ s' with fault := true }, none)
    else if oldCount < 0 then ({ s' with signaller := .post }, none)
    else ({ s' with signaller := .idle }, some true)
  | .post => ({ s with m_sema := s.m_sema + 1, signaller := .idle }, some true)

/-- `wait` has returned true: the call goes on to the queue. -/
def tryDequeue (s : BlockingQueue T) : BlockingQueue T :=
  { s with inner := s.inner.tryDequeue, waiter := .dequeuing }

def waitDequeueTimed (s : BlockingQueue T) : BlockingQueue T :=
  match s.waiter with
  | .idle => { s with waiter := .load 1024 }
  | _ => s

/-- The next step of `wait_dequeue_timed`, and what the call returns if it ends here. -/
def dequeueStep (s : BlockingQueue T) (timeout : Bool) : BlockingQueue T × Option (Option T) :=
  match s.waiter with
  | .idle => (s, none)
  | .load spin =>
    if s.m_count > 0 then ({ s with waiter := .fetchSub }, none)
    else match spin with
      | 0 => ({ s with waiter := .giveUpSpinning }, none)
      | spin + 1 => ({ s with waiter := .load spin }, none)
  | .fetchSub => (tryDequeue { s with m_count := s.m_count - 1 }, none)
  | .giveUpSpinning =>
    let oldCount := s.m_count
    let s' := { s with m_count := oldCount - 1 }
    if oldCount > 0 then (tryDequeue s', none) else ({ s' with waiter := .timedWait }, none)
  | .timedWait =>
    if timeout then ({ s with waiter := .restore }, none)
    else if 0 < s.m_sema then (tryDequeue { s with m_sema := s.m_sema - 1 }, none)
    else (s, none)
  | .restore =>
    let oldCount := s.m_count
    let s' := { s with m_count := oldCount + 1 }
    if oldCount < 0 then
      ({ s' with waiter := .idle, returned := s.returned ++ [none], missed := s.missed ++ [s.signalled] },
        some none)
    else ({ s' with waiter := .retry }, none)
  | .retry =>
    let oldCount := s.m_count
    let s' := { s with m_count := oldCount - 1 }
    if oldCount > 0 then ({ s' with waiter := .tryWait }, none) else ({ s' with waiter := .restore }, none)
  | .tryWait =>
    if 0 < s.m_sema then (tryDequeue { s with m_sema := s.m_sema - 1 }, none)
    else ({ s with waiter := .restore }, none)
  | .dequeuing =>
    let call := s.inner.dequeueStep
    match call.2 with
    | none => ({ s with inner := call.1 }, none)
    | some (some v) =>
      ({ s with inner := call.1, waiter := .idle, returned := s.returned ++ [some v] }, some (some v))
    | some none => ({ s with inner := call.1, fault := true }, none)

def step (s : BlockingQueue T) : Action T → BlockingQueue T
  | .tryEnqueue x => s.tryEnqueue x
  | .producer => s.enqueueStep.1
  | .waitDequeueTimed => s.waitDequeueTimed
  | .consumer timeout => (s.dequeueStep timeout).1

abbrev run (s : BlockingQueue T) (as : List (Action T)) : BlockingQueue T := Runs.run step s as

/-- `availableApprox`, which `size_approx` returns. -/
def sizeApprox (s : BlockingQueue T) : Nat := if s.m_count > 0 then s.m_count.toNat else 0

end BlockingQueue

namespace ReaderWriterQueue
variable {T : Type u}

/-- The element of the call under way. -/
def Producer.inFlight : Producer T → List T
  | .idle => []
  | .loadFront x | .construct x | .storeTail x | .loadFrontBlock x _ | .loadNextFront x
  | .constructNext x | .storeNextTail x | .storeTailBlock x => [x]

/-- What a step of `try_enqueue` can do to the calls of both threads. -/
theorem enqueueStep_cases (s : ReaderWriterQueue T) (h : s.producer ≠ .idle) :
    s.enqueueStep.1.consumer = s.consumer ∧ s.enqueueStep.1.dequeued = s.dequeued ∧
    (s.enqueueStep.2 = none ∧ s.enqueueStep.1.producer ≠ .idle ∧ s.enqueueStep.1.accepted = s.accepted ∧
        s.enqueueStep.1.producer.inFlight = s.producer.inFlight ∧
        s.enqueueStep.1.rejected = s.rejected ∨
      s.enqueueStep.2 = some false ∧ s.enqueueStep.1.producer = .idle ∧
        s.enqueueStep.1.accepted = s.accepted ∧
        (∃ x n, s.producer.inFlight = [x] ∧ s.enqueueStep.1.rejected = s.rejected ++ [(x, n)]) ∨
      s.enqueueStep.2 = some true ∧ s.enqueueStep.1.producer = .idle ∧
        ∃ x, s.enqueueStep.1.accepted = s.accepted ++ [x] ∧ s.producer.inFlight = [x] ∧
          s.enqueueStep.1.rejected = s.rejected) := by
  rw [enqueueStep]
  cases hp : s.producer with
  | idle => exact absurd hp h
  | loadFront x =>
    dsimp only
    split
    · exact ⟨rfl, rfl, Or.inl ⟨rfl, (by simp), rfl, rfl, rfl⟩⟩
    · exact ⟨rfl, rfl, Or.inl ⟨rfl, (by simp), rfl, rfl, rfl⟩⟩
  | construct x => exact ⟨rfl, rfl, Or.inl ⟨rfl, (by simp), rfl, rfl, rfl⟩⟩
  | storeTail x => exact ⟨rfl, rfl, Or.inr (Or.inr ⟨rfl, rfl, x, rfl, rfl, rfl⟩)⟩
  | loadFrontBlock x pending =>
    dsimp only
    split
    · exact ⟨rfl, rfl, Or.inl ⟨rfl, (by simp), rfl, rfl, rfl⟩⟩
    · exact ⟨rfl, rfl, Or.inr (Or.inl ⟨rfl, rfl, rfl, x, pending, rfl, rfl⟩)⟩
  | loadNextFront x =>
    dsimp only
    split
    · exact ⟨rfl, rfl, Or.inl ⟨rfl, (by simp), rfl, rfl, rfl⟩⟩
    · exact ⟨rfl, rfl, Or.inl ⟨rfl, by simp [setBlock, hp], rfl, by simp [setBlock, hp], rfl⟩⟩
  | constructNext x => exact ⟨rfl, rfl, Or.inl ⟨rfl, (by simp), rfl, rfl, rfl⟩⟩
  | storeNextTail x => exact ⟨rfl, rfl, Or.inl ⟨rfl, (by simp), rfl, rfl, rfl⟩⟩
  | storeTailBlock x => exact ⟨rfl, rfl, Or.inr (Or.inr ⟨rfl, rfl, x, rfl, rfl, rfl⟩)⟩

/-- What a step of `try_dequeue` can do to the calls of both threads. -/
theorem dequeueStep_cases (s : ReaderWriterQueue T) (h : s.consumer ≠ .idle) :
    s.dequeueStep.1.producer = s.producer ∧ s.dequeueStep.1.accepted = s.accepted ∧
    s.dequeueStep.1.rejected = s.rejected ∧
    (s.dequeueStep.2 = none ∧ s.dequeueStep.1.consumer ≠ .idle ∧ s.dequeueStep.1.dequeued = s.dequeued ∧
        (∀ n, s.dequeueStep.1.consumer = .loadTailBlock n → n = s.pending.length) ∨
      s.dequeueStep.2 = some none ∧ s.dequeueStep.1.consumer = .idle ∧
        s.dequeueStep.1.dequeued = s.dequeued ∧ s.frontBlock = s.tailBlock ∧
        (∃ n, s.consumer = .loadTailBlock n) ∨
      ∃ v, s.dequeueStep.2 = some (some v) ∧ s.dequeueStep.1.consumer = .idle ∧
        s.dequeueStep.1.dequeued = s.dequeued ++ [v]) := by
  rw [dequeueStep]
  cases hc : s.consumer with
  | idle => exact absurd hc h
  | loadTail =>
    dsimp only
    split
    · exact ⟨rfl, rfl, rfl, Or.inl ⟨rfl, (by simp), rfl, (by simp)⟩⟩
    · exact ⟨rfl, rfl, rfl, Or.inl ⟨rfl, (by simp), rfl, fun n hn => by cases hn; rfl⟩⟩
  | loadTailBlock pending =>
    dsimp only
    split
    · exact ⟨rfl, rfl, rfl, Or.inl ⟨rfl, (by simp), rfl, (by simp)⟩⟩
    · rename_i heq
      exact ⟨rfl, rfl, rfl, Or.inr (Or.inl ⟨rfl, rfl, rfl, not_not.mp heq, pending, rfl⟩)⟩
  | reloadTail =>
    dsimp only
    split
    · exact ⟨rfl, rfl, rfl, Or.inl ⟨rfl, (by simp), rfl, (by simp)⟩⟩
    · exact ⟨rfl, rfl, rfl, Or.inl ⟨rfl, (by simp), rfl, (by simp)⟩⟩
  | loadNextTail =>
    dsimp only
    split
    · exact ⟨rfl, rfl, rfl, Or.inl ⟨rfl, (by simp), rfl, (by simp)⟩⟩
    · exact ⟨rfl, rfl, rfl, Or.inl ⟨rfl, by simp [setBlock, hc], rfl, by simp [setBlock, hc]⟩⟩
  | storeFrontBlock => exact ⟨rfl, rfl, rfl, Or.inl ⟨rfl, (by simp), rfl, (by simp)⟩⟩
  | takeElement =>
    dsimp only
    split
    · exact ⟨rfl, rfl, rfl, Or.inl ⟨rfl, (by simp), rfl, (by simp)⟩⟩
    · exact ⟨rfl, rfl, rfl, Or.inl ⟨rfl, (by simp), rfl, (by simp)⟩⟩
  | storeFront v => exact ⟨rfl, rfl, rfl, Or.inr (Or.inr ⟨v, rfl, rfl, rfl⟩)⟩

theorem tryEnqueue_same (s : ReaderWriterQueue T) (x : T) :
    (s.tryEnqueue x).consumer = s.consumer ∧ (s.tryEnqueue x).dequeued = s.dequeued ∧
      (s.tryEnqueue x).accepted = s.accepted ∧ (s.tryEnqueue x).rejected = s.rejected := by
  rw [tryEnqueue]
  cases s.producer with
  | idle =>
    dsimp only
    split
    · exact ⟨rfl, rfl, rfl, rfl⟩
    · exact ⟨rfl, rfl, rfl, rfl⟩
  | _ => exact ⟨rfl, rfl, rfl, rfl⟩

theorem tryEnqueue_inFlight (s : ReaderWriterQueue T) (x : T) (h : s.producer = .idle) :
    (s.tryEnqueue x).producer.inFlight = [x] := by
  rw [tryEnqueue, h]
  dsimp only
  split
  · rfl
  · rfl

theorem tryEnqueue_producer (s : ReaderWriterQueue T) (x : T) : (s.tryEnqueue x).producer ≠ .idle := by
  rw [tryEnqueue]
  cases hp : s.producer with
  | idle =>
    dsimp only
    split
    · exact (by simp)
    · exact (by simp)
  | _ => simp [hp]

theorem tryDequeue_same (s : ReaderWriterQueue T) (h : s.consumer = .idle) :
    s.tryDequeue.producer = s.producer ∧ s.tryDequeue.dequeued = s.dequeued ∧
      s.tryDequeue.accepted = s.accepted ∧ s.tryDequeue.rejected = s.rejected ∧
      s.tryDequeue.consumer ≠ .idle ∧ ∀ n, s.tryDequeue.consumer ≠ .loadTailBlock n := by
  rw [tryDequeue, h]
  dsimp only
  split
  · exact ⟨rfl, rfl, rfl, rfl, (by simp), (by simp)⟩
  · exact ⟨rfl, rfl, rfl, rfl, (by simp), (by simp)⟩

end ReaderWriterQueue
end Pingweave
