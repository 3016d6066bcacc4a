import Pingweave.BlockingQueue

/-!
# What waiting for an element guarantees

The semaphore never runs ahead of the queue: a consumer that it lets through finds an element,
in the order of the accepted ones, and a consumer that sleeps although an element has been
signalled is about to be woken.
-/

namespace Pingweave
namespace BlockingQueue
set_option autoImplicit false

universe u
variable {T : Type u}

/-- A wake-up on its way to `m_sema`. -/
def Signaller.unposted : Signaller → Nat
  | .post => 1
  | _ => 0

/-- An element that `m_count` counts no more although it is still in the queue. -/
def Waiter.claimed : Waiter → Nat
  | .timedWait | .restore | .tryWait | .dequeuing => 1
  | _ => 0

/-- The values of `m_count` and the wake-ups there can be at each place of the consumer. -/
def SemaphoreOk (m_count : Int) (wakeups : Nat) : Waiter → Prop
  | .timedWait | .restore => -1 ≤ m_count ∧ wakeups = if 0 ≤ m_count then 1 else 0
  | .retry => 1 ≤ m_count ∧ wakeups = 1
  | .tryWait => 0 ≤ m_count ∧ wakeups = 1
  | .fetchSub => 1 ≤ m_count ∧ wakeups = 0
  | _ => 0 ≤ m_count ∧ wakeups = 0

structure Inv (e capacity : Nat) (s : BlockingQueue T) : Prop where
  inner : s.inner.Inv e capacity
  count : (s.inner.accepted.length : Int) =
    s.inner.dequeued.length + s.m_count + s.signaller.uncounted + s.waiter.claimed
  semaphore : SemaphoreOk s.m_count (s.m_sema + s.signaller.unposted) s.waiter
  producer : s.inner.producer ≠ .idle ↔ s.signaller = .enqueuing
  consumer : s.inner.consumer ≠ .idle ↔ s.waiter = .dequeuing
  found : ∀ n, s.inner.consumer = .loadTailBlock n → 0 < n
  delivered : s.returned.filterMap id = s.inner.dequeued
  missed : ∀ n ∈ s.missed, n = 0
  sound : s.fault = false

theorem SemaphoreOk.ge {m_count : Int} {wakeups : Nat} {w : Waiter} (h : SemaphoreOk m_count wakeups w) :
    -1 ≤ m_count := by
  cases w <;> exact Int.le_trans (by decide) h.1

/-- Counting an element, with a wake-up where the consumer has given up spinning. -/
theorem SemaphoreOk.fetchAdd {m_count : Int} {wakeups : Nat} {w : Waiter}
    (h : SemaphoreOk m_count wakeups w) :
    SemaphoreOk (m_count + 1) (wakeups + if m_count < 0 then 1 else 0) w := by
  have hasleep : -1 ≤ m_count → wakeups = (if 0 ≤ m_count then 1 else 0) →
      -1 ≤ m_count + 1 ∧ (wakeups + if m_count < 0 then 1 else 0) = if 0 ≤ m_count + 1 then 1 else 0 := by
    intro hge hwake
    rw [if_pos (by omega : 0 ≤ m_count + 1)]
    split at hwake
    · rw [if_neg (by omega)]
      omega
    · rw [if_pos (by omega)]
      omega
  cases w with
  | timedWait => exact hasleep h.1 h.2
  | restore => exact hasleep h.1 h.2
  | _ =>
    obtain ⟨hge, hwake⟩ := h
    rw [if_neg (by omega)]
    exact ⟨by omega, hwake⟩

namespace Inv
variable {e capacity : Nat} {s : BlockingQueue T}

theorem length_pending (h : s.Inv e capacity) :
    (s.inner.pending.length : Int) = s.m_count + s.signaller.uncounted + s.waiter.claimed := by
  have hcount := h.count
  obtain ⟨lay, k, -, hacc, -, -⟩ := h.inner.laid
  rw [hacc, List.length_append] at hcount
  rw [ReaderWriterQueue.Inv.pending_eq hacc]
  omega

theorem tryEnqueue (h : s.Inv e capacity) (x : T) : (s.tryEnqueue x).Inv e capacity := by
  rw [BlockingQueue.tryEnqueue]
  cases hs : s.signaller with
  | idle =>
    obtain ⟨hcons, hdeq, hacc, -⟩ := s.inner.tryEnqueue_same x
    have hcount := h.count
    have hsema := h.semaphore
    rw [hs] at hcount hsema
    refine ⟨h.inner.tryEnqueue x, ?_, hsema, iff_of_true (s.inner.tryEnqueue_producer x) rfl, ?_, ?_, ?_,
      h.missed, h.sound⟩
    · dsimp only
      rw [hacc, hdeq]
      exact hcount
    · dsimp only
      rw [hcons]
      exact h.consumer
    · dsimp only
      rw [hcons]
      exact h.found
    · exact h.delivered.trans hdeq.symm
  | _ => exact h

theorem enqueueStep (h : s.Inv e capacity) : s.enqueueStep.1.Inv e capacity := by
  have hcount := h.count
  have hsema := h.semaphore
  rw [BlockingQueue.enqueueStep]
  cases hs : s.signaller with
  | idle => exact h
  | enqueuing =>
    rw [hs] at hcount hsema
    obtain ⟨hcons, hdeq, hcases⟩ := s.inner.enqueueStep_cases (h.producer.mpr hs)
    have hinner := h.inner.enqueueStep
    have hconsumer : s.inner.enqueueStep.1.consumer ≠ .idle ↔ s.waiter = .dequeuing := by
      rw [hcons]
      exact h.consumer
    have hfound : ∀ n, s.inner.enqueueStep.1.consumer = .loadTailBlock n → 0 < n := by
      rw [hcons]
      exact h.found
    have hdelivered := h.delivered.trans hdeq.symm
    dsimp only
    rcases hcases with ⟨hret, hprod, hacc, -⟩ | ⟨hret, hprod, hacc, -⟩ | ⟨hret, hprod, x, hacc, -⟩
    · rw [hret]
      refine ⟨hinner, ?_, hsema, iff_of_true hprod rfl, hconsumer, hfound, hdelivered, h.missed, h.sound⟩
      dsimp only
      rw [hacc, hdeq]
      exact hcount
    · rw [hret]
      refine ⟨hinner, ?_, hsema, iff_of_false (not_not.mpr hprod) (by simp), hconsumer, hfound, hdelivered,
        h.missed, h.sound⟩
      dsimp only
      rw [hacc, hdeq]
      exact hcount
    · rw [hret]
      refine ⟨hinner, ?_, hsema, iff_of_false (not_not.mpr hprod) (by simp), hconsumer, hfound, hdelivered,
        h.missed, h.sound⟩
      dsimp only
      rw [hacc, hdeq, List.length_append, List.length_singleton]
      simp only [Signaller.uncounted] at hcount ⊢
      omega
  | fetchAdd =>
    rw [hs] at hcount hsema
    have hidle : ¬ s.inner.producer ≠ .idle := fun hne => by
      have hbusy := h.producer.mp hne
      rw [hs] at hbusy
      cases hbusy
    have hadd := hsema.fetchAdd
    dsimp only
    rw [if_neg (by have := hsema.ge; omega)]
    split
    · rename_i hneg
      rw [if_pos hneg] at hadd
      refine ⟨h.inner, ?_, hadd, iff_of_false hidle (by simp), h.consumer, h.found, h.delivered, h.missed,
        h.sound⟩
      simp only [Signaller.uncounted] at hcount ⊢
      omega
    · rename_i hneg
      rw [if_neg hneg] at hadd
      refine ⟨h.inner, ?_, hadd, iff_of_false hidle (by simp), h.consumer, h.found, h.delivered, h.missed,
        h.sound⟩
      simp only [Signaller.uncounted] at hcount ⊢
      omega
  | post =>
    rw [hs] at hcount hsema
    have hidle : ¬ s.inner.producer ≠ .idle := fun hne => by
      have hbusy := h.producer.mp hne
      rw [hs] at hbusy
      cases hbusy
    exact ⟨h.inner, hcount, hsema, iff_of_false hidle (by simp), h.consumer, h.found, h.delivered, h.missed,
      h.sound⟩

theorem waitDequeueTimed (h : s.Inv e capacity) : s.waitDequeueTimed.Inv e capacity := by
  have hcount := h.count
  have hsema := h.semaphore
  have hcons := h.consumer
  rw [BlockingQueue.waitDequeueTimed]
  cases hw : s.waiter with
  | idle =>
    rw [hw] at hcount hsema hcons
    exact ⟨h.inner, hcount, hsema, h.producer,
      iff_of_false (fun hne => absurd (hcons.mp hne) (by simp)) (by simp), h.found, h.delivered, h.missed, h.sound⟩
  | _ => exact h

/-- A step of the consumer that leaves the queue alone. -/
theorem wait (h : s.Inv e capacity) (hbusy : s.waiter ≠ .dequeuing) (w : Waiter) (m_count : Int)
    (hw : w ≠ .dequeuing) (hcount : m_count + w.claimed = s.m_count + s.waiter.claimed)
    (hsema : SemaphoreOk m_count (s.m_sema + s.signaller.unposted) w) :
    Inv e capacity { s with m_count := m_count, waiter := w } :=
  ⟨h.inner, by have := h.count; dsimp only; omega, hsema, h.producer,
    iff_of_false (fun hne => hbusy (h.consumer.mp hne)) hw, h.found, h.delivered, h.missed, h.sound⟩

/-- The step in which the semaphore lets the consumer through. -/
theorem tryDequeue (h : s.Inv e capacity) (hbusy : s.waiter ≠ .dequeuing) (m_count : Int) (m_sema : Nat)
    (hcount : m_count + 1 = s.m_count + s.waiter.claimed) (hge : 0 ≤ m_count)
    (hsema : m_sema + s.signaller.unposted = 0) :
    (BlockingQueue.tryDequeue { s with m_count := m_count, m_sema := m_sema }).Inv e capacity := by
  have hidle : s.inner.consumer = .idle := not_not.mp fun hne => hbusy (h.consumer.mp hne)
  obtain ⟨hprod, hdeq, hacc, -, hne, hnot⟩ := s.inner.tryDequeue_same hidle
  refine ⟨h.inner.tryDequeue, ?_, ⟨hge, hsema⟩, ?_, iff_of_true hne rfl, ?_, ?_, h.missed, h.sound⟩
  · have := h.count
    dsimp only [BlockingQueue.tryDequeue, Waiter.claimed]
    rw [hacc, hdeq]
    omega
  · dsimp only [BlockingQueue.tryDequeue]
    rw [hprod]
    exact h.producer
  · exact fun n hn => absurd hn (hnot n)
  · exact h.delivered.trans hdeq.symm

/-- The consumer finds the queue empty only where it was when its block was. -/
theorem not_missed (h : s.Inv e capacity) {n : Nat} (hc : s.inner.consumer = .loadTailBlock n) :
    s.inner.frontBlock ≠ s.inner.tailBlock := by
  obtain ⟨lay, k, hlay, -, -, hcons⟩ := h.inner.laid
  intro heq
  rw [hc] at hcons
  have hzero : n = 0 := hcons (hlay.front_eq_tail.mp heq)
  exact absurd hzero (Nat.ne_of_gt (h.found n hc))

theorem dequeueStep (h : s.Inv e capacity) (timeout : Bool) : (s.dequeueStep timeout).1.Inv e capacity := by
  have hsema := h.semaphore
  have hwait := h.wait
  have hthrough := h.tryDequeue
  rw [BlockingQueue.dequeueStep]
  cases hw : s.waiter with
  | idle => exact h
  | load spin =>
    rw [hw] at hsema hwait
    dsimp only
    split
    · rename_i hpos
      exact hwait (by simp) .fetchSub s.m_count (by simp) rfl ⟨hpos, hsema.2⟩
    · split
      · exact hwait (by simp) .giveUpSpinning s.m_count (by simp) rfl hsema
      · exact hwait (by simp) (.load _) s.m_count (by simp) rfl hsema
  | fetchSub =>
    rw [hw] at hsema hthrough
    obtain ⟨hge, hwake⟩ := hsema
    exact hthrough (by simp) (s.m_count - 1) s.m_sema (by simp [Waiter.claimed]) (by omega) hwake
  | giveUpSpinning =>
    rw [hw] at hsema hwait hthrough
    obtain ⟨hge, hwake⟩ := hsema
    dsimp only
    split
    · exact hthrough (by simp) (s.m_count - 1) s.m_sema (by simp [Waiter.claimed]) (by omega) hwake
    · refine hwait (by simp) .timedWait (s.m_count - 1) (by simp) (by simp [Waiter.claimed]) ⟨by omega, ?_⟩
      rw [hwake, if_neg (by omega)]
  | timedWait =>
    rw [hw] at hsema hwait hthrough
    dsimp only
    split
    · exact hwait (by simp) .restore s.m_count (by simp) rfl hsema
    · split
      · obtain ⟨hge, hwake⟩ := hsema
        split at hwake
        · exact hthrough (by simp) s.m_count (s.m_sema - 1) rfl (by assumption) (by omega)
        · omega
      · exact h
  | restore =>
    rw [hw] at hsema hwait
    obtain ⟨hge, hwake⟩ := hsema
    dsimp only
    split
    · rw [if_neg (by omega)] at hwake
      have hidle := hwait (by simp) .idle (s.m_count + 1) (by simp) (by simp [Waiter.claimed]) ⟨by omega, hwake⟩
      refine { hidle with delivered := ?_, missed := ?_ }
      · dsimp only
        rw [List.filterMap_append, h.delivered]
        exact List.append_nil _
      · intro n hn
        rcases List.mem_append.mp hn with hold | hnew
        · exact h.missed n hold
        · -- nothing is counted, so the queue holds at most what is about to be counted
          have hlen := h.length_pending
          rw [hw] at hlen
          simp only [Waiter.claimed] at hlen
          rw [List.mem_singleton.mp hnew, signalled]
          omega
    · rw [if_pos (by omega)] at hwake
      exact hwait (by simp) .retry (s.m_count + 1) (by simp) (by simp [Waiter.claimed]) ⟨by omega, hwake⟩
  | retry =>
    rw [hw] at hsema hwait
    obtain ⟨hge, hwake⟩ := hsema
    dsimp only
    rw [if_pos (by omega)]
    exact hwait (by simp) .tryWait (s.m_count - 1) (by simp) (by simp [Waiter.claimed]) ⟨by omega, hwake⟩
  | tryWait =>
    rw [hw] at hsema hwait hthrough
    obtain ⟨hge, hwake⟩ := hsema
    dsimp only
    split
    · exact hthrough (by simp) s.m_count (s.m_sema - 1) rfl hge (by omega)
    · refine hwait (by simp) .restore s.m_count (by simp) rfl ⟨by omega, ?_⟩
      rw [hwake, if_pos hge]
  | dequeuing =>
    rw [hw] at hsema
    obtain ⟨hge, hwake⟩ := hsema
    obtain ⟨hprod, hacc, -, hcases⟩ := s.inner.dequeueStep_cases (h.consumer.mpr hw)
    have hinner := h.inner.dequeueStep
    have hproducer : s.inner.dequeueStep.1.producer ≠ .idle ↔ s.signaller = .enqueuing := by
      rw [hprod]
      exact h.producer
    have hcount := h.count
    have hlen := h.length_pending
    rw [hw] at hcount hlen
    simp only [Waiter.claimed] at hcount hlen
    dsimp only
    rcases hcases with ⟨hret, hcons, hdeq, hfound⟩ | ⟨-, -, -, heq, n, hn⟩ | ⟨v, hret, hcons, hdeq⟩
    · rw [hret]
      refine ⟨hinner, ?_, ⟨hge, hwake⟩, hproducer, iff_of_true hcons rfl, ?_,
        h.delivered.trans hdeq.symm, h.missed, h.sound⟩
      · dsimp only
        rw [hacc, hdeq]
        exact hcount
      · intro n hn
        rw [hfound n hn]
        omega
    · exact absurd heq (h.not_missed hn)
    · rw [hret]
      refine ⟨hinner, ?_, ⟨hge, hwake⟩, hproducer, iff_of_false (not_not.mpr hcons) (by simp), ?_, ?_,
        h.missed, h.sound⟩
      · dsimp only
        rw [hacc, hdeq, List.length_append, List.length_singleton]
        simp only [Waiter.claimed]
        omega
      · intro n hn
        rw [hcons] at hn
        cases hn
      · dsimp only
        rw [List.filterMap_append, h.delivered, hdeq]
        rfl

theorem step (h : s.Inv e capacity) (a : Action T) : (s.step a).Inv e capacity := by
  cases a with
  | tryEnqueue x => exact h.tryEnqueue x
  | producer => exact h.enqueueStep
  | waitDequeueTimed => exact h.waitDequeueTimed
  | consumer timeout => exact h.dequeueStep timeout

end Inv

theorem init_inv (size : UInt64) (hsize : size.toNat < 2 ^ 63) : ∃ e, (init T size).Inv e size.toNat := by
  obtain ⟨e, hinner⟩ := ReaderWriterQueue.init_inv (T := T) size hsize
  have hnew : (ReaderWriterQueue.init T size).accepted = [] ∧ (ReaderWriterQueue.init T size).dequeued = [] ∧
      (ReaderWriterQueue.init T size).producer = .idle ∧ (ReaderWriterQueue.init T size).consumer = .idle := by
    rw [ReaderWriterQueue.init]
    dsimp only
    split
    · exact ⟨rfl, rfl, rfl, rfl⟩
    · exact ⟨rfl, rfl, rfl, rfl⟩
  obtain ⟨hacc, hdeq, hprod, hcons⟩ := hnew
  refine ⟨e, hinner, ?_, ⟨Int.le_refl 0, rfl⟩, iff_of_false (not_not.mpr hprod) ?_,
    iff_of_false (not_not.mpr hcons) ?_, ?_, hdeq.symm, ?_, rfl⟩
  · rw [init, hacc, hdeq]
    rfl
  · intro hnew
    cases hnew
  · intro hnew
    cases hnew
  · intro n hn
    rw [init, hcons] at hn
    cases hn
  · intro n hn
    cases hn

/-- What the queue guarantees to the threads that share it. -/
structure Sound (size : Nat) (s : BlockingQueue T) : Prop where
  inner : s.inner.Fifo size
  /-- The waits that ended with an element got the accepted ones in order. -/
  inOrder : s.returned.filterMap id <+: s.inner.accepted
  missed : ∀ n ∈ s.missed, n = 0
  sound : s.fault = false
  /-- A consumer sleeps on elements only until the wake-up under way arrives. -/
  wakeup : s.waiter = .timedWait → s.m_sema = 0 → s.signaller ≠ .post →
    s.inner.pending.length ≤ s.signaller.uncounted
  sizeApprox : s.sizeApprox ≤ s.inner.pending.length

theorem sound (size : UInt64) (hsize : size.toNat < 2 ^ 63) (as : List (Action T)) :
    (run (init T size) as).Sound size.toNat := by
  obtain ⟨e, hinit⟩ := init_inv (T := T) size hsize
  have h : (run (init T size) as).Inv e size.toNat :=
    Runs.run_invariant (fun s a (hs : s.Inv e size.toNat) => hs.step a) hinit as
  obtain ⟨lay, k, -, hacc, -, -⟩ := h.inner.laid
  have hpre : (run (init T size) as).inner.dequeued <+: (run (init T size) as).inner.accepted :=
    ⟨_, hacc.symm⟩
  have hlen := h.length_pending
  refine ⟨⟨hpre, h.inner.full, h.inner.empty, h.inner.sound, h.inner.exclusive⟩,
    h.delivered ▸ hpre, h.missed, h.sound, ?_, ?_⟩
  · intro hw hsema hs
    have hok := h.semaphore
    rw [hw, hsema] at hok
    rw [hw] at hlen
    obtain ⟨hge, hwake⟩ := hok
    have hunposted : (run (init T size) as).signaller.unposted = 0 := by
      cases hsig : (run (init T size) as).signaller <;> first | rfl | exact absurd hsig hs
    rw [hunposted] at hwake
    split at hwake
    · cases hwake
    · simp only [Waiter.claimed] at hlen
      omega
  · rw [BlockingQueue.sizeApprox]
    split <;> omega

/-- An element is enqueued and found. -/
theorem sound_oneElement :
    (run (init Nat 1) ([.tryEnqueue 7] ++ List.replicate 4 .producer ++ [.waitDequeueTimed] ++
      List.replicate 7 (.consumer false))).Sound 1 :=
  sound 1 (by decide) _

end BlockingQueue
end Pingweave
