import Pingweave.Library.Ring
import Pingweave.Library.Runs
import Pingweave.PyText

/-!
# The shared-memory ring

`ProducerQueue::writeMessage` of `ipc_producer.hpp` and `ConsumerQueue.read_messages` of
`ipc_consumer.py` on one `SharedData`. A thread's state says which load, copy or store comes next.
-/

namespace Pingweave
set_option autoImplicit false

namespace IpcRing

/-- The producer inside `writeMessage`. `pending` records how many messages were pending when it
loaded `head`. -/
inductive Producer where
  | idle
  | loadHead (message : Bytes)
  | loadTail (message : Bytes) (headVal pending : Nat)
  | copy (message : Bytes) (tailVal pending : Nat)
  | storeTail (message : Bytes) (tailVal pending : Nat)
  deriving DecidableEq, Repr

/-- The consumer inside `read_messages`, with the messages of this call so far. -/
inductive Consumer where
  | idle
  | loadHead (messages : List Text)
  | loadTail (messages : List Text) (headVal : Nat)
  | loadIndex (messages : List Text)
  | copy (messages : List Text) (head_index : Nat)
  | storeHead (messages : List Text) (head_index : Nat)
  deriving DecidableEq, Repr

def Consumer.messages : Consumer → List Text
  | .idle => []
  | .loadHead messages | .loadTail messages _ | .loadIndex messages | .copy messages _
  | .storeHead messages _ => messages

/-- How many of the messages have been read and not yet been moved past. -/
def Consumer.ahead : Consumer → Nat
  | .storeHead _ _ => 1
  | _ => 0

/-- A finished call of `writeMessage` with a non-empty message. -/
structure WriteReturn where
  message : Bytes
  ret : Bool
  pending : Nat
  deriving DecidableEq, Repr

inductive Action where
  | writeMessage (message : Bytes)
  | producer
  | consumer
  deriving DecidableEq, Repr

end IpcRing

/-- The shared data, both threads, and what has been returned: `writes` by `writeMessage`,
`returned` by `read_messages`. `consumed` counts the stores of `head`. -/
structure IpcRing where
  messages : Nat → Bytes
  head : Nat
  tail : Nat
  producer : IpcRing.Producer
  consumer : IpcRing.Consumer
  writes : List IpcRing.WriteReturn
  returned : List Text
  consumed : Nat

namespace IpcRing

def init : IpcRing where
  messages := fun _ => List.replicate IPC_MESSAGE_SIZE 0
  head := 0
  tail := 0
  producer := .idle
  consumer := .idle
  writes := []
  returned := []
  consumed := 0

/-- The part of a message that fits into a slot, up to its first NUL. -/
def truncated (message : Bytes) : Bytes :=
  (message.takeWhile fun b => b ≠ 0).take (IPC_MESSAGE_SIZE - 1)

/-- `strncpy` and the final NUL: they fill the slot with zeros behind the message. -/
def slotOf (message : Bytes) : Bytes :=
  truncated message ++ List.replicate (IPC_MESSAGE_SIZE - (truncated message).length) 0

def decodeSlot (raw_bytes : Bytes) : Text := rstripNul (decodeUtf8 raw_bytes)

/-- The string that a truncated message is read as. -/
def delivered (message : Bytes) : Text := rstripNul (decodeUtf8 (truncated message))

def written (s : IpcRing) : List Bytes :=
  (s.writes.filter WriteReturn.ret).map WriteReturn.message

/-- The accepted messages that the consumer has not moved past. -/
def pending (s : IpcRing) : List Bytes := s.written.drop s.consumed

def produce (s : IpcRing) : IpcRing :=
  match s.producer with
  | .idle => s
  | .loadHead message => { s with producer := .loadTail message s.head s.pending.length }
  | .loadTail message headVal pending =>
    let tailVal := s.tail
    if (tailVal + 1) % IPC_BUFFER_SIZE = headVal then
      { s with producer := .idle, writes := s.writes ++ [⟨message, false, pending⟩] }
    else { s with producer := .copy message tailVal pending }
  | .copy message tailVal pending =>
    { s with
      messages := Function.update s.messages tailVal (slotOf message)
      producer := .storeTail message tailVal pending }
  | .storeTail message tailVal pending =>
    { s with
      tail := (tailVal + 1) % IPC_BUFFER_SIZE
      producer := .idle
      writes := s.writes ++ [⟨message, true, pending⟩] }

def consume (s : IpcRing) : IpcRing :=
  match s.consumer with
  | .idle => { s with consumer := .loadHead [] }
  | .loadHead messages => { s with consumer := .loadTail messages s.head }
  | .loadTail messages headVal =>
    if headVal ≠ s.tail then { s with consumer := .loadIndex messages }
    else { s with consumer := .idle, returned := s.returned ++ messages }
  | .loadIndex messages => { s with consumer := .copy messages s.head }
  | .copy messages head_index =>
    { s with consumer := .storeHead (messages ++ [decodeSlot (s.messages head_index)]) head_index }
  | .storeHead messages head_index =>
    { s with
      head := (head_index + 1) % IPC_BUFFER_SIZE
      consumer := .loadHead messages
      consumed := s.consumed + 1 }

def step (s : IpcRing) : Action → IpcRing
  | .writeMessage message =>
    match s.producer with
    | .idle => if message = [] then s else { s with producer := .loadHead message }
    | _ => s
  | .producer => s.produce
  | .consumer => s.consume

def run (as : List Action) : IpcRing := Runs.run step init as

theorem length_truncated (message : Bytes) : (truncated message).length < IPC_MESSAGE_SIZE :=
  Nat.lt_of_le_of_lt (List.length_take_le _ _) (by decide)

theorem decodeSlot_slotOf (message : Bytes) : decodeSlot (slotOf message) = delivered message := by
  rw [decodeSlot, slotOf, decodeUtf8_pad, rstripNul_pad, delivered]

/-- What the ring guarantees in a state. -/
structure Fifo (s : IpcRing) : Prop where
  head : s.head < IPC_BUFFER_SIZE
  tail : s.tail < IPC_BUFFER_SIZE
  /-- The consumer gets the accepted messages in order, each once. -/
  inOrder : s.returned ++ s.consumer.messages <+: s.written.map delivered
  /-- The others lie in the slots from `head` up to `tail`. -/
  slots : Ring.Holds IPC_BUFFER_SIZE s.messages s.head (s.pending.map slotOf)
  upToTail : s.tail = (s.head + s.pending.length) % IPC_BUFFER_SIZE
  rest : s.consumed ≤ (s.returned ++ s.consumer.messages).length ∧
    (s.returned ++ s.consumer.messages).length ≤ s.consumed + 1
  atMost : s.pending.length ≤ 63
  /-- The producer writes no slot that holds a message or that the consumer is about to read. -/
  exclusive : ∀ message tailVal pending, s.producer = .copy message tailVal pending →
    (∀ i < s.pending.length, (s.head + i) % IPC_BUFFER_SIZE ≠ tailVal) ∧
      ∀ messages head_index, s.consumer = .copy messages head_index → head_index ≠ tailVal
  full : ∀ w ∈ s.writes, w.ret = false → w.pending = 63

/-- What the producer knows at each place. -/
def ProducerKnows (s : IpcRing) : Prop :=
  match s.producer with
  | .idle | .loadHead _ => True
  | .loadTail _ headVal pending =>
    headVal < IPC_BUFFER_SIZE ∧ pending ≤ 63 ∧ s.tail = (headVal + pending) % IPC_BUFFER_SIZE ∧
      s.pending.length ≤ pending
  | .copy _ tailVal _ => tailVal = s.tail ∧ s.pending.length < 63
  | .storeTail message tailVal _ =>
    tailVal = s.tail ∧ s.pending.length < 63 ∧ s.messages tailVal = slotOf message

def ConsumerKnows (s : IpcRing) : Prop :=
  match s.consumer with
  | .idle | .loadHead _ => True
  | .loadTail _ headVal => headVal = s.head
  | .loadIndex _ => s.pending ≠ []
  | .copy _ head_index | .storeHead _ head_index => s.pending ≠ [] ∧ head_index = s.head

structure Inv (s : IpcRing) : Prop where
  head : s.head < IPC_BUFFER_SIZE
  consumed : s.consumed + s.consumer.ahead ≤ s.written.length
  received : s.returned ++ s.consumer.messages =
    (s.written.take (s.consumed + s.consumer.ahead)).map delivered
  slots : Ring.Holds IPC_BUFFER_SIZE s.messages s.head (s.pending.map slotOf)
  upToTail : s.tail = (s.head + s.pending.length) % IPC_BUFFER_SIZE
  atMost : s.pending.length ≤ 63
  producer : s.ProducerKnows
  consumer : s.ConsumerKnows
  full : ∀ w ∈ s.writes, w.ret = false → w.pending = 63

/-- The part of the invariant that does not speak of what has been received. -/
structure Core (s : IpcRing) : Prop where
  head : s.head < IPC_BUFFER_SIZE
  consumed : s.consumed + s.consumer.ahead ≤ s.written.length
  slots : Ring.Holds IPC_BUFFER_SIZE s.messages s.head (s.pending.map slotOf)
  upToTail : s.tail = (s.head + s.pending.length) % IPC_BUFFER_SIZE
  atMost : s.pending.length ≤ 63
  producer : s.ProducerKnows
  consumer : s.ConsumerKnows
  full : ∀ w ∈ s.writes, w.ret = false → w.pending = 63

theorem core_init : Core init where
  head := by decide
  consumed := Nat.le_refl 0
  slots := Ring.holds_nil
  upToTail := rfl
  atMost := Nat.zero_le 63
  producer := trivial
  consumer := trivial
  full := by
    intro w hw
    cases hw

theorem Inv.core {s : IpcRing} (h : Inv s) : Core s :=
  ⟨h.head, h.consumed, h.slots, h.upToTail, h.atMost, h.producer, h.consumer, h.full⟩

theorem Core.inv {s : IpcRing} (h : Core s) (hreceived : s.returned ++ s.consumer.messages =
    (s.written.take (s.consumed + s.consumer.ahead)).map delivered) : Inv s :=
  ⟨h.head, h.consumed, hreceived, h.slots, h.upToTail, h.atMost, h.producer, h.consumer, h.full⟩

theorem inv_init : Inv init := core_init.inv rfl

section Producing
variable {s : IpcRing}

theorem written_refused (message : Bytes) (n : Nat) :
    ((s.writes ++ [WriteReturn.mk message false n]).filter WriteReturn.ret).map WriteReturn.message = s.written := by
  rw [List.filter_append, List.map_append]
  exact List.append_nil _

theorem written_accepted (message : Bytes) (n : Nat) :
    ((s.writes ++ [WriteReturn.mk message true n]).filter WriteReturn.ret).map WriteReturn.message =
      s.written ++ [message] := by
  rw [List.filter_append, List.map_append]
  rfl

/-- The slot at `tail` is the one behind the pending messages. -/
theorem Core.tail_slot (h : Core s) :
    s.tail = (s.head + (s.pending.map slotOf).length) % IPC_BUFFER_SIZE := by
  rw [List.length_map]
  exact h.upToTail

theorem written_storeTail {message : Bytes} {tailVal n : Nat}
    (hpc : s.producer = .storeTail message tailVal n) : s.produce.written = s.written ++ [message] := by
  rw [written, produce, hpc]
  exact written_accepted message n

theorem produce_frame (s : IpcRing) :
    s.produce.head = s.head ∧ s.produce.consumer = s.consumer ∧ s.produce.consumed = s.consumed ∧
      s.produce.returned = s.returned ∧ s.written <+: s.produce.written := by
  cases hpc : s.producer with
  | storeTail message tailVal n =>
    rw [written_storeTail hpc, produce, hpc]
    exact ⟨rfl, rfl, rfl, rfl, List.prefix_append _ _⟩
  | loadTail message headVal n =>
    by_cases hfull : (s.tail + 1) % IPC_BUFFER_SIZE = headVal
    · have heq : s.produce = { s with producer := .idle, writes := s.writes ++ [⟨message, false, n⟩] } := by
        simp only [produce, hpc, if_pos hfull]
      have hwritten : s.produce.written = s.written := by
        rw [heq]
        exact written_refused message n
      rw [hwritten, heq]
      exact ⟨rfl, rfl, rfl, rfl, List.prefix_refl _⟩
    · have heq : s.produce = { s with producer := .copy message s.tail n } := by
        simp only [produce, hpc, if_neg hfull]
      rw [heq]
      exact ⟨rfl, rfl, rfl, rfl, List.prefix_refl _⟩
  | idle | loadHead message | copy message tailVal n =>
    rw [produce, hpc]
    exact ⟨rfl, rfl, rfl, rfl, List.prefix_refl _⟩

theorem Core.accept (h : Core s) {message : Bytes} {tailVal n : Nat}
    (hpc : s.producer = .storeTail message tailVal n) : Core s.produce := by
  have hknows := h.producer
  unfold ProducerKnows at hknows
  simp only [hpc] at hknows
  obtain ⟨rfl, hroom, hslot⟩ := hknows
  have hwritten := written_storeTail hpc
  have hle : s.consumed ≤ s.written.length := Nat.le_trans (Nat.le_add_right _ _) h.consumed
  have hpending : s.produce.pending = s.pending ++ [message] := by
    have hdrop : s.produce.pending = s.produce.written.drop s.consumed := by
      rw [pending, produce, hpc]
    rw [hdrop, hwritten, List.drop_append_of_le_length hle, pending]
  obtain ⟨hhead, hcons, hnum, -, -⟩ := s.produce_frame
  have hmsgs : s.produce.messages = s.messages := by rw [produce, hpc]
  have htail : s.produce.tail = (s.tail + 1) % IPC_BUFFER_SIZE := by rw [produce, hpc]
  refine ⟨?_, ?_, ?_, ?_, ?_, ?_, ?_, ?_⟩
  · rw [hhead]
    exact h.head
  · rw [hwritten, hcons, hnum, List.length_append]
    exact Nat.le_add_right_of_le h.consumed
  · rw [hpending, hmsgs, hhead, List.map_append]
    exact h.slots.push (by rw [← h.tail_slot, hslot])
  · rw [htail, hhead, hpending, List.length_append, h.upToTail, Nat.mod_add_mod, Nat.add_assoc]
    rfl
  · rw [hpending, List.length_append]
    exact hroom
  · unfold ProducerKnows
    simp only [produce, hpc]
  · have hconsumer := h.consumer
    unfold ConsumerKnows at hconsumer ⊢
    rw [hcons, hhead, hpending]
    cases hc : s.consumer with
    | idle | loadHead => trivial
    | loadTail messages headVal =>
      rw [hc] at hconsumer
      exact hconsumer
    | loadIndex messages => exact List.append_ne_nil_of_right_ne_nil _ (List.cons_ne_nil _ _)
    | copy messages head_index | storeHead messages head_index =>
      rw [hc] at hconsumer
      exact ⟨List.append_ne_nil_of_right_ne_nil _ (List.cons_ne_nil _ _), hconsumer.2⟩
  · intro w hw hfalse
    rw [produce, hpc] at hw
    rcases List.mem_append.mp hw with hold | hnew
    · exact h.full w hold hfalse
    · rw [List.mem_singleton.mp hnew] at hfalse
      cases hfalse

theorem Core.refuse (h : Core s) {message : Bytes} {headVal n : Nat}
    (hpc : s.producer = .loadTail message headVal n)
    (hfull : (s.tail + 1) % IPC_BUFFER_SIZE = headVal) : Core s.produce := by
  have hknows := h.producer
  unfold ProducerKnows at hknows
  simp only [hpc] at hknows
  obtain ⟨hlt, hn, htail, -⟩ := hknows
  have heq : s.produce = { s with producer := .idle, writes := s.writes ++ [⟨message, false, n⟩] } := by
    rw [produce, hpc]
    exact if_pos hfull
  have hwritten : s.produce.written = s.written := by
    rw [heq, written]
    exact written_refused message n
  have hpending : s.produce.pending = s.pending := by
    rw [pending, hwritten, heq, pending]
  have hn63 : n = 63 := by
    simp only [IPC_BUFFER_SIZE] at hlt htail hfull
    omega
  refine ⟨?_, ?_, ?_, ?_, ?_, ?_, ?_, ?_⟩
  · rw [heq]
    exact h.head
  · rw [hwritten, heq]
    exact h.consumed
  · rw [hpending, heq]
    exact h.slots
  · rw [hpending, heq]
    exact h.upToTail
  · rw [hpending]
    exact h.atMost
  · rw [heq]
    trivial
  · have hconsumer := h.consumer
    unfold ConsumerKnows at hconsumer ⊢
    rw [hpending, heq]
    exact hconsumer
  · intro w hw hfalse
    rw [heq] at hw
    rcases List.mem_append.mp hw with hold | hnew
    · exact h.full w hold hfalse
    · rw [List.mem_singleton.mp hnew]
      exact hn63

theorem Core.produce (h : Core s) : Core s.produce := by
  have hknows := h.producer
  unfold ProducerKnows at hknows
  cases hpc : s.producer with
  | idle => simpa only [IpcRing.produce, hpc] using h
  | loadHead message =>
    simp only [IpcRing.produce, hpc]
    exact ⟨h.head, h.consumed, h.slots, h.upToTail, h.atMost,
      ⟨h.head, h.atMost, h.upToTail, Nat.le_refl _⟩, h.consumer, h.full⟩
  | loadTail message headVal n =>
    by_cases hfull : (s.tail + 1) % IPC_BUFFER_SIZE = headVal
    · exact h.refuse hpc hfull
    · simp only [hpc] at hknows
      obtain ⟨hlt, hn, htail, hle⟩ := hknows
      have hroom : s.pending.length < 63 := by
        simp only [IPC_BUFFER_SIZE] at hlt htail hfull
        omega
      simp only [IpcRing.produce, hpc, if_neg hfull]
      exact ⟨h.head, h.consumed, h.slots, h.upToTail, h.atMost, ⟨rfl, hroom⟩, h.consumer, h.full⟩
  | copy message tailVal n =>
    simp only [hpc] at hknows
    obtain ⟨rfl, hroom⟩ := hknows
    have hlen : (s.pending.map slotOf).length < IPC_BUFFER_SIZE := by
      rw [List.length_map]
      exact Nat.lt_trans hroom (by decide)
    have hslots := h.slots.write hlen (slotOf message)
    rw [← h.tail_slot] at hslots
    simp only [IpcRing.produce, hpc]
    exact ⟨h.head, h.consumed, hslots, h.upToTail, h.atMost,
      ⟨rfl, hroom, Function.update_self _ _ _⟩, h.consumer, h.full⟩
  | storeTail message tailVal n => exact h.accept hpc

theorem Inv.produce (h : Inv s) : Inv s.produce := by
  obtain ⟨-, hcons, hnum, hret, rest, hrest⟩ := s.produce_frame
  apply h.core.produce.inv
  rw [hret, hcons, hnum, ← hrest, List.take_append_of_le_length h.consumed]
  exact h.received

end Producing

section Consuming
variable {s : IpcRing}

theorem pending_eq_cons (hne : s.pending ≠ []) :
    ∃ m, s.pending = m :: s.written.drop (s.consumed + 1) ∧ s.consumed < s.written.length ∧
      s.written.take (s.consumed + 1) = s.written.take s.consumed ++ [m] := by
  have hlt : s.consumed < s.written.length := by
    by_contra hge
    exact hne (List.drop_eq_nil_of_le (Nat.not_lt.mp hge))
  exact ⟨s.written[s.consumed], List.drop_eq_getElem_cons hlt, hlt, List.take_succ_eq_append_getElem hlt⟩

theorem ProducerKnows.of_shorter {s' : IpcRing} (h : s.ProducerKnows) (hpc : s'.producer = s.producer)
    (htail : s'.tail = s.tail) (hmsgs : s'.messages = s.messages)
    (hle : s'.pending.length ≤ s.pending.length) : s'.ProducerKnows := by
  unfold ProducerKnows at h ⊢
  rw [hpc]
  cases hp : s.producer with
  | idle | loadHead => trivial
  | loadTail message headVal n =>
    rw [hp] at h
    exact ⟨h.1, h.2.1, htail ▸ h.2.2.1, Nat.le_trans hle h.2.2.2⟩
  | copy message tailVal n =>
    rw [hp] at h
    exact ⟨htail ▸ h.1, Nat.lt_of_le_of_lt hle h.2⟩
  | storeTail message tailVal n =>
    rw [hp] at h
    exact ⟨htail ▸ h.1, Nat.lt_of_le_of_lt hle h.2.1, hmsgs ▸ h.2.2⟩

/-- The message that the consumer is about to read is the oldest pending one. -/
theorem Core.copied (h : Core s) {messages : List Text} {head_index : Nat}
    (hpc : s.consumer = .copy messages head_index) :
    ∃ m, head_index = s.head ∧ s.consumed < s.written.length ∧ decodeSlot (s.messages head_index) = delivered m ∧
      s.written.take (s.consumed + 1) = s.written.take s.consumed ++ [m] := by
  have hknows := h.consumer
  unfold ConsumerKnows at hknows
  simp only [hpc] at hknows
  obtain ⟨hne, rfl⟩ := hknows
  obtain ⟨m, hm, hlt, htake⟩ := pending_eq_cons hne
  have hslots := h.slots
  rw [hm, List.map_cons] at hslots
  have hslot : s.messages s.head = slotOf m := hslots.front h.head
  refine ⟨m, rfl, hlt, ?_, htake⟩
  rw [hslot, decodeSlot_slotOf]

theorem Core.consume (h : Core s) : Core s.consume := by
  have hknows := h.consumer
  have hconsumed := h.consumed
  unfold ConsumerKnows at hknows
  cases hpc : s.consumer with
  | idle =>
    simp only [IpcRing.consume, hpc]
    simp only [hpc, Consumer.ahead] at hconsumed
    exact ⟨h.head, hconsumed, h.slots, h.upToTail, h.atMost, h.producer, trivial, h.full⟩
  | loadHead messages =>
    simp only [IpcRing.consume, hpc]
    simp only [hpc, Consumer.ahead] at hconsumed
    exact ⟨h.head, hconsumed, h.slots, h.upToTail, h.atMost, h.producer, rfl, h.full⟩
  | loadTail messages headVal =>
    simp only [hpc] at hknows
    simp only [hpc, Consumer.ahead] at hconsumed
    by_cases hne : headVal ≠ s.tail
    · have hpending : s.pending ≠ [] := by
        intro hnil
        have htail := h.upToTail
        rw [hnil, List.length_nil, Nat.add_zero, Nat.mod_eq_of_lt h.head] at htail
        exact hne (hknows.trans htail.symm)
      simp only [IpcRing.consume, hpc, if_pos hne]
      exact ⟨h.head, hconsumed, h.slots, h.upToTail, h.atMost, h.producer, hpending, h.full⟩
    · simp only [IpcRing.consume, hpc, if_neg hne]
      exact ⟨h.head, hconsumed, h.slots, h.upToTail, h.atMost, h.producer, trivial, h.full⟩
  | loadIndex messages =>
    simp only [hpc] at hknows
    simp only [hpc, Consumer.ahead] at hconsumed
    simp only [IpcRing.consume, hpc]
    exact ⟨h.head, hconsumed, h.slots, h.upToTail, h.atMost, h.producer, ⟨hknows, rfl⟩, h.full⟩
  | copy messages head_index =>
    obtain ⟨-, -, hlt, -⟩ := h.copied hpc
    simp only [hpc] at hknows
    simp only [IpcRing.consume, hpc]
    exact ⟨h.head, hlt, h.slots, h.upToTail, h.atMost, h.producer, hknows, h.full⟩
  | storeHead messages head_index =>
    simp only [hpc] at hknows
    simp only [hpc, Consumer.ahead] at hconsumed
    obtain ⟨hne, rfl⟩ := hknows
    obtain ⟨m, hm, hlt, -⟩ := pending_eq_cons hne
    have hlen : s.pending.length = (s.written.drop (s.consumed + 1)).length + 1 := by
      rw [hm, List.length_cons]
    have hslots := h.slots
    rw [hm, List.map_cons] at hslots
    simp only [IpcRing.consume, hpc]
    refine ⟨Nat.mod_lt _ (by decide), hconsumed, hslots.pop, ?_, ?_, ?_, trivial, h.full⟩
    · have htail := h.upToTail
      rw [hlen, Nat.add_comm _ 1, ← Nat.add_assoc, ← Nat.mod_add_mod] at htail
      exact htail
    · exact Nat.le_trans (Nat.le_of_succ_le (Nat.le_of_eq hlen.symm)) h.atMost
    · exact h.producer.of_shorter rfl rfl rfl (Nat.le_of_succ_le (Nat.le_of_eq hlen.symm))

/-- What the consumer has in hand grows by the copied message alone. -/
theorem received_consume (s : IpcRing) :
    (∃ messages head_index, s.consumer = .copy messages head_index ∧
      s.consume.returned ++ s.consume.consumer.messages =
        (s.returned ++ s.consumer.messages) ++ [decodeSlot (s.messages head_index)] ∧
      s.consume.consumed + s.consume.consumer.ahead = s.consumed + s.consumer.ahead + 1) ∨
    ((∀ messages head_index, s.consumer ≠ .copy messages head_index) ∧
      s.consume.returned ++ s.consume.consumer.messages = s.returned ++ s.consumer.messages ∧
      s.consume.consumed + s.consume.consumer.ahead = s.consumed + s.consumer.ahead) := by
  cases hpc : s.consumer with
  | copy messages head_index =>
    refine Or.inl ⟨messages, head_index, rfl, ?_, ?_⟩
    · simp only [IpcRing.consume, hpc, Consumer.messages, List.append_assoc]
    · simp only [IpcRing.consume, hpc, Consumer.ahead, Nat.add_zero]
  | loadTail messages headVal =>
    refine Or.inr ⟨by simp, ?_⟩
    by_cases hne : headVal ≠ s.tail
    · simp only [IpcRing.consume, hpc, if_pos hne, Consumer.messages, Consumer.ahead, and_self]
    · simp only [IpcRing.consume, hpc, if_neg hne, Consumer.messages, Consumer.ahead, List.append_nil,
        and_self]
  | idle | loadHead messages | loadIndex messages | storeHead messages head_index =>
    refine Or.inr ⟨by simp, ?_, ?_⟩
    · simp only [IpcRing.consume, hpc, Consumer.messages]
    · simp only [IpcRing.consume, hpc, Consumer.ahead]

theorem consume_frame (s : IpcRing) :
    s.consume.producer = s.producer ∧ s.consume.writes = s.writes ∧ s.consume.tail = s.tail := by
  unfold IpcRing.consume
  split
  · exact ⟨rfl, rfl, rfl⟩
  · exact ⟨rfl, rfl, rfl⟩
  · split <;> exact ⟨rfl, rfl, rfl⟩
  · exact ⟨rfl, rfl, rfl⟩
  · exact ⟨rfl, rfl, rfl⟩
  · exact ⟨rfl, rfl, rfl⟩

theorem moved_consume (s : IpcRing) :
    (∃ messages head_index, s.consumer = .storeHead messages head_index ∧
      s.consume.head = (head_index + 1) % IPC_BUFFER_SIZE ∧ s.consume.consumed = s.consumed + 1) ∨
    (s.consume.head = s.head ∧ s.consume.consumed = s.consumed) := by
  cases hpc : s.consumer with
  | storeHead messages head_index =>
    refine Or.inl ⟨messages, head_index, rfl, ?_, ?_⟩
    · rw [IpcRing.consume, hpc]
    · rw [IpcRing.consume, hpc]
  | loadTail messages headVal =>
    refine Or.inr ?_
    by_cases hne : headVal ≠ s.tail
    · simp only [IpcRing.consume, hpc, if_pos hne, and_self]
    · simp only [IpcRing.consume, hpc, if_neg hne, and_self]
  | idle | loadHead messages | loadIndex messages | copy messages head_index =>
    refine Or.inr ⟨?_, ?_⟩
    · rw [IpcRing.consume, hpc]
    · rw [IpcRing.consume, hpc]

theorem written_consume (s : IpcRing) : s.consume.written = s.written := by
  rw [written, s.consume_frame.2.1, written]

theorem Inv.consume (h : Inv s) : Inv s.consume := by
  apply h.core.consume.inv
  rw [written_consume]
  rcases s.received_consume with ⟨messages, head_index, hpc, hgot, hnum⟩ | ⟨-, hgot, hnum⟩
  · obtain ⟨m, -, -, hm, htake⟩ := h.core.copied hpc
    have hahead : s.consumer.ahead = 0 := by
      rw [hpc]
      rfl
    -- the message read is the oldest pending one
    rw [hgot, hnum, h.received, hahead, Nat.add_zero, htake, List.map_append, List.map_singleton, hm]
  · rw [hgot, hnum]
    exact h.received

end Consuming

theorem step_writeMessage (s : IpcRing) (message : Bytes) :
    s.step (.writeMessage message) = s ∨
      s.step (.writeMessage message) = { s with producer := .loadHead message } := by
  simp only [IpcRing.step]
  split
  · split
    · exact Or.inl rfl
    · exact Or.inr rfl
  · exact Or.inl rfl

theorem Core.begin {s : IpcRing} (h : Core s) (message : Bytes) :
    Core { s with producer := .loadHead message } :=
  ⟨h.head, h.consumed, h.slots, h.upToTail, h.atMost, trivial, h.consumer, h.full⟩

theorem Inv.step {s : IpcRing} (h : Inv s) (a : Action) : Inv (s.step a) := by
  cases a with
  | writeMessage message =>
    rcases s.step_writeMessage message with hsame | hbegin
    · rw [hsame]
      exact h
    · rw [hbegin]
      exact (h.core.begin message).inv h.received
  | producer => exact h.produce
  | consumer => exact h.consume

theorem Inv.fifo {s : IpcRing} (h : Inv s) : Fifo s where
  head := h.head
  tail := by
    rw [h.upToTail]
    exact Nat.mod_lt _ (by decide)
  inOrder := by
    rw [h.received]
    exact (List.take_prefix _ _).map delivered
  slots := h.slots
  upToTail := h.upToTail
  rest := by
    have hahead : s.consumer.ahead ≤ 1 := by
      cases s.consumer <;> simp [Consumer.ahead]
    rw [h.received, List.length_map, List.length_take, Nat.min_eq_left h.consumed]
    omega
  atMost := h.atMost
  exclusive := by
    intro message tailVal n hp
    have hproducer := h.producer
    unfold ProducerKnows at hproducer
    simp only [hp] at hproducer
    obtain ⟨rfl, hroom⟩ := hproducer
    have hne : ∀ i < s.pending.length, (s.head + i) % IPC_BUFFER_SIZE ≠ s.tail := by
      intro i hi
      rw [h.upToTail]
      exact Ring.slot_ne hi (Nat.lt_trans hroom (by decide))
    refine ⟨hne, ?_⟩
    intro messages head_index hc
    have hconsumer := h.consumer
    unfold ConsumerKnows at hconsumer
    simp only [hc] at hconsumer
    obtain ⟨hpending, rfl⟩ := hconsumer
    have hzero := hne 0 (List.length_pos_iff.mpr hpending)
    rwa [Nat.add_zero, Nat.mod_eq_of_lt h.head] at hzero
  full := h.full

/-- The ring is a FIFO under every interleaving. -/
theorem run_fifo (as : List Action) : Fifo (run as) :=
  (Runs.run_invariant (fun _ a h => h.step a) inv_init as).fifo

end IpcRing
end Pingweave
