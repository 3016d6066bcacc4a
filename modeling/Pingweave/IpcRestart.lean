import Pingweave.IpcRing

/-!
# The ring when its producer discards or restarts

`discardAllPendingMessages` and `initSharedMemory` store `head` from the producer's side, the
latter in a store of its own before the one of `tail`. Every accepted message has a serial number
here, and every slot remembers whose content it holds.
-/

namespace Pingweave
set_option autoImplicit false

namespace IpcRing

/-- Where the producer is when it is not inside `writeMessage`. -/
inductive Reset where
  | none
  | discardLoad
  | discardStore (tailVal : Nat)
  | initHead
  | initTail
  deriving DecidableEq, Repr

/-- The value that the producer's next step stores in `head`. -/
def Reset.storesHead : Reset → Option Nat
  | .discardStore tailVal => some tailVal
  | .initHead => some 0
  | _ => Option.none

/-- The consumer is not between its first load of `head` and its store. -/
def Consumer.Between : Consumer → Prop
  | .idle | .loadHead _ => True
  | _ => False

instance (c : Consumer) : Decidable c.Between :=
  match c with
  | .idle | .loadHead _ => isTrue trivial
  | .loadTail _ _ | .loadIndex _ | .copy _ _ | .storeHead _ _ => isFalse not_false

/-- One copy of a slot by the consumer: the serial number of its content, if that is an accepted
message, and the numbers of accepted messages at the last reset and now. -/
structure Fetch where
  serial : Option Nat
  since : Nat
  accepted : Nat
  deriving DecidableEq, Repr

end IpcRing

/-- The segment with the process that serves it. In `ring`, `consumed` counts the accepted messages
that the consumer has moved past or a reset has discarded. `torn` holds between the two stores of
a restart. -/
structure IpcSegment where
  ring : IpcRing
  reset : IpcRing.Reset
  torn : Bool
  tag : Nat → Option Nat
  since : Nat
  fetched : List IpcRing.Fetch

namespace IpcSegment
open IpcRing

inductive Action where
  | writeMessage (message : Bytes)
  | discardAllPendingMessages
  | restart
  | producer
  | consumer
  deriving DecidableEq, Repr

def init : IpcSegment := ⟨IpcRing.init, .none, false, fun _ => none, 0, []⟩

/-- The tags after a step of `writeMessage`: a slot is nobody's until its message is accepted. -/
def produceTag (s : IpcSegment) : Nat → Option Nat :=
  match s.ring.producer with
  | .copy _ tailVal _ => Function.update s.tag tailVal none
  | .storeTail _ tailVal _ => Function.update s.tag tailVal (some s.ring.written.length)
  | _ => s.tag

/-- A store of `head` by the producer, with which everything accepted so far is discarded. -/
def storeHead (s : IpcSegment) (headVal : Nat) : IpcSegment :=
  { s with
    ring := { s.ring with head := headVal, consumed := s.ring.written.length }
    since := s.ring.written.length }

def produce (s : IpcSegment) : IpcSegment :=
  match s.reset with
  | .none => { s with ring := s.ring.produce, tag := s.produceTag }
  | .discardLoad => { s with reset := .discardStore s.ring.tail }
  | .discardStore tailVal => { s.storeHead tailVal with reset := .none }
  | .initHead => { s.storeHead 0 with reset := .initTail, torn := true }
  | .initTail => { s with ring := { s.ring with tail := 0 }, reset := .none, torn := false }

def consume (s : IpcSegment) : IpcSegment :=
  { s with
    ring := s.ring.consume
    fetched :=
      match s.ring.consumer with
      | .copy _ head_index => s.fetched ++ [⟨s.tag head_index, s.since, s.ring.written.length⟩]
      | _ => s.fetched }

/-- The process may be killed and started anew at any point, also within a start. -/
def step (s : IpcSegment) : Action → IpcSegment
  | .writeMessage message =>
    if s.reset = .none then { s with ring := s.ring.step (.writeMessage message) } else s
  | .discardAllPendingMessages =>
    if s.reset = .none ∧ s.ring.producer = .idle then { s with reset := .discardLoad } else s
  | .restart => { s with ring := { s.ring with producer := .idle }, reset := .initHead }
  | .producer => s.produce
  | .consumer => s.consume

def run (as : List Action) : IpcSegment := Runs.run step init as

/-- What the consumer has got, in this call of `read_messages` and before. -/
def received (s : IpcSegment) : List Text := s.ring.returned ++ s.ring.consumer.messages

/-- Every string the consumer has got is an accepted message, accepted after the last reset, and
no message comes twice. -/
structure NoReplay (s : IpcSegment) : Prop where
  texts : s.received.map some = s.fetched.map fun f => f.serial.bind fun k => (s.ring.written[k]?).map delivered
  nodup : (s.fetched.map Fetch.serial).Nodup
  accepted : ∀ f ∈ s.fetched, ∃ k, f.serial = some k ∧ f.since ≤ k ∧ k < f.accepted

/-- The producer stores `head` only while the consumer is between two messages, or the ring is
empty there already, and the consumer makes no step while a restart is half done, unless `tail` is
0 already. -/
def Undisturbed (s : IpcSegment) : Action → Prop
  | .producer => ∀ headVal, s.reset.storesHead = some headVal →
      s.ring.consumer.Between ∨ (s.ring.head = headVal ∧ s.ring.tail = headVal)
  | .consumer => s.torn = true → s.ring.tail = 0
  | _ => True

/-- The ring as it will be when a half-done restart is over. -/
def settled (s : IpcSegment) : IpcRing := if s.torn then { s.ring with tail := 0 } else s.ring

structure Inv (s : IpcSegment) : Prop where
  core : Core s.settled
  halted : s.reset ≠ .none → s.ring.producer = .idle
  discards : ∀ tailVal, s.reset = .discardStore tailVal → s.ring.tail = tailVal
  torn : s.torn = true → (s.reset = .initHead ∨ s.reset = .initTail) ∧ s.ring.head = 0 ∧
    s.ring.consumed = s.ring.written.length
  untorn : s.reset = .initTail → s.torn = true
  tags : ∀ i < s.ring.pending.length, s.tag ((s.ring.head + i) % IPC_BUFFER_SIZE) = some (s.ring.consumed + i)
  since : s.since ≤ s.ring.consumed
  texts : s.received.map some = s.fetched.map fun f => f.serial.bind fun k => (s.ring.written[k]?).map delivered
  increasing : (s.fetched.map Fetch.serial).Pairwise fun a b => ∀ j ∈ a, ∀ k ∈ b, j < k
  accepted : ∀ f ∈ s.fetched, ∃ k, f.serial = some k ∧ f.since ≤ k ∧ k < f.accepted ∧
    k < s.ring.consumed + s.ring.consumer.ahead ∧ f.accepted ≤ s.ring.written.length

theorem inv_init : Inv init where
  core := core_init
  halted := fun h => absurd rfl h
  discards := by
    intro tailVal h
    cases h
  torn := by
    intro h
    cases h
  untorn := by
    intro h
    cases h
  tags := by
    intro i hi
    cases hi
  since := Nat.le_refl 0
  texts := rfl
  increasing := List.Pairwise.nil
  accepted := by
    intro f hf
    cases hf

/-- The ring that a reset leaves behind. -/
theorem core_emptied {r : IpcRing} (h : Core r) (hidle : r.producer = .idle) {headVal : Nat}
    (hlt : headVal < IPC_BUFFER_SIZE)
    (hc : r.consumer.Between ∨ (r.head = headVal ∧ r.tail = headVal)) :
    Core { r with head := headVal, tail := headVal, consumed := r.written.length } := by
  rcases hc with hbetween | ⟨hhead, htail⟩
  · have hpending :
        ({ r with head := headVal, tail := headVal, consumed := r.written.length } : IpcRing).pending = [] :=
      List.drop_length
    refine ⟨hlt, ?_, ?_, ?_, ?_, ?_, ?_, h.full⟩
    · cases hcons : r.consumer with
      | idle | loadHead messages => exact Nat.le_refl r.written.length
      | _ => rw [hcons] at hbetween; exact hbetween.elim
    · rw [hpending]
      exact Ring.holds_nil
    · rw [hpending, List.length_nil, Nat.add_zero, Nat.mod_eq_of_lt hlt]
    · rw [hpending]
      exact Nat.zero_le 63
    · unfold ProducerKnows
      simp only [hidle]
    · unfold ConsumerKnows
      cases hcons : r.consumer with
      | idle | loadHead messages => trivial
      | _ => rw [hcons] at hbetween; exact hbetween.elim
  · -- the ring was empty there, so nothing changes
    have hconsumed : r.consumed ≤ r.written.length := Nat.le_trans (Nat.le_add_right _ _) h.consumed
    have hlen : r.pending.length = r.written.length - r.consumed := List.length_drop
    have hmod := h.upToTail
    have hmost := h.atMost
    have hall : r.consumed = r.written.length := by
      simp only [IPC_BUFFER_SIZE] at hmod hlt
      omega
    have hsame : ({ r with head := headVal, tail := headVal, consumed := r.written.length } : IpcRing) = r := by
      rw [← hall, ← hhead]
      rw [← hhead] at htail
      nth_rewrite 2 [← htail]
      rfl
    rw [hsame]
    exact h

theorem core_killed {r : IpcRing} (h : Core r) : Core { r with producer := .idle } :=
  ⟨h.head, h.consumed, h.slots, h.upToTail, h.atMost, trivial, h.consumer, h.full⟩

namespace Inv
variable {s : IpcSegment}

theorem fetched_lt (h : Inv s) {f : Fetch} (hf : f ∈ s.fetched) :
    ∃ k, f.serial = some k ∧ k < s.ring.written.length := by
  obtain ⟨k, hk, -, hlt, -, hle⟩ := h.accepted f hf
  exact ⟨k, hk, Nat.lt_of_lt_of_le hlt hle⟩

/-- More accepted messages do not change what the serial numbers stand for. -/
theorem texts_mono (h : Inv s) {more : List Bytes} (hmore : s.ring.written <+: more) :
    s.received.map some = s.fetched.map fun f => f.serial.bind fun k => (more[k]?).map delivered := by
  rw [h.texts]
  apply List.map_congr_left
  intro f hf
  obtain ⟨k, hk, hlt⟩ := h.fetched_lt hf
  obtain ⟨rest, rfl⟩ := hmore
  rw [hk, Option.bind_some, Option.bind_some, List.getElem?_append_left hlt]

theorem whole (h : Inv s) (hhead : s.reset ≠ .initHead) (htail : s.reset ≠ .initTail) :
    s.torn = false ∧ Core s.ring := by
  have htorn : s.torn = false := by
    rw [← Bool.not_eq_true]
    exact fun ht => (h.torn ht).1.elim hhead htail
  have hcore := h.core
  rw [settled, htorn, if_neg Bool.false_ne_true] at hcore
  exact ⟨htorn, hcore⟩

/-- `writeMessage` keeps the tags of the pending messages and adds the one it accepts. -/
theorem tags_produce (h : Inv s) (hcore : Core s.ring) :
    ∀ i < s.ring.produce.pending.length,
      s.produceTag ((s.ring.produce.head + i) % IPC_BUFFER_SIZE) = some (s.ring.produce.consumed + i) := by
  obtain ⟨hhead, -, hnum, -, -⟩ := s.ring.produce_frame
  have hknows := hcore.producer
  unfold ProducerKnows at hknows
  have hother : ∀ {i}, i < s.ring.pending.length → s.ring.pending.length < 63 → ∀ tag,
      Function.update s.tag s.ring.tail tag ((s.ring.head + i) % IPC_BUFFER_SIZE) =
        some (s.ring.consumed + i) := by
    intro i hi hroom tag
    have hne : (s.ring.head + i) % IPC_BUFFER_SIZE ≠ s.ring.tail := by
      rw [hcore.upToTail]
      exact Ring.slot_ne hi (Nat.lt_trans hroom (by decide))
    rw [Function.update_of_ne hne]
    exact h.tags i hi
  rw [hhead, hnum]
  cases hpc : s.ring.producer with
  | idle =>
    have hpending : s.ring.produce.pending = s.ring.pending := by rw [IpcRing.produce, hpc]
    rw [hpending, produceTag, hpc]
    exact h.tags
  | loadHead message =>
    have hpending : s.ring.produce.pending = s.ring.pending := by
      rw [IpcRing.produce, hpc]
      rfl
    rw [hpending, produceTag, hpc]
    exact h.tags
  | loadTail message headVal n =>
    have hpending : s.ring.produce.pending = s.ring.pending := by
      by_cases hfull : (s.ring.tail + 1) % IPC_BUFFER_SIZE = headVal
      · simp only [pending, written, IpcRing.produce, hpc, if_pos hfull]
        rw [written_refused, written]
      · simp only [IpcRing.produce, hpc, if_neg hfull]
        rfl
    rw [hpending, produceTag, hpc]
    exact h.tags
  | copy message tailVal n =>
    simp only [hpc] at hknows
    obtain ⟨rfl, hroom⟩ := hknows
    have hpending : s.ring.produce.pending = s.ring.pending := by
      rw [IpcRing.produce, hpc]
      rfl
    rw [hpending, produceTag, hpc]
    exact fun i hi => hother hi hroom none
  | storeTail message tailVal n =>
    simp only [hpc] at hknows
    obtain ⟨rfl, hroom, -⟩ := hknows
    have hle : s.ring.consumed ≤ s.ring.written.length := Nat.le_trans (Nat.le_add_right _ _) hcore.consumed
    have hlen : s.ring.pending.length = s.ring.written.length - s.ring.consumed := List.length_drop
    have hpending : s.ring.produce.pending.length = s.ring.pending.length + 1 := by
      rw [pending, written_storeTail hpc, hnum, List.length_drop, List.length_append, hlen,
        List.length_singleton]
      omega
    rw [hpending, produceTag, hpc]
    intro i hi
    rcases Nat.lt_succ_iff_lt_or_eq.mp hi with hlt | rfl
    · exact hother hlt hroom _
    · simp only []
      rw [← hcore.upToTail, Function.update_self, hlen]
      congr 1
      omega

theorem produce_none (h : Inv s) (hreset : s.reset = .none) :
    Inv { s with ring := s.ring.produce, tag := s.produceTag } := by
  obtain ⟨htorn, hcore⟩ := h.whole (by simp [hreset]) (by simp [hreset])
  obtain ⟨-, hcons, hnum, hret, hprefix⟩ := s.ring.produce_frame
  have hlen := hprefix.length_le
  refine ⟨?_, ?_, ?_, ?_, ?_, ?_, ?_, ?_, h.increasing, ?_⟩
  · rw [settled, htorn, if_neg Bool.false_ne_true]
    exact hcore.produce
  · exact fun hne => absurd hreset hne
  · intro tailVal hr
    cases hreset.symm.trans hr
  · intro ht
    cases htorn.symm.trans ht
  · intro hr
    cases hreset.symm.trans hr
  · exact h.tags_produce hcore
  · rw [hnum]
    exact h.since
  · have hsame : ({ s with ring := s.ring.produce, tag := s.produceTag } : IpcSegment).received = s.received := by
      rw [received, hret, hcons, received]
    rw [hsame]
    exact h.texts_mono hprefix
  · intro f hf
    obtain ⟨k, hk, hsince, hlt, hgot, hle⟩ := h.accepted f hf
    refine ⟨k, hk, hsince, hlt, ?_, Nat.le_trans hle hlen⟩
    rw [hnum, hcons]
    exact hgot

/-- A store of `head` by the producer, and the ring as it will be afterwards. -/
theorem storeHead (h : Inv s) {headVal : Nat} {t : IpcSegment} (hring : t.ring = (s.storeHead headVal).ring)
    (hrest : t.tag = s.tag ∧ t.since = s.ring.written.length ∧ t.fetched = s.fetched)
    (hcore : Core t.settled) (hhalted : t.reset ≠ .none → t.ring.producer = .idle)
    (hdiscards : ∀ tailVal, t.reset ≠ .discardStore tailVal)
    (htorn : t.torn = true → t.reset = .initTail ∧ headVal = 0) (huntorn : t.reset = .initTail → t.torn = true) :
    Inv t := by
  obtain ⟨htag, hsince, hfetched⟩ := hrest
  have hconsumed : t.ring.consumed = t.ring.written.length := by rw [hring]; rfl
  have hwritten : t.ring.written = s.ring.written := by rw [hring]; rfl
  refine ⟨hcore, hhalted, fun tailVal hr => absurd hr (hdiscards tailVal), ?_, huntorn, ?_, ?_, ?_, ?_, ?_⟩
  · intro ht
    refine ⟨Or.inr (htorn ht).1, ?_, hconsumed⟩
    rw [hring]
    exact (htorn ht).2
  · intro i hi
    have hnone : t.ring.pending.length = 0 := by
      rw [pending, hconsumed, List.drop_length, List.length_nil]
    omega
  · rw [hsince, hconsumed, hwritten]
  · have hsame : t.received = s.received := by rw [received, hring]; rfl
    rw [hsame, hfetched, hwritten]
    exact h.texts
  · rw [hfetched]
    exact h.increasing
  · intro f hf
    rw [hfetched] at hf
    obtain ⟨k, hk, hsince, hlt, -, hle⟩ := h.accepted f hf
    refine ⟨k, hk, hsince, hlt, ?_, ?_⟩
    · rw [hconsumed, hwritten]
      exact Nat.lt_add_right _ (Nat.lt_of_lt_of_le hlt hle)
    · rw [hwritten]
      exact hle

theorem produce (h : Inv s) (hguard : Undisturbed s .producer) : Inv s.produce := by
  cases hreset : s.reset with
  | none =>
    have heq : s.produce = { s with ring := s.ring.produce, tag := s.produceTag } := by
      simp only [IpcSegment.produce, hreset]
    rw [heq]
    exact h.produce_none hreset
  | discardLoad =>
    obtain ⟨htorn, -⟩ := h.whole (by simp [hreset]) (by simp [hreset])
    have hidle := h.halted (by simp [hreset])
    simp only [IpcSegment.produce, hreset]
    refine ⟨h.core, fun _ => hidle, ?_, ?_, ?_, h.tags, h.since, h.texts, h.increasing, h.accepted⟩
    · intro tailVal hr
      cases hr
      rfl
    · intro ht
      cases htorn.symm.trans ht
    · intro hr
      cases hr
  | discardStore tailVal =>
    obtain ⟨htorn, hcore⟩ := h.whole (by simp [hreset]) (by simp [hreset])
    have hidle := h.halted (by simp [hreset])
    have htail := h.discards tailVal hreset
    have hlt : tailVal < IPC_BUFFER_SIZE := by
      rw [← htail, hcore.upToTail]
      exact Nat.mod_lt _ (by decide)
    have hempty := core_emptied hcore hidle hlt (hguard tailVal (by rw [hreset]; rfl))
    simp only [IpcSegment.produce, hreset]
    refine h.storeHead rfl ⟨rfl, rfl, rfl⟩ ?_ (fun hne => absurd rfl hne) (fun _ => Reset.noConfusion) ?_ ?_
    · have hsettled : (({ s.storeHead tailVal with reset := .none } : IpcSegment).settled) =
          { s.ring with head := tailVal, tail := tailVal, consumed := s.ring.written.length } := by
        rw [settled, ← htail]
        exact if_neg (by rw [← Bool.not_eq_true] at htorn; exact htorn)
      rw [hsettled]
      exact hempty
    · intro ht
      cases htorn.symm.trans ht
    · intro hr
      cases hr
  | initHead =>
    have hidle := h.halted (by simp [hreset])
    have hempty : Core { s.ring with head := 0, tail := 0, consumed := s.ring.written.length } := by
      cases htorn : s.torn with
      | true =>
        -- a restart after half a restart
        have hcore := h.core
        rw [settled, htorn, if_pos rfl] at hcore
        exact core_emptied hcore hidle (by decide) (Or.inr ⟨(h.torn htorn).2.1, rfl⟩)
      | false =>
        have hcore := h.core
        rw [settled, htorn, if_neg Bool.false_ne_true] at hcore
        exact core_emptied hcore hidle (by decide) (hguard 0 (by rw [hreset]; rfl))
    simp only [IpcSegment.produce, hreset]
    refine h.storeHead rfl ⟨rfl, rfl, rfl⟩ hempty (fun _ => hidle) (fun _ => Reset.noConfusion) ?_ ?_
    · exact fun _ => ⟨rfl, rfl⟩
    · exact fun _ => rfl
  | initTail =>
    have htorn := h.untorn hreset
    have hcore := h.core
    obtain ⟨-, hhead, hconsumed⟩ := h.torn htorn
    rw [settled, htorn, if_pos rfl] at hcore
    simp only [IpcSegment.produce, hreset]
    refine ⟨hcore, fun hne => absurd rfl hne, ?_, ?_, ?_, h.tags, h.since, h.texts, h.increasing, h.accepted⟩
    · intro tailVal hr
      cases hr
    · intro ht
      cases ht
    · intro hr
      cases hr

/-- The slot that the consumer copies holds the oldest pending message. -/
theorem copied (h : Inv s) (hcore : Core s.ring) {messages : List Text} {head_index : Nat}
    (hpc : s.ring.consumer = .copy messages head_index) :
    s.tag head_index = some s.ring.consumed ∧ s.ring.consumed < s.ring.written.length ∧
      (s.ring.written[s.ring.consumed]?).map delivered = some (decodeSlot (s.ring.messages head_index)) := by
  obtain ⟨m, rfl, hlt, hm, htake⟩ := hcore.copied hpc
  have hlen : s.ring.pending.length = s.ring.written.length - s.ring.consumed := List.length_drop
  have htag := h.tags 0 (by omega)
  rw [Nat.add_zero, Nat.add_zero, Nat.mod_eq_of_lt hcore.head] at htag
  rw [List.take_add_one] at htake
  have hget : (s.ring.written[s.ring.consumed]?).toList = [m] := List.append_cancel_left htake
  rw [Option.toList_eq_singleton_iff] at hget
  refine ⟨htag, hlt, ?_⟩
  rw [hget, hm, Option.map_some]

/-- A step of the consumer fetches the oldest pending message or nothing. -/
theorem fetched_consume (h : Inv s) (hcore : Core s.ring) :
    (∃ text, s.consume.fetched = s.fetched ++ [⟨some s.ring.consumed, s.since, s.ring.written.length⟩] ∧
      s.ring.consumed < s.ring.written.length ∧
      (s.ring.written[s.ring.consumed]?).map delivered = some text ∧
      s.consume.received = s.received ++ [text] ∧ s.ring.consumer.ahead = 0 ∧
      s.ring.consume.consumed + s.ring.consume.consumer.ahead = s.ring.consumed + 1) ∨
    (s.consume.fetched = s.fetched ∧ s.consume.received = s.received ∧
      s.ring.consume.consumed + s.ring.consume.consumer.ahead = s.ring.consumed + s.ring.consumer.ahead) := by
  rcases s.ring.received_consume with ⟨messages, head_index, hpc, hgot, hnum⟩ | ⟨hpc, hgot, hnum⟩
  · obtain ⟨htag, hlt, htext⟩ := h.copied hcore hpc
    have hahead : s.ring.consumer.ahead = 0 := by
      rw [hpc]
      rfl
    refine Or.inl ⟨_, ?_, hlt, htext, hgot, hahead, by rw [hnum, hahead]⟩
    simp only [IpcSegment.consume, hpc, htag]
  · refine Or.inr ⟨?_, hgot, hnum⟩
    simp only [IpcSegment.consume]

theorem tags_consume (h : Inv s) (hcore : Core s.ring) :
    ∀ i < s.ring.consume.pending.length,
      s.tag ((s.ring.consume.head + i) % IPC_BUFFER_SIZE) = some (s.ring.consume.consumed + i) := by
  have hlen' : s.ring.consume.pending.length = s.ring.written.length - s.ring.consume.consumed := by
    rw [pending, s.ring.written_consume, List.length_drop]
  have hlen : s.ring.pending.length = s.ring.written.length - s.ring.consumed := List.length_drop
  rw [hlen']
  rcases s.ring.moved_consume with ⟨messages, head_index, hpc, hhead, hnum⟩ | ⟨hhead, hnum⟩
  · have hknows := hcore.consumer
    unfold ConsumerKnows at hknows
    simp only [hpc] at hknows
    obtain ⟨-, rfl⟩ := hknows
    rw [hhead, hnum]
    intro i hi
    have htag := h.tags (i + 1) (by omega)
    rwa [Nat.mod_add_mod, Nat.add_assoc, Nat.add_assoc, Nat.add_comm 1 i]
  · rw [hhead, hnum, ← hlen]
    exact h.tags

theorem consume (h : Inv s) (hguard : Undisturbed s .consumer) : Inv s.consume := by
  have hsettled : s.settled = s.ring := by
    rw [settled]
    split
    · rename_i ht
      rw [← hguard ht]
    · rfl
  have hcore := h.core
  rw [hsettled] at hcore
  obtain ⟨hproducer, -, htail⟩ := s.ring.consume_frame
  have hwritten := s.ring.written_consume
  have hsettled' : s.consume.settled = s.ring.consume := by
    rw [settled]
    split
    · rename_i ht
      have hzero : s.ring.consume.tail = 0 := htail.trans (hguard ht)
      exact hzero ▸ rfl
    · rfl
  refine ⟨?_, ?_, ?_, ?_, h.untorn, ?_, ?_, ?_, ?_, ?_⟩
  · rw [hsettled']
    exact hcore.consume
  · exact fun hne => hproducer.trans (h.halted hne)
  · exact fun tailVal hr => htail.trans (h.discards tailVal hr)
  · intro ht
    obtain ⟨hreset, hhead, hall⟩ := h.torn ht
    rcases s.ring.moved_consume with ⟨messages, head_index, hpc, -, -⟩ | ⟨hhead', hnum⟩
    · have hknows := hcore.consumer
      unfold ConsumerKnows at hknows
      simp only [hpc] at hknows
      have hnil : s.ring.pending = [] := by rw [pending, hall, List.drop_length]
      exact absurd hnil hknows.1
    · refine ⟨hreset, hhead'.trans hhead, ?_⟩
      rw [IpcSegment.consume, hwritten, hnum]
      exact hall
  · exact h.tags_consume hcore
  · refine Nat.le_trans h.since ?_
    rcases s.ring.moved_consume with ⟨-, -, -, -, hnum⟩ | ⟨-, hnum⟩
    · exact hnum ▸ Nat.le_succ _
    · exact Nat.le_of_eq hnum.symm
  · rcases h.fetched_consume hcore with ⟨text, hfetched, -, htext, hgot, -, -⟩ | ⟨hfetched, hgot, -⟩
    · rw [hgot, hfetched, IpcSegment.consume, hwritten, List.map_append, List.map_append, h.texts,
        List.map_singleton, List.map_singleton, Option.bind_some, htext]
    · rw [hgot, hfetched, IpcSegment.consume, hwritten]
      exact h.texts
  · rcases h.fetched_consume hcore with ⟨text, hfetched, -, -, -, hahead, -⟩ | ⟨hfetched, -, -⟩
    · rw [hfetched, List.map_append, List.map_singleton]
      refine List.pairwise_append.mpr ⟨h.increasing, List.pairwise_singleton _ _, ?_⟩
      intro a ha b hb j hj k hk
      obtain ⟨f, hf, rfl⟩ := List.mem_map.mp ha
      obtain ⟨i, hi, -, -, hlt, -⟩ := h.accepted f hf
      cases List.mem_singleton.mp hb
      cases hk
      cases hi.symm.trans hj
      rwa [hahead] at hlt
    · rw [hfetched]
      exact h.increasing
  · rcases h.fetched_consume hcore with ⟨text, hfetched, hlt, -, -, hahead, hnum⟩ | ⟨hfetched, -, hnum⟩
    · rw [hfetched, IpcSegment.consume, hwritten, hnum]
      intro f hf
      rcases List.mem_append.mp hf with hold | hnew
      · obtain ⟨k, hk, hsince, hacc, hgot, hle⟩ := h.accepted f hold
        rw [hahead, Nat.add_zero] at hgot
        exact ⟨k, hk, hsince, hacc, Nat.lt_succ_of_lt hgot, hle⟩
      · cases List.mem_singleton.mp hnew
        exact ⟨_, rfl, h.since, hlt, Nat.lt_succ_self _, Nat.le_refl _⟩
    · rw [hfetched, IpcSegment.consume, hwritten, hnum]
      exact h.accepted

theorem step (h : Inv s) (a : Action) (hguard : Undisturbed s a) : Inv (s.step a) := by
  cases a with
  | writeMessage message =>
    simp only [IpcSegment.step]
    split
    · rename_i hreset
      obtain ⟨htorn, hcore⟩ := h.whole (by simp [hreset]) (by simp [hreset])
      rcases s.ring.step_writeMessage message with hstep | hstep
      · rw [hstep]
        exact h
      · rw [hstep]
        refine ⟨?_, fun hne => absurd hreset hne, h.discards, ?_, h.untorn, h.tags, h.since, h.texts,
          h.increasing, h.accepted⟩
        · rw [settled, htorn, if_neg Bool.false_ne_true]
          exact hcore.begin message
        · intro ht
          cases htorn.symm.trans ht
    · exact h
  | discardAllPendingMessages =>
    simp only [IpcSegment.step]
    split
    · rename_i hidle
      obtain ⟨htorn, hcore⟩ := h.whole (by simp [hidle.1]) (by simp [hidle.1])
      refine ⟨h.core, fun _ => hidle.2, ?_, ?_, ?_, h.tags, h.since, h.texts, h.increasing, h.accepted⟩
      · intro tailVal hr
        cases hr
      · intro ht
        cases htorn.symm.trans ht
      · intro hr
        cases hr
    · exact h
  | restart =>
    have hcore : Core { s.settled with producer := .idle } := core_killed h.core
    refine ⟨?_, fun _ => rfl, ?_, ?_, ?_, h.tags, h.since, h.texts, h.increasing, h.accepted⟩
    · rw [settled] at hcore ⊢
      split at hcore
      · rename_i ht
        simp only [IpcSegment.step, ht, if_true]
        exact hcore
      · rename_i ht
        simp only [IpcSegment.step, ht]
        exact hcore
    · intro tailVal hr
      cases hr
    · exact fun ht => ⟨Or.inl rfl, (h.torn ht).2⟩
    · intro hr
      cases hr
  | producer => exact h.produce hguard
  | consumer => exact h.consume hguard

theorem noReplay (h : Inv s) : NoReplay s where
  texts := h.texts
  nodup := by
    refine h.increasing.imp_of_mem ?_
    intro a b ha hb hlt hab
    obtain ⟨f, hf, rfl⟩ := List.mem_map.mp ha
    obtain ⟨k, hk, -⟩ := h.accepted f hf
    exact Nat.lt_irrefl k (hlt k hk k (hab ▸ hk))
  accepted := by
    intro f hf
    obtain ⟨k, hk, hsince, hlt, -, -⟩ := h.accepted f hf
    exact ⟨k, hk, hsince, hlt⟩

end Inv

/-- As long as no store of a reset disturbs the consumer, the ring replays nothing. -/
theorem run_noReplay (as : List Action) (hquiet : Runs.Along step Undisturbed init as) :
    NoReplay (run as) :=
  (Runs.run_invariant_along (fun _ a h hg => h.step a hg) inv_init hquiet).noReplay

instance (s : IpcSegment) (a : Action) : Decidable (Undisturbed s a) :=
  match a with
  | .producer =>
    match h : s.reset.storesHead with
    | none => isTrue fun headVal hv => by cases h.symm.trans hv
    | some headVal =>
      decidable_of_iff (s.ring.consumer.Between ∨ (s.ring.head = headVal ∧ s.ring.tail = headVal))
        ⟨fun hc v hv => (Option.some.inj (h.symm.trans hv)) ▸ hc, fun hall => hall headVal h⟩
  | .consumer => inferInstanceAs (Decidable (s.torn = true → s.ring.tail = 0))
  | .writeMessage _ | .discardAllPendingMessages | .restart => isTrue trivial

def writeOne (message : Bytes) : List Action :=
  [.writeMessage message, .producer, .producer, .producer, .producer]

def readOne : List Action := List.replicate 8 .consumer

/-- A message is read, the process is started anew between two calls of `read_messages`, and another
message follows, which is discarded. -/
def politeActs : List Action :=
  writeOne [65] ++ readOne ++ [.restart, .producer, .producer] ++ writeOne [66] ++
    [.discardAllPendingMessages, .producer, .producer, .consumer]

theorem run_noReplay_polite : NoReplay (run politeActs) := run_noReplay politeActs (by decide +kernel)

/-- The consumer looks at the ring between the two stores of a restart. -/
def tornActs : List Action :=
  writeOne [65] ++ readOne ++ [.restart, .producer] ++ readOne

theorem not_noReplay : ¬ ∀ as : List Action, NoReplay (run as) := by
  intro h
  have hfetched : (run tornActs).fetched = [⟨some 0, 0, 1⟩, ⟨some 0, 1, 1⟩] := by
    decide +kernel
  have hnodup := (h tornActs).nodup
  rw [hfetched] at hnodup
  revert hnodup
  decide

end IpcSegment
end Pingweave
