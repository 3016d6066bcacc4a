import Pingweave.ReaderWriterQueueLayout

/-!
# What the queue guarantees

In every interleaving of the two threads the queue is first in, first out. `try_enqueue` fails
only where the queue holds as many elements as it was made for, `try_dequeue` only where it is
empty, no assertion fails, and no slot is written while it is read.
-/

namespace Pingweave
namespace ReaderWriterQueue
set_option autoImplicit false

universe u
variable {T : Type u}

/-- What the consumer reads of a block besides what it loads from the producer. -/
def Block.consumerView (b : Block T) : Nat × Nat := (b.front, b.localTail)

def Block.producerView (b : Block T) : Nat × Nat × (Nat → Option T) × Nat :=
  (b.tail, b.localFront, b.data, b.sizeMask)

def Block.Unread (b : Block T) : Prop := b.front ≠ b.localTail

def Block.Room (b : Block T) : Prop := b.succ b.tail ≠ b.localFront

/-- What the producer has put into the block after its own. -/
def Producer.ahead : Producer T → List T
  | .storeTailBlock x => [x]
  | _ => []

/-- A tail block that the consumer has not reached is full. -/
def TailFull (e : Nat) (lay : List (List T)) (k : Nat) : Prop :=
  ∀ l, lay[k]? = some l → 0 < k → l.length + 1 = 2 ^ e

/-- What the producer knows at each place. -/
def ProducerKnows (e n : Nat) (block : Nat → Block T) (tailBlock : Nat) (lay : List (List T)) (k : Nat) :
    Producer T → Prop
  | .idle | .loadFront _ => True
  | .construct _ => (block tailBlock).Room
  | .storeTail x => (block tailBlock).Room ∧ (block tailBlock).data (block tailBlock).tail = some x
  | .loadFrontBlock _ pending => TailFull e lay k ∧ (2 ^ e - 1) * k ≤ pending ∧ 2 ^ e - 1 ≤ pending
  | .loadNextFront _ => TailFull e lay k ∧ k + 1 < n
  | .constructNext _ => TailFull e lay k ∧ k + 1 < n ∧ (block ((tailBlock + 1) % n)).Room
  | .storeNextTail x => TailFull e lay k ∧ k + 1 < n ∧ (block ((tailBlock + 1) % n)).Room ∧
      (block ((tailBlock + 1) % n)).data (block ((tailBlock + 1) % n)).tail = some x
  | .storeTailBlock _ => TailFull e lay k

/-- What the consumer knows at each place. -/
def ConsumerKnows (n : Nat) (block : Nat → Block T) (frontBlock : Nat) (lay : List (List T)) (k : Nat) :
    Consumer T → Prop
  | .idle | .loadTail => True
  | .loadTailBlock pending => k = 0 → pending = 0
  | .reloadTail => 0 < k
  | .loadNextTail => 0 < k ∧ lay[0]? = some []
  | .storeFrontBlock => 0 < k ∧ lay[0]? = some [] ∧ (block ((frontBlock + 1) % n)).Unread
  | .takeElement => (block frontBlock).Unread
  | .storeFront v => (block frontBlock).Unread ∧ ∃ l, lay[0]? = some (v :: l)

section Frames
variable {e n k k' frontBlock tailBlock : Nat} {block block' : Nat → Block T} {lay lay' : List (List T)}

theorem view_update {γ : Type*} (view : Block T → γ) {i : Nat} {b : Block T} (h : view b = view (block i))
    (j : Nat) : view (Function.update block i b j) = view (block j) := by
  by_cases hj : j = i
  · subst hj
    rw [Function.update_self, h]
  · rw [Function.update_of_ne hj]

/-- The producer's steps leave the consumer what it knows. -/
theorem ConsumerKnows.keep {c : Consumer T} (h : ConsumerKnows n block frontBlock lay k c)
    (hview : ∀ i, (block' i).consumerView = (block i).consumerView) (hk : k ≤ k')
    (hempty : 0 < k → lay[0]? = some [] → lay'[0]? = some [])
    (hfirst : ∀ v l, lay[0]? = some (v :: l) → ∃ l', lay'[0]? = some (v :: l')) :
    ConsumerKnows n block' frontBlock lay' k' c := by
  have hunread : ∀ i, (block i).Unread → (block' i).Unread := by
    intro i hi
    have hfront := congrArg Prod.fst (hview i)
    have htail := congrArg Prod.snd (hview i)
    change (block' i).front ≠ (block' i).localTail
    change (block' i).front = (block i).front at hfront
    change (block' i).localTail = (block i).localTail at htail
    rw [hfront, htail]
    exact hi
  cases c with
  | idle => trivial
  | loadTail => trivial
  | loadTailBlock pending => exact fun hzero => h (by omega)
  | reloadTail => exact Nat.lt_of_lt_of_le h hk
  | loadNextTail => exact ⟨Nat.lt_of_lt_of_le h.1 hk, hempty h.1 h.2⟩
  | storeFrontBlock => exact ⟨Nat.lt_of_lt_of_le h.1 hk, hempty h.1 h.2.1, hunread _ h.2.2⟩
  | takeElement => exact hunread _ h
  | storeFront v =>
    obtain ⟨hun, l, hl⟩ := h
    exact ⟨hunread _ hun, hfirst v l hl⟩

/-- The consumer's steps leave the producer what it knows. -/
theorem ProducerKnows.keep {p : Producer T} (h : ProducerKnows e n block tailBlock lay k p)
    (hview : ∀ i, (block' i).producerView = (block i).producerView) (hk : k' ≤ k)
    (hfull : TailFull e lay k → TailFull e lay' k') :
    ProducerKnows e n block' tailBlock lay' k' p := by
  have htail : ∀ i, (block' i).tail = (block i).tail := fun i => congrArg Prod.fst (hview i)
  have hlocal : ∀ i, (block' i).localFront = (block i).localFront :=
    fun i => congrArg (fun v => v.2.1) (hview i)
  have hdata : ∀ i, (block' i).data = (block i).data := fun i => congrArg (fun v => v.2.2.1) (hview i)
  have hmask : ∀ i, (block' i).sizeMask = (block i).sizeMask :=
    fun i => congrArg (fun v => v.2.2.2) (hview i)
  have hroom : ∀ i, (block i).Room → (block' i).Room := by
    intro i hi
    rw [Block.Room, Block.succ, hmask, htail, hlocal]
    exact hi
  have hbound := Nat.mul_le_mul_left (2 ^ e - 1) hk
  cases p with
  | idle => trivial
  | loadFront x => trivial
  | construct x => exact hroom _ h
  | storeTail x => exact ⟨hroom _ h.1, by rw [hdata, htail]; exact h.2⟩
  | loadFrontBlock x pending => exact ⟨hfull h.1, Nat.le_trans hbound h.2.1, h.2.2⟩
  | loadNextFront x => exact ⟨hfull h.1, Nat.lt_of_le_of_lt (Nat.succ_le_succ hk) h.2⟩
  | constructNext x =>
    exact ⟨hfull h.1, Nat.lt_of_le_of_lt (Nat.succ_le_succ hk) h.2.1, hroom _ h.2.2⟩
  | storeNextTail x =>
    refine ⟨hfull h.1, Nat.lt_of_le_of_lt (Nat.succ_le_succ hk) h.2.1, hroom _ h.2.2.1, ?_⟩
    rw [hdata, htail]
    exact h.2.2.2
  | storeTailBlock x => exact hfull h

end Frames

/-- The invariant of the queue. `capacity` is the size it was made for. -/
structure Inv (e capacity : Nat) (s : ReaderWriterQueue T) : Prop where
  laid : ∃ lay k, Layout e s.blockCount s.block s.frontBlock s.tailBlock s.producer.ahead lay k ∧
    s.accepted = s.dequeued ++ contents lay k ∧
    ProducerKnows e s.blockCount s.block s.tailBlock lay k s.producer ∧
    ConsumerKnows s.blockCount s.block s.frontBlock lay k s.consumer
  wide : 1 < s.blockCount → 1 ≤ e
  capacity_le : capacity ≤ max ((2 ^ e - 1) * (s.blockCount - 1)) (2 ^ e - 1)
  sound : s.fault = false
  full : ∀ r ∈ s.rejected, capacity ≤ r.2
  empty : ∀ p ∈ s.missed, p = 0

namespace Inv
variable {e capacity : Nat} {s : ReaderWriterQueue T}

theorem pending_eq {l : List T} (h : s.accepted = s.dequeued ++ l) : s.pending = l := by
  rw [pending, h, List.drop_left]

theorem tryEnqueue (h : s.Inv e capacity) (x : T) : (s.tryEnqueue x).Inv e capacity := by
  rw [ReaderWriterQueue.tryEnqueue]
  cases hp : s.producer with
  | idle =>
    obtain ⟨lay, k, hlay, hacc, -, hcons⟩ := h.laid
    rw [hp] at hlay
    dsimp only
    split
    · rename_i hroom
      exact ⟨⟨lay, k, hlay, hacc, hroom, hcons⟩, h.wide, h.capacity_le, h.sound, h.full, h.empty⟩
    · exact ⟨⟨lay, k, hlay, hacc, trivial, hcons⟩, h.wide, h.capacity_le, h.sound, h.full, h.empty⟩
  | _ => exact h

theorem tryDequeue (h : s.Inv e capacity) : s.tryDequeue.Inv e capacity := by
  rw [ReaderWriterQueue.tryDequeue]
  cases hc : s.consumer with
  | idle =>
    obtain ⟨lay, k, hlay, hacc, hprod, -⟩ := h.laid
    dsimp only
    split
    · rename_i hunread
      exact ⟨⟨lay, k, hlay, hacc, hprod, hunread⟩, h.wide, h.capacity_le, h.sound, h.full, h.empty⟩
    · exact ⟨⟨lay, k, hlay, hacc, hprod, trivial⟩, h.wide, h.capacity_le, h.sound, h.full, h.empty⟩
  | _ => exact h

theorem enqueueStep (h : s.Inv e capacity) : s.enqueueStep.1.Inv e capacity := by
  obtain ⟨lay, k, hlay, hacc, hprod, hcons⟩ := h.laid
  obtain ⟨l, hl, hb⟩ := hlay.tail
  rw [ReaderWriterQueue.enqueueStep]
  cases hp : s.producer with
  | idle => exact h
  | loadFront x =>
    rw [hp] at hlay hprod
    have hlay' := hlay.updateTail hl hb.loadFront
    have hcons' := hcons.keep (view_update (i := s.tailBlock) (b := (s.block s.tailBlock).loadFront)
      Block.consumerView rfl) (Nat.le_refl k) (fun _ h => h) (fun _ l h => ⟨l, h⟩)
    dsimp only
    split
    · rename_i hroom
      refine ⟨⟨lay, k, hlay', hacc, ?_, hcons'⟩, h.wide, h.capacity_le, h.sound, h.full, h.empty⟩
      change (Function.update s.block s.tailBlock _ s.tailBlock).Room
      rw [Function.update_self]
      exact hroom
    · rename_i hnot
      -- the true `front` shows the block full
      have hfull : l.length + 1 = 2 ^ e := hb.full_iff.mp (not_not.mp hnot)
      have hall : ∀ m, lay[k]? = some m → m.length + 1 = 2 ^ e := by
        intro m hm
        rw [hl] at hm
        cases hm
        exact hfull
      obtain ⟨hmul, hone⟩ := le_length_contents hlay hall
      rw [← pending_eq hacc] at hmul hone
      exact ⟨⟨lay, k, hlay', hacc, ⟨fun m hm _ => hall m hm, hmul, hone⟩, hcons'⟩, h.wide,
        h.capacity_le, h.sound, h.full, h.empty⟩
  | construct x =>
    rw [hp] at hlay hprod
    refine ⟨⟨lay, k, hlay.updateTail hl (hb.construct x), hacc, ?_, ?_⟩, h.wide, h.capacity_le,
      h.sound, h.full, h.empty⟩
    · dsimp only [setBlock, ProducerKnows]
      rw [Function.update_self]
      exact ⟨hprod, Function.update_self _ _ _⟩
    · exact hcons.keep (view_update (b := (s.block s.tailBlock).construct x) Block.consumerView rfl)
        (Nat.le_refl k) (fun _ h => h) (fun _ l h => ⟨l, h⟩)
  | storeTail x =>
    rw [hp] at hlay hprod
    refine ⟨⟨lay.set k (l ++ [x]), k, hlay.push (hb.storeTail hprod.1 hprod.2), ?_, trivial, ?_⟩,
      h.wide, h.capacity_le, h.sound, h.full, h.empty⟩
    · change s.accepted ++ [x] = s.dequeued ++ contents (lay.set k (l ++ [x])) k
      rw [contents_push hl, hacc, List.append_assoc]
    · refine hcons.keep (view_update (b := (s.block s.tailBlock).storeTail) Block.consumerView rfl)
        (Nat.le_refl k) ?_ ?_
      · intro hk hempty
        rwa [List.getElem?_set_ne (by omega)]
      · intro v m hm
        cases k with
        | zero =>
          rw [hl] at hm
          cases hm
          exact ⟨m ++ [x], List.getElem?_set_self (List.getElem?_eq_some_iff.mp hl).1⟩
        | succ k => exact ⟨m, by rwa [List.getElem?_set_ne (by omega)]⟩
  | loadFrontBlock x pending =>
    rw [hp] at hlay hprod
    dsimp only
    split
    · rename_i hne
      have hk : k + 1 < s.blockCount := by
        have hbehind := hlay.behind
        have hlast : ¬ k + 1 = s.blockCount := fun heq => hne (hlay.next_tail_eq_front.mpr heq)
        omega
      exact ⟨⟨lay, k, hlay, hacc, ⟨hprod.1, hk⟩, hcons⟩, h.wide, h.capacity_le, h.sound, h.full, h.empty⟩
    · rename_i heq
      refine ⟨⟨lay, k, hlay, hacc, trivial, hcons⟩, h.wide, h.capacity_le, h.sound, ?_, h.empty⟩
      have hk : k + 1 = s.blockCount := hlay.next_tail_eq_front.mp (not_not.mp heq)
      intro r hr
      rcases List.mem_append.mp hr with hold | hnew
      · exact h.full r hold
      · rw [List.mem_singleton.mp hnew]
        refine Nat.le_trans h.capacity_le (Nat.max_le.mpr ⟨?_, hprod.2.2⟩)
        rw [← hk, Nat.add_sub_cancel]
        exact hprod.2.1
  | loadNextFront x =>
    rw [hp] at hlay hprod
    have hk : k + 1 < s.blockCount := hprod.2
    obtain ⟨hnext, hbn⟩ := hlay.afterTail hk
    dsimp only
    rw [next, if_pos (hbn.empty_iff.mpr rfl)]
    have hlay' := hlay.update hnext hbn.loadFront
    rw [← hlay.next_tail] at hlay'
    refine ⟨⟨lay, k, hlay', hacc, ⟨hprod.1, hk, ?_⟩, ?_⟩, h.wide, h.capacity_le, h.sound,
      h.full, h.empty⟩
    · change (Function.update s.block ((s.tailBlock + 1) % s.blockCount) _
        ((s.tailBlock + 1) % s.blockCount)).Room
      rw [Function.update_self]
      -- an empty block of at least two slots has room
      have he : 1 ≤ e := h.wide (by omega)
      have hsize : 2 ^ 1 ≤ 2 ^ e := Nat.pow_le_pow_right (by omega) he
      intro heq
      have hlen := hbn.full_iff.mp heq
      change 0 + 1 = 2 ^ e at hlen
      omega
    · exact hcons.keep (view_update (b := Block.loadFront _) Block.consumerView rfl)
        (Nat.le_refl k) (fun _ h => h) (fun _ l h => ⟨l, h⟩)
  | constructNext x =>
    rw [hp] at hlay hprod
    obtain ⟨hnext, hbn⟩ := hlay.afterTail hprod.2.1
    have hlay' := hlay.update hnext (hbn.construct x)
    rw [← hlay.next_tail] at hlay'
    dsimp only [next]
    refine ⟨⟨lay, k, hlay', hacc, ⟨hprod.1, hprod.2.1, ?_⟩, ?_⟩, h.wide, h.capacity_le, h.sound,
      h.full, h.empty⟩
    · dsimp only [setBlock]
      rw [Function.update_self]
      exact ⟨hprod.2.2, Function.update_self _ _ _⟩
    · exact hcons.keep (view_update (b := Block.construct _ x) Block.consumerView rfl)
        (Nat.le_refl k) (fun _ h => h) (fun _ l h => ⟨l, h⟩)
  | storeNextTail x =>
    rw [hp] at hlay hprod
    obtain ⟨hnext, hbn⟩ := hlay.afterTail hprod.2.1
    refine ⟨⟨lay.set (k + 1) [x], k, hlay.pushNext hprod.2.1 (hbn.storeTail hprod.2.2.1 hprod.2.2.2),
      ?_, ?_, ?_⟩, h.wide, h.capacity_le, h.sound, h.full, h.empty⟩
    · rw [contents_pushNext]
      exact hacc
    · intro m hm hk
      rw [List.getElem?_set_ne (by omega)] at hm
      exact hprod.1 m hm hk
    · refine hcons.keep (view_update (b := Block.storeTail _) Block.consumerView rfl)
        (Nat.le_refl k) ?_ ?_
      · intro _ hempty
        rwa [List.getElem?_set_ne (by omega)]
      · intro v m hm
        exact ⟨m, by rwa [List.getElem?_set_ne (by omega)]⟩
  | storeTailBlock x =>
    rw [hp] at hlay hprod
    have hnext := (hlay.afterTail (hlay.room (List.cons_ne_nil x []))).1
    refine ⟨⟨lay, k + 1, hlay.advance hprod, ?_, trivial, ?_⟩, h.wide, h.capacity_le, h.sound,
      h.full, h.empty⟩
    · change s.accepted ++ [x] = s.dequeued ++ contents lay (k + 1)
      rw [contents_advance hnext, hacc, List.append_assoc]
      rfl
    · exact hcons.keep (fun _ => rfl) (Nat.le_succ k) (fun _ h => h) (fun _ l h => ⟨l, h⟩)

theorem dequeueStep (h : s.Inv e capacity) : s.dequeueStep.1.Inv e capacity := by
  obtain ⟨lay, k, hlay, hacc, hprod, hcons⟩ := h.laid
  obtain ⟨l, hl, hb⟩ := hlay.front
  rw [ReaderWriterQueue.dequeueStep]
  cases hc : s.consumer with
  | idle => exact h
  | loadTail =>
    have hlay' := hlay.updateFront hl hb.loadTail
    have hprod' := hprod.keep (view_update (i := s.frontBlock) (b := (s.block s.frontBlock).loadTail)
      Block.producerView rfl) (Nat.le_refl k) id
    dsimp only
    split
    · rename_i hne
      refine ⟨⟨lay, k, hlay', hacc, hprod', ?_⟩, h.wide, h.capacity_le, h.sound, h.full, h.empty⟩
      dsimp only [setBlock, ConsumerKnows]
      rw [Function.update_self]
      exact hne
    · rename_i heq
      refine ⟨⟨lay, k, hlay', hacc, hprod', ?_⟩, h.wide, h.capacity_le, h.sound, h.full, h.empty⟩
      rintro rfl
      rw [hb.empty_iff.mp (not_not.mp heq)] at hl
      rw [pending_eq hacc, contents_eq hl]
      rfl
  | loadTailBlock pending =>
    rw [hc] at hcons
    dsimp only
    split
    · rename_i hne
      have hk : 0 < k := Nat.pos_of_ne_zero fun hzero => hne (hlay.front_eq_tail.mpr hzero)
      exact ⟨⟨lay, k, hlay, hacc, hprod, hk⟩, h.wide, h.capacity_le, h.sound, h.full, h.empty⟩
    · rename_i heq
      refine ⟨⟨lay, k, hlay, hacc, hprod, trivial⟩, h.wide, h.capacity_le, h.sound, h.full, ?_⟩
      intro p hp
      rcases List.mem_append.mp hp with hold | hnew
      · exact h.empty p hold
      · rw [List.mem_singleton.mp hnew]
        exact hcons (hlay.front_eq_tail.mp (not_not.mp heq))
  | reloadTail =>
    rw [hc] at hcons
    have hlay' := hlay.updateFront hl hb.loadTail
    have hprod' := hprod.keep (view_update (i := s.frontBlock) (b := (s.block s.frontBlock).loadTail)
      Block.producerView rfl) (Nat.le_refl k) id
    dsimp only
    split
    · rename_i hne
      refine ⟨⟨lay, k, hlay', hacc, hprod', ?_⟩, h.wide, h.capacity_le, h.sound, h.full, h.empty⟩
      dsimp only [setBlock, ConsumerKnows]
      rw [Function.update_self]
      exact hne
    · rename_i heq
      rw [hb.empty_iff.mp (not_not.mp heq)] at hl
      exact ⟨⟨lay, k, hlay', hacc, hprod', hcons, hl⟩, h.wide, h.capacity_le, h.sound, h.full, h.empty⟩
  | loadNextTail =>
    rw [hc] at hcons
    have hk : 0 < k := hcons.1
    obtain ⟨m, hm, hbm⟩ := hlay.get (i := 1) (Nat.lt_of_le_of_lt hk hlay.behind)
    have hne : (s.block (s.next s.frontBlock)).front ≠ (s.block (s.next s.frontBlock)).tail :=
      fun heq => hlay.visited 1 m hm Nat.one_pos hk (hbm.empty_iff.mp heq)
    dsimp only
    rw [if_pos hne]
    refine ⟨⟨lay, k, hlay.update hm hbm.loadTail, hacc, ?_, hk, hcons.2, ?_⟩, h.wide, h.capacity_le,
      h.sound, h.full, h.empty⟩
    · exact hprod.keep (view_update (b := Block.loadTail _) Block.producerView rfl) (Nat.le_refl k) id
    · dsimp only [setBlock, next]
      rw [Function.update_self]
      exact hne
  | storeFrontBlock =>
    rw [hc] at hcons
    obtain ⟨hk, hempty, hunread⟩ := hcons
    cases lay with
    | nil => cases hempty
    | cons first rest =>
      cases hempty
      obtain ⟨k, rfl⟩ := Nat.exists_eq_add_one_of_ne_zero (Nat.ne_of_gt hk)
      have hrest : k < rest.length := by
        have hlen : rest.length + 1 = s.blockCount := hlay.length
        have hbehind := hlay.behind
        omega
      refine ⟨⟨rest ++ [[]], k, hlay.rotate, ?_, ?_, hunread⟩, h.wide, h.capacity_le, h.sound, h.full,
        h.empty⟩
      · rw [← contents_rotate hrest]
        exact hacc
      · refine hprod.keep (fun _ => rfl) (Nat.le_succ k) ?_
        intro hfull m hm hpos
        rw [List.getElem?_append_left hrest] at hm
        exact hfull m hm (Nat.succ_pos k)
  | takeElement =>
    rw [hc] at hcons
    obtain ⟨v, rest, rfl⟩ := List.exists_cons_of_ne_nil (hb.nonempty_of_front_ne hcons)
    dsimp only
    rw [hb.element]
    exact ⟨⟨lay, k, hlay, hacc, hprod, hcons, rest, hl⟩, h.wide, h.capacity_le, h.sound, h.full, h.empty⟩
  | storeFront v =>
    rw [hc] at hcons
    obtain ⟨hunread, rest, hrest⟩ := hcons
    rw [hrest] at hl
    cases hl
    cases lay with
    | nil => cases hrest
    | cons first lay =>
      cases hrest
      refine ⟨⟨rest :: lay, k, hlay.pop (hb.storeFront hunread), ?_, ?_, trivial⟩, h.wide,
        h.capacity_le, h.sound, h.full, h.empty⟩
      · change s.accepted = s.dequeued ++ [v] ++ contents (rest :: lay) k
        rw [hacc, contents_pop, List.append_assoc]
        rfl
      · refine hprod.keep (view_update (b := Block.storeFront _) Block.producerView rfl)
          (Nat.le_refl k) ?_
        intro hfull m hm hpos
        obtain ⟨k, rfl⟩ := Nat.exists_eq_add_one_of_ne_zero (Nat.ne_of_gt hpos)
        exact hfull m hm hpos

theorem step (h : s.Inv e capacity) (a : Action T) : (s.step a).Inv e capacity := by
  cases a with
  | tryEnqueue x => exact h.tryEnqueue x
  | producer => exact h.enqueueStep
  | tryDequeue => exact h.tryDequeue
  | consumer => exact h.dequeueStep

theorem ofBlocks {blockCount blockSize : UInt64} (hcount : 1 ≤ blockCount.toNat)
    (hsize : blockSize.toNat = 2 ^ e) (hwide : 1 < blockCount.toNat → 1 ≤ e)
    (hcap : capacity ≤ max ((2 ^ e - 1) * (blockCount.toNat - 1)) (2 ^ e - 1)) :
    (ReaderWriterQueue.ofBlocks T blockCount blockSize).Inv e capacity := by
  have hnil : ∀ (i : Nat) (l : List T), (List.replicate blockCount.toNat ([] : List T))[i]? = some l → l = [] := by
    intro i l hl
    exact (List.mem_replicate.mp (List.mem_of_getElem? hl)).2
  refine ⟨⟨List.replicate blockCount.toNat [], 0, ?_, ?_, trivial, trivial⟩, hwide, hcap, rfl, nofun, nofun⟩
  · refine ⟨List.length_replicate, ?_, hcount, ?_, hcount, ?_, ?_, ?_, ?_⟩
    · intro i l hl
      rw [hnil i l hl]
      exact Block.Holds.make hsize
    · exact (Nat.zero_mod _).symm
    · intro i l _ hi hik
      omega
    · intro i l _ hi hik
      omega
    · intro i l hl _
      rw [hnil i l hl]
      exact (ite_self []).symm
    · exact fun hne => absurd rfl hne
  · rw [contents, List.take_replicate, List.flatten_replicate_nil]
    rfl

end Inv

/-- The constructor reserves room for `size` elements. -/
theorem init_inv (size : UInt64) (hsize : size.toNat < 2 ^ 63) : ∃ e, (init T size).Inv e size.toNat := by
  have hsucc : (size + 1).toNat = size.toNat + 1 := by
    rw [UInt64.toNat_add]
    exact Nat.mod_eq_of_lt (by change size.toNat + 1 < 2 ^ 64; omega)
  have hne : size + 1 ≠ 0 := by
    intro heq
    rw [heq] at hsucc
    exact absurd hsucc (by simp)
  obtain ⟨m, hm, hup, hleast⟩ := toNat_ceilToPow2 hne (by omega)
  rw [hsucc] at hup hleast
  rw [init]
  dsimp only
  split
  · rename_i hlarge
    have hlarge' : 1024 < 2 ^ m := by
      rw [← hm]
      exact UInt64.lt_iff_toNat_lt.mp hlarge
    -- rounding up is least, so the size itself is beyond two blocks
    have hbeyond : 1024 ≤ size.toNat := by
      by_contra hlt
      have h10 : m ≤ 10 := hleast 10 (by omega)
      have := Nat.pow_le_pow_right (n := 2) (by omega) h10
      omega
    have hcount : ((size + MAX_BLOCK_SIZE * 2 - 3) / (MAX_BLOCK_SIZE - 1)).toNat =
        (size.toNat + 1021) / 511 := by
      have hsum : (size + MAX_BLOCK_SIZE * 2).toNat = size.toNat + 1024 := by
        rw [UInt64.toNat_add]
        exact Nat.mod_eq_of_lt (by change size.toNat + 1024 < 2 ^ 64; omega)
      have hthree : (3 : UInt64) ≤ size + MAX_BLOCK_SIZE * 2 := by
        rw [UInt64.le_iff_toNat_le, hsum]
        change 3 ≤ size.toNat + 1024
        omega
      rw [UInt64.toNat_div, UInt64.toNat_sub_of_le _ _ hthree, hsum]
      rfl
    refine ⟨9, Inv.ofBlocks ?_ rfl (fun _ => by omega) ?_⟩
    · rw [hcount]
      omega
    · rw [hcount]
      refine Nat.le_trans ?_ (Nat.le_max_left _ _)
      change size.toNat ≤ 511 * ((size.toNat + 1021) / 511 - 1)
      omega
  · refine ⟨m, Inv.ofBlocks (Nat.le_refl 1) hm (fun h => absurd h (Nat.lt_irrefl 1)) ?_⟩
    exact Nat.le_trans (by omega) (Nat.le_max_right _ _)

/-- The slot that the producer is about to write. -/
def writtenSlot (s : ReaderWriterQueue T) : Option (Nat × Nat) :=
  match s.producer with
  | .construct _ => some (s.tailBlock, (s.block s.tailBlock).tail)
  | .constructNext _ => some (s.next s.tailBlock, (s.block (s.next s.tailBlock)).tail)
  | _ => none

/-- The slot that the consumer is about to read. -/
def readSlot (s : ReaderWriterQueue T) : Option (Nat × Nat) :=
  match s.consumer with
  | .takeElement => some (s.frontBlock, (s.block s.frontBlock).front)
  | _ => none

/-- What a queue made for `size` elements guarantees. -/
structure Fifo (size : Nat) (s : ReaderWriterQueue T) : Prop where
  inOrder : s.dequeued <+: s.accepted
  full : ∀ r ∈ s.rejected, size ≤ r.2
  empty : ∀ p ∈ s.missed, p = 0
  sound : s.fault = false
  exclusive : ∀ slot, s.writtenSlot = some slot → s.readSlot ≠ some slot

theorem Inv.exclusive {e capacity : Nat} {s : ReaderWriterQueue T} (h : s.Inv e capacity)
    (slot : Nat × Nat) (hw : s.writtenSlot = some slot) : s.readSlot ≠ some slot := by
  obtain ⟨lay, k, hlay, -, hprod, hcons⟩ := h.laid
  obtain ⟨l, hl, hb⟩ := hlay.front
  intro hr
  rw [writtenSlot] at hw
  rw [readSlot] at hr
  cases hc : s.consumer with
  | takeElement =>
    rw [hc] at hr hcons
    cases hr
    have hne := hb.nonempty_of_front_ne hcons
    cases hp : s.producer with
    | construct x =>
      rw [hp] at hw
      injection hw with hslot
      injection hslot with hblock htail
      rw [hblock] at htail
      exact hne (hb.empty_iff.mp htail.symm)
    | constructNext x =>
      rw [hp] at hw hprod
      injection hw with hslot
      injection hslot with hblock htail
      have hk : k + 1 < s.blockCount := hprod.2.1
      have hlast := hlay.next_tail_eq_front.mp hblock
      omega
    | _ => simp [hp] at hw
  | _ => simp [hc] at hr

theorem first_in_first_out (size : UInt64) (hsize : size.toNat < 2 ^ 63) (as : List (Action T)) :
    (run (init T size) as).Fifo size.toNat := by
  obtain ⟨e, hinit⟩ := init_inv (T := T) size hsize
  have h : (run (init T size) as).Inv e size.toNat :=
    Runs.run_invariant (fun s a (hs : s.Inv e size.toNat) => hs.step a) hinit as
  obtain ⟨lay, k, -, hacc, -, -⟩ := h.laid
  exact ⟨⟨contents lay k, hacc.symm⟩, h.full, h.empty, h.sound, h.exclusive⟩

/-- The second of two elements is refused by a queue made for one. -/
theorem fifo_refused :
    (run (init Nat 1) ([.tryEnqueue 7] ++ List.replicate 2 .producer ++ [.tryEnqueue 8] ++
      List.replicate 2 .producer)).Fifo 1 :=
  first_in_first_out 1 (by decide) _

end ReaderWriterQueue
end Pingweave
