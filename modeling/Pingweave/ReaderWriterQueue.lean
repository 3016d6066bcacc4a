import Pingweave.Library.PowerOfTwo
import Pingweave.Library.Ring
import Pingweave.Library.Runs

/-!
# The queue between two threads

`ReaderWriterQueue` of `readerwriterqueue.h`, which carries the ping results from the threads of a
client to its result thread and the received PINGs between the threads of the RDMA server: the
constructor, `try_enqueue` and `try_dequeue`. A thread's state says which access to shared data
comes next; the accesses of the two threads interleave.
-/

namespace Pingweave
set_option autoImplicit false

universe u

namespace ReaderWriterQueue

def MAX_BLOCK_SIZE : UInt64 := 512

def ceilToPow2 (x : UInt64) : UInt64 :=
  let x := x - 1
  let x := x ||| (x >>> 1)
  let x := x ||| (x >>> 2)
  let x := x ||| (x >>> 4)
  let x := x ||| (x >>> ((1 : UInt64) <<< 3))
  let x := x ||| (x >>> ((2 : UInt64) <<< 3))
  let x := x ||| (x >>> ((4 : UInt64) <<< 3))
  x + 1

/-- The consumer owns `front` and `localTail`, the producer `tail` and `localFront`. -/
structure Block (T : Type u) where
  front : Nat
  localTail : Nat
  tail : Nat
  localFront : Nat
  data : Nat → Option T
  sizeMask : Nat

def Block.make (capacity : UInt64) {T : Type u} : Block T where
  front := 0
  localTail := 0
  tail := 0
  localFront := 0
  data := fun _ => none
  sizeMask := (capacity - 1).toNat

namespace Block
variable {T : Type u}

def succ (b : Block T) (i : Nat) : Nat := (i + 1) &&& b.sizeMask

def construct (b : Block T) (x : T) : Block T :=
  { b with data := Function.update b.data b.tail (some x) }

def storeTail (b : Block T) : Block T := { b with tail := b.succ b.tail }

def loadFront (b : Block T) : Block T := { b with localFront := b.front }

def storeFront (b : Block T) : Block T := { b with front := b.succ b.front }

def loadTail (b : Block T) : Block T := { b with localTail := b.tail }

end Block

/-- The producer inside `try_enqueue`. `pending` records how many elements were pending when it
found its block full. -/
inductive Producer (T : Type u) where
  | idle
  | loadFront (x : T)
  | construct (x : T)
  | storeTail (x : T)
  | loadFrontBlock (x : T) (pending : Nat)
  | loadNextFront (x : T)
  | constructNext (x : T)
  | storeNextTail (x : T)
  | storeTailBlock (x : T)
  deriving DecidableEq, Repr

/-- The consumer inside `try_dequeue`. `pending` records how many elements were pending when it
found its block empty. -/
inductive Consumer (T : Type u) where
  | idle
  | loadTail
  | loadTailBlock (pending : Nat)
  | reloadTail
  | loadNextTail
  | storeFrontBlock
  | takeElement
  | storeFront (result : T)
  deriving DecidableEq, Repr

inductive Action (T : Type u) where
  | tryEnqueue (x : T)
  | producer
  | tryDequeue
  | consumer
  deriving DecidableEq, Repr

end ReaderWriterQueue

/-- The queue, both threads, and what their calls have returned: `accepted` and `rejected` by
`try_enqueue`, `dequeued` and `missed` by `try_dequeue`. A failed assertion or an access to a
slot without an element sets `fault`. -/
structure ReaderWriterQueue (T : Type u) where
  blockCount : Nat
  block : Nat → ReaderWriterQueue.Block T
  frontBlock : Nat
  tailBlock : Nat
  producer : ReaderWriterQueue.Producer T
  consumer : ReaderWriterQueue.Consumer T
  fault : Bool
  accepted : List T
  rejected : List (T × Nat)
  dequeued : List T
  missed : List Nat

namespace ReaderWriterQueue
variable {T : Type u}

def ofBlocks (T : Type u) (blockCount blockSize : UInt64) : ReaderWriterQueue T where
  blockCount := blockCount.toNat
  block := fun _ => Block.make blockSize
  frontBlock := 0
  tailBlock := 0
  producer := .idle
  consumer := .idle
  fault := false
  accepted := []
  rejected := []
  dequeued := []
  missed := []

/-- The constructor. Its blocks form a circle and are numbered along it. -/
def init (T : Type u) (size : UInt64) : ReaderWriterQueue T :=
  let largestBlockSize := ceilToPow2 (size + 1)
  if largestBlockSize > MAX_BLOCK_SIZE * 2 then
    let initialBlockCount := (size + MAX_BLOCK_SIZE * 2 - 3) / (MAX_BLOCK_SIZE - 1)
    ofBlocks T initialBlockCount MAX_BLOCK_SIZE
  else ofBlocks T 1 largestBlockSize

def next (s : ReaderWriterQueue T) (i : Nat) : Nat := (i + 1) % s.blockCount

def setBlock (s : ReaderWriterQueue T) (i : Nat) (b : Block T) : ReaderWriterQueue T :=
  { s with block := Function.update s.block i b }

/-- The accepted elements that the consumer has not moved past. -/
def pending (s : ReaderWriterQueue T) : List T := s.accepted.drop s.dequeued.length

/-- The start of `inner_enqueue<CannotAlloc>`, which reads only what the producer owns. -/
def tryEnqueue (s : ReaderWriterQueue T) (x : T) : ReaderWriterQueue T :=
  let tailBlock_ := s.block s.tailBlock
  match s.producer with
  | .idle =>
    if tailBlock_.succ tailBlock_.tail ≠ tailBlock_.localFront then { s with producer := .construct x }
    else { s with producer := .loadFront x }
  | _ => s

/-- The next step of `try_enqueue`, and what the call returns if it ends here. -/
def enqueueStep (s : ReaderWriterQueue T) : ReaderWriterQueue T × Option Bool :=
  let tailBlock_ := s.block s.tailBlock
  let tailBlockNext := s.block (s.next s.tailBlock)
  match s.producer with
  | .idle => (s, none)
  | .loadFront x =>
    let s' := s.setBlock s.tailBlock tailBlock_.loadFront
    if tailBlock_.succ tailBlock_.tail ≠ tailBlock_.front then ({ s' with producer := .construct x }, none)
    else ({ s' with producer := .loadFrontBlock x s.pending.length }, none)
  | .construct x =>
    ({ s.setBlock s.tailBlock (tailBlock_.construct x) with producer := .storeTail x }, none)
  | .storeTail x =>
    ({ s.setBlock s.tailBlock tailBlock_.storeTail with
        producer := .idle
        accepted := s.accepted ++ [x] }, some true)
  | .loadFrontBlock x pending =>
    if s.next s.tailBlock ≠ s.frontBlock then ({ s with producer := .loadNextFront x }, none)
    else ({ s with producer := .idle, rejected := s.rejected ++ [(x, pending)] }, some false)
  | .loadNextFront x =>
    let s' := s.setBlock (s.next s.tailBlock) tailBlockNext.loadFront
    if tailBlockNext.front = tailBlockNext.tail then ({ s' with producer := .constructNext x }, none)
    else ({ s' with fault := true }, none)
  | .constructNext x =>
    ({ s.setBlock (s.next s.tailBlock) (tailBlockNext.construct x) with
        producer := .storeNextTail x }, none)
  | .storeNextTail x =>
    ({ s.setBlock (s.next s.tailBlock) tailBlockNext.storeTail with
        producer := .storeTailBlock x }, none)
  | .storeTailBlock x =>
    ({ s with
        tailBlock := s.next s.tailBlock
        producer := .idle
        accepted := s.accepted ++ [x] }, some true)

/-- The start of `try_dequeue`, which reads only what the consumer owns. -/
def tryDequeue (s : ReaderWriterQueue T) : ReaderWriterQueue T :=
  let frontBlock_ := s.block s.frontBlock
  match s.consumer with
  | .idle =>
    if frontBlock_.front ≠ frontBlock_.localTail then { s with consumer := .takeElement }
    else { s with consumer := .loadTail }
  | _ => s

/-- The next step of `try_dequeue`, and what the call returns if it ends here. -/
def dequeueStep (s : ReaderWriterQueue T) : ReaderWriterQueue T × Option (Option T) :=
  let frontBlock_ := s.block s.frontBlock
  let nextBlock := s.block (s.next s.frontBlock)
  match s.consumer with
  | .idle => (s, none)
  | .loadTail =>
    let s' := s.setBlock s.frontBlock frontBlock_.loadTail
    if frontBlock_.front ≠ frontBlock_.tail then ({ s' with consumer := .takeElement }, none)
    else ({ s' with consumer := .loadTailBlock s.pending.length }, none)
  | .loadTailBlock pending =>
    if s.frontBlock ≠ s.tailBlock then ({ s with consumer := .reloadTail }, none)
    else ({ s with consumer := .idle, missed := s.missed ++ [pending] }, some none)
  | .reloadTail =>
    let s' := s.setBlock s.frontBlock frontBlock_.loadTail
    if frontBlock_.front ≠ frontBlock_.tail then ({ s' with consumer := .takeElement }, none)
    else ({ s' with consumer := .loadNextTail }, none)
  | .loadNextTail =>
    let s' := s.setBlock (s.next s.frontBlock) nextBlock.loadTail
    if nextBlock.front ≠ nextBlock.tail then ({ s' with consumer := .storeFrontBlock }, none)
    else ({ s' with fault := true }, none)
  | .storeFrontBlock =>
    ({ s with frontBlock := s.next s.frontBlock, consumer := .takeElement }, none)
  | .takeElement =>
    match frontBlock_.data frontBlock_.front with
    | some element => ({ s with consumer := .storeFront element }, none)
    | none => ({ s with fault := true }, none)
  | .storeFront result =>
    ({ s.setBlock s.frontBlock frontBlock_.storeFront with
        consumer := .idle
        dequeued := s.dequeued ++ [result] }, some (some result))

def step (s : ReaderWriterQueue T) : Action T → ReaderWriterQueue T
  | .tryEnqueue x => s.tryEnqueue x
  | .producer => s.enqueueStep.1
  | .tryDequeue => s.tryDequeue
  | .consumer => s.dequeueStep.1

abbrev run (s : ReaderWriterQueue T) (as : List (Action T)) : ReaderWriterQueue T :=
  Runs.run step s as

end ReaderWriterQueue
end Pingweave
