import Mathlib.Data.Nat.Bitwise
import Mathlib.Logic.Function.Basic
import Mathlib.Logic.Function.Iterate
import TestBuffer.Common.Object
/-!
# `ReaderWriterQueue`

The lock-free queue for one producer and one consumer. Blocks, each a
circular buffer with a power of two of slots, are linked in a circle; the
producer owns the tail of every block and `tailBlock`, the consumer the
front of every block and `frontBlock`. Each keeps for every block an older
copy of the other's index, and reads the other's index only where the copy
says the block is full, or empty.

A step reads or writes the other thread's variables at most once, so
everything the two can see of each other is interleaved; what a thread
reads of its own variables goes with the step before or after. The
accesses are taken in one order that both threads see, and the fences are
left out with everything weaker. So is `ReentrantGuard`, whose assertion
speaks of constructors and destructors of `T` that use the queue. Memory is
a map from addresses, of which the first `blocks` are allocated, each as
large as was asked for. A failed assertion, a null pointer followed and an
element read that was never constructed are steps that cannot be taken.
-/

namespace TestBuffer

namespace ReaderWriterQueue

variable {T : Type*}

/-! ## What the two threads call -/

/-- `AllocationMode`: what tells `enqueue` from `try_enqueue`. -/
inductive AllocationMode
  | canAlloc
  | cannotAlloc
  deriving DecidableEq

/-- The functions of the consumer. -/
inductive Op
  | tryDequeue
  | pop
  | peek
  deriving DecidableEq

/-- What they return; of a pointer, what it points to. -/
inductive Answer (T : Type*)
  | dequeued (x : Option T)
  | popped (ok : Bool)
  | peeked (x : Option T)
  deriving DecidableEq

/-- The answer that there is an element. -/
def Op.found (op : Op) (x : T) : Answer T :=
  match op with
  | .tryDequeue => .dequeued (some x)
  | .pop => .popped true
  | .peek => .peeked (some x)

/-- The answer that there is none. -/
def Op.empty (op : Op) : Answer T :=
  match op with
  | .tryDequeue => .dequeued none
  | .pop => .popped false
  | .peek => .peeked none

/-- What passes between the queue and its surroundings. -/
inductive Event (T : Type*)
  /-- The producer calls `inner_enqueue`. -/
  | enqueue (mode : AllocationMode) (x : T)
  /-- The producer asks for memory, and whether there is some. -/
  | malloc (ok : Bool)
  /-- `inner_enqueue` returns. -/
  | enqueued (ok : Bool)
  /-- The consumer calls. -/
  | call (op : Op)
  /-- The consumer's call returns. -/
  | returned (r : Answer T)

/-! ## Memory -/

/-- `Block`. A slot holds an element from its construction to its
destruction. -/
structure Block (T : Type*) where
  front : ℕ
  localTail : ℕ
  tail : ℕ
  localFront : ℕ
  next : Option ℕ
  data : ℕ → Option T
  sizeMask : ℕ

/-- `sizeof` and `alignof` of a block and of an element. -/
structure Sizes where
  block : ℕ
  blockAlign : ℕ
  element : ℕ
  elementAlign : ℕ

/-- `size`, in `make_block`: the bytes asked of `malloc`, while they fit in
64 bits. -/
def Sizes.request (z : Sizes) (capacity : ℕ) : ℕ :=
  z.block + (z.blockAlign - 1) + (z.element * capacity + (z.elementAlign - 1))

/-- `make_block`, where `malloc` succeeds and the request fits. -/
def makeBlock (capacity : ℕ) : Block T where
  front := 0
  localTail := 0
  tail := 0
  localFront := 0
  next := none
  data := fun _ => none
  sizeMask := (capacity + (2 ^ 64 - 1)) % 2 ^ 64

/-- Where the producer stands in `inner_enqueue`, with its local
variables. -/
inductive Producer (T : Type*)
  | idle
  | start (mode : AllocationMode) (x : T)
  /-- The copy of `front` says full; before `front` is read. -/
  | readFront (mode : AllocationMode) (x : T) (blk blockTail nextBlockTail : ℕ)
  /-- Before the element is constructed in the tail block. -/
  | write (x : T) (blk blockTail nextBlockTail : ℕ)
  | publish (x : T) (blk nextBlockTail : ℕ)
  /-- The tail block was full; before `frontBlock` is read. -/
  | full (mode : AllocationMode) (x : T) (blk : ℕ)
  /-- Before `front` of the free block ahead is read. -/
  | advance (x : T) (blk : ℕ)
  | readTail (x : T) (tailBlockNext nextBlockFront : ℕ)
  /-- Before the element is constructed in the block ahead. -/
  | writeNext (x : T) (tailBlockNext nextBlockTail : ℕ)
  | publishNext (x : T) (tailBlockNext nextBlockTail : ℕ)
  /-- Before `make_block`. -/
  | alloc (x : T) (blk : ℕ)
  /-- The new block filled; before the tail block links to it. -/
  | link (x : T) (blk newBlock : ℕ)
  /-- Before `tailBlock` is written. -/
  | moveTail (x : T) (newBlock : ℕ)
  | answer (ok : Bool)

/-- Where the consumer stands in one of its functions, with its local
variables. Between calls it holds the pointer of its last `peek`. -/
inductive Consumer (T : Type*)
  | idle (held : Option (ℕ × ℕ))
  | start (op : Op)
  /-- The copy of `tail` says empty; before `tail` is read. -/
  | readTail (op : Op) (blk blockFront : ℕ)
  /-- The front block was empty; before `tailBlock` is read. -/
  | readTailBlock (op : Op) (blk : ℕ)
  /-- There is a block ahead; before `tail` is read again. -/
  | reread (op : Op)
  /-- The front block is empty; before `next` is followed. -/
  | readNext (op : Op) (blk : ℕ)
  | readNextTail (op : Op) (nextBlock nextBlockFront : ℕ)
  /-- Before `frontBlock` is written. -/
  | moveFront (op : Op) (nextBlock nextBlockFront : ℕ)
  /-- Before the element is moved out and destroyed. -/
  | take (op : Op) (blk blockFront : ℕ)
  | publish (op : Op) (blk blockFront : ℕ) (element : T)
  | pointer (p : Option (ℕ × ℕ))
  | answer (r : Answer T)

/-- The members of the queue, and the blocks. -/
structure Members (T : Type*) where
  heap : ℕ → Block T
  /-- The number of blocks allocated. -/
  blocks : ℕ
  frontBlock : ℕ
  tailBlock : ℕ
  largestBlockSize : ℕ

/-- What a pointer into a block points to. -/
def Members.deref (m : Members T) (p : ℕ × ℕ) : Option T := (m.heap p.1).data p.2

/-- The queue, with what its two threads are doing. -/
structure State (T : Type*) extends Members T where
  producer : Producer T
  consumer : Consumer T

/-- A write to a block. -/
def State.modify (s : State T) (p : ℕ) (f : Block T → Block T) : State T :=
  { s with heap := Function.update s.heap p (f (s.heap p)) }

/-! ## `inner_enqueue` -/

/-- A step of the producer, but for the allocation. -/
def produce (s : State T) : Option (State T) :=
  match s.producer with
  | .start mode x =>
    let tailBlock_ := s.tailBlock
    let b := s.heap tailBlock_
    let nextBlockTail := (b.tail + 1) &&& b.sizeMask
    if nextBlockTail ≠ b.localFront then
      some { s with producer := .write x tailBlock_ b.tail nextBlockTail }
    else some { s with producer := .readFront mode x tailBlock_ b.tail nextBlockTail }
  | .readFront mode x blk blockTail nextBlockTail =>
    let s' := s.modify blk fun b => { b with localFront := b.front }
    if nextBlockTail ≠ (s.heap blk).front then
      some { s' with producer := .write x blk blockTail nextBlockTail }
    else some { s' with producer := .full mode x blk }
  | .write x blk blockTail nextBlockTail =>
    some { s.modify blk fun b => { b with data := Function.update b.data blockTail (some x) } with
      producer := .publish x blk nextBlockTail }
  | .publish _ blk nextBlockTail =>
    some { s.modify blk fun b => { b with tail := nextBlockTail } with producer := .answer true }
  | .full mode x blk =>
    if (s.heap blk).next ≠ some s.frontBlock then some { s with producer := .advance x blk }
    else match mode with
      | .canAlloc => some { s with producer := .alloc x blk }
      | .cannotAlloc => some { s with producer := .answer false }
  | .advance x blk =>
    match (s.heap blk).next with
    | none => none
    | some tailBlockNext =>
      some { s.modify tailBlockNext fun b => { b with localFront := b.front } with
        producer := .readTail x tailBlockNext (s.heap tailBlockNext).front }
  | .readTail x tailBlockNext nextBlockFront =>
    -- this block must be empty since it is not the head block
    if nextBlockFront = (s.heap tailBlockNext).tail then
      some { s.modify tailBlockNext fun b => { b with localFront := nextBlockFront } with
        producer := .writeNext x tailBlockNext (s.heap tailBlockNext).tail }
    else none
  | .writeNext x tailBlockNext nextBlockTail =>
    some { s.modify tailBlockNext fun b =>
        { b with data := Function.update b.data nextBlockTail (some x) } with
      producer := .publishNext x tailBlockNext nextBlockTail }
  | .publishNext x tailBlockNext nextBlockTail =>
    some { s.modify tailBlockNext fun b => { b with tail := (nextBlockTail + 1) &&& b.sizeMask } with
      producer := .moveTail x tailBlockNext }
  | .link x blk newBlock =>
    some { s.modify blk fun b => { b with next := some newBlock } with
      producer := .moveTail x newBlock }
  | .moveTail _ newBlock => some { s with tailBlock := newBlock, producer := .answer true }
  | .idle | .alloc _ _ | .answer _ => none

/-- The new block, filled before anybody can see it. -/
def newBlock (capacity : ℕ) (x : T) (next : Option ℕ) : Block T :=
  { (makeBlock capacity : Block T) with
    data := Function.update (fun _ => none) 0 (some x), tail := 1, localTail := 1, next := next }

/-- `newBlockSize`. -/
def newBlockSize (maxBlockSize largestBlockSize : ℕ) : ℕ :=
  if largestBlockSize ≥ maxBlockSize then largestBlockSize else largestBlockSize * 2

/-- The allocation, which the surroundings grant or not. -/
def allocate (maxBlockSize : ℕ) (s : State T) (ok : Bool) : Option (State T) :=
  match s.producer, ok with
  | .alloc _ _, false => some { s with producer := .answer false }
  | .alloc x blk, true =>
    let size := newBlockSize maxBlockSize s.largestBlockSize
    some { s with
      heap := Function.update s.heap s.blocks (newBlock size x (s.heap blk).next)
      blocks := s.blocks + 1
      largestBlockSize := size
      producer := .link x blk s.blocks }
  | _, _ => none

/-! ## `try_dequeue`, `pop` and `peek` -/

/-- Where the consumer goes with an element found. -/
def Op.atElement (op : Op) (blk blockFront : ℕ) : Consumer T :=
  match op with
  | .peek => .pointer (some (blk, blockFront))
  | .tryDequeue | .pop => .take op blk blockFront

/-- Where it goes with none. -/
def Op.atEmpty (op : Op) : Consumer T :=
  match op with
  | .peek => .pointer none
  | .tryDequeue | .pop => .answer op.empty

/-- A step of the consumer. -/
def consume (s : State T) : Option (State T) :=
  match s.consumer with
  | .start op =>
    let frontBlock_ := s.frontBlock
    let b := s.heap frontBlock_
    if b.front ≠ b.localTail then some { s with consumer := op.atElement frontBlock_ b.front }
    else some { s with consumer := .readTail op frontBlock_ b.front }
  | .readTail op blk blockFront =>
    let s' := s.modify blk fun b => { b with localTail := b.tail }
    if blockFront ≠ (s.heap blk).tail then some { s' with consumer := op.atElement blk blockFront }
    else some { s' with consumer := .readTailBlock op blk }
  | .readTailBlock op blk =>
    if blk ≠ s.tailBlock then some { s with consumer := .reread op }
    else some { s with consumer := op.atEmpty }
  | .reread op =>
    let frontBlock_ := s.frontBlock
    let b := s.heap frontBlock_
    let s' := s.modify frontBlock_ fun b => { b with localTail := b.tail }
    -- the front block may not be empty after all
    if b.front ≠ b.tail then some { s' with consumer := op.atElement frontBlock_ b.front }
    else some { s' with consumer := .readNext op frontBlock_ }
  | .readNext op blk =>
    match (s.heap blk).next with
    | none => none
    | some nextBlock =>
      some { s with consumer := .readNextTail op nextBlock (s.heap nextBlock).front }
  | .readNextTail op nextBlock nextBlockFront =>
    -- the tail block is only ever advanced after being written to
    if nextBlockFront = (s.heap nextBlock).tail then none
    else if op = .peek then some { s with consumer := .pointer (some (nextBlock, nextBlockFront)) }
    else some { s.modify nextBlock fun b => { b with localTail := b.tail } with
      consumer := .moveFront op nextBlock nextBlockFront }
  | .moveFront op nextBlock nextBlockFront =>
    some { s with frontBlock := nextBlock, consumer := .take op nextBlock nextBlockFront }
  | .take op blk blockFront =>
    match (s.heap blk).data blockFront with
    | none => none
    | some element =>
      some { s.modify blk fun b => { b with data := Function.update b.data blockFront none } with
        consumer := .publish op blk ((blockFront + 1) &&& (s.heap blk).sizeMask) element }
  | .publish op blk blockFront element =>
    some { s.modify blk fun b => { b with front := blockFront } with
      consumer := .answer (op.found element) }
  | .idle _ | .pointer _ | .answer _ => none

/-! ## The constructor -/

/-- `ceilToPow2`, on 64 bits. -/
def ceilToPow2 (x : ℕ) : ℕ :=
  let x := (x + (2 ^ 64 - 1)) % 2 ^ 64
  let x := x ||| x >>> 1
  let x := x ||| x >>> 2
  let x := x ||| x >>> 4
  -- the loop, at 1, 2 and 4 bytes
  let x := x ||| x >>> 8
  let x := x ||| x >>> 16
  let x := x ||| x >>> 32
  (x + 1) % 2 ^ 64

/-- What the loop of the constructor has built. -/
structure Built (T : Type*) where
  heap : ℕ → Block T
  blocks : ℕ
  firstBlock : Option ℕ
  lastBlock : Option ℕ

/-- Nothing is allocated. -/
def Built.none : Built T := ⟨fun _ => makeBlock 0, 0, Option.none, Option.none⟩

/-- One more block, where `malloc` succeeds. -/
def Built.addBlock (maxBlockSize : ℕ) (c : Built T) : Built T :=
  let block := c.blocks
  let heap := Function.update c.heap block (makeBlock maxBlockSize)
  let first := c.firstBlock.getD block
  let heap :=
    match c.lastBlock with
    | Option.none => heap
    | some lastBlock =>
      Function.update heap lastBlock { heap lastBlock with next := some block }
  { heap := Function.update heap block { heap block with next := some first }
    blocks := c.blocks + 1
    firstBlock := some first
    lastBlock := some block }

/-- The queue the constructor builds, where every `malloc` succeeds. -/
def construct (maxBlockSize maxSize : ℕ) : State T :=
  let largestBlockSize := ceilToPow2 (maxSize + 1)
  if largestBlockSize > maxBlockSize * 2 then
    let initialBlockCount := (maxSize + maxBlockSize * 2 - 3) / (maxBlockSize - 1)
    let c := (Built.addBlock maxBlockSize)^[initialBlockCount] Built.none
    { heap := c.heap
      blocks := c.blocks
      frontBlock := c.firstBlock.getD 0
      tailBlock := c.firstBlock.getD 0
      largestBlockSize := maxBlockSize
      producer := .idle
      consumer := .idle none }
  else
    { heap := Function.update Built.none.heap 0 { (makeBlock largestBlockSize : Block T) with
        next := some 0 }
      blocks := 1
      frontBlock := 0
      tailBlock := 0
      largestBlockSize := largestBlockSize
      producer := .idle
      consumer := .idle none }

/-! ## The object -/

/-- The threads. -/
inductive Side
  | producer
  | consumer
  deriving DecidableEq

variable [DecidableEq T]

/-- What the queue does. -/
def step (maxBlockSize : ℕ) (s : State T) : Act (Event T) Side → Option (State T)
  | .event (.enqueue mode x) =>
    match s.producer with
    | .idle => some { s with producer := .start mode x }
    | _ => none
  | .event (.malloc ok) => allocate maxBlockSize s ok
  | .event (.enqueued ok) =>
    match s.producer with
    | .answer ok' => if ok = ok' then some { s with producer := .idle } else none
    | _ => none
  | .event (.call op) =>
    match s.consumer with
    | .idle _ => some { s with consumer := .start op }
    | _ => none
  | .event (.returned r) =>
    match s.consumer with
    | .answer r' => if r = r' then some { s with consumer := .idle none } else none
    | .pointer none => if r = .peeked none then some { s with consumer := .idle none } else none
    | .pointer (some p) =>
      match s.deref p with
      | none => none
      | some x => if r = .peeked (some x) then some { s with consumer := .idle (some p) } else none
    | _ => none
  | .inner .producer => produce s
  | .inner .consumer => consume s

/-- **`ReaderWriterQueue<T, MAX_BLOCK_SIZE>(maxSize)`**, with one thread
for each role. -/
def queue (T : Type*) [DecidableEq T] (maxBlockSize maxSize : ℕ) :
    Object (State T) (Event T) Side where
  Init s := s = construct maxBlockSize maxSize
  step := step maxBlockSize

end ReaderWriterQueue

end TestBuffer
