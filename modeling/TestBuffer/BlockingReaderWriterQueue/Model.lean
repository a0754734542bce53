import TestBuffer.LightweightSemaphore.Model
import TestBuffer.ReaderWriterQueue.Model
/-!
# `BlockingReaderWriterQueue`

The queue `buf-moody` uses: a `ReaderWriterQueue`, and a semaphore that is
signaled after each enqueue and waited on before each dequeue, so that the
consumer may sleep. It is a program for the two threads on the two objects
it has as members, whose calls and returns are events between them; the
steps of the program are these calls and returns and nothing else.

`peek` does not ask the semaphore. The overloads for a copied and a moved
element are one function, and a timeout in another unit is one in
microseconds.
-/

namespace TestBuffer

namespace BlockingReaderWriterQueue

open ReaderWriterQueue (AllocationMode Answer)

variable {T : Type*}

/-! ## What the two threads call -/

/-- The functions of the consumer. -/
inductive Op
  | tryDequeue
  | waitDequeue
  | waitDequeueTimed (timeout_usecs : ℤ)
  | pop
  | peek
  deriving DecidableEq

/-- What passes between the queue and its surroundings. -/
inductive Event (T : Type*)
  /-- The producer calls `try_enqueue` or `enqueue`. -/
  | enqueue (mode : AllocationMode) (x : T)
  /-- It returns. -/
  | enqueued (ok : Bool)
  /-- The consumer calls. -/
  | call (op : Op)
  /-- The consumer's call returns. -/
  | returned (r : Answer T)

/-- What is asked of `sema` first, if anything. -/
def Op.sema : Op → Option LightweightSemaphore.Op
  | .tryDequeue | .pop => some .tryWait
  | .waitDequeue => some (.wait (-1))
  | .waitDequeueTimed timeout_usecs => some (.wait timeout_usecs)
  | .peek => none

/-- What is asked of `inner`. -/
def Op.inner : Op → ReaderWriterQueue.Op
  | .tryDequeue | .waitDequeue | .waitDequeueTimed _ => .tryDequeue
  | .pop => .pop
  | .peek => .peek

/-- `success`, in what `inner` returns. -/
def success : Answer T → Bool
  | .dequeued x => x.isSome
  | .popped ok => ok
  | .peeked x => x.isSome

/-! ## Where the threads stand -/

/-- Where the producer stands. -/
inductive Producer (T : Type*)
  | idle
  /-- Before `inner` is called. -/
  | start (mode : AllocationMode) (x : T)
  /-- In `inner`. -/
  | enqueuing
  /-- Before `sema.signal()`. -/
  | signal
  | signaling
  | answer (ok : Bool)

/-- Where the consumer stands. -/
inductive Consumer (T : Type*)
  | idle
  /-- Before `sema` is asked. -/
  | wait (op : Op)
  | waiting (op : Op)
  /-- Let through; before `inner` is called. -/
  | dequeue (op : Op)
  | dequeuing (op : Op)
  /-- Before `inner.peek()`. -/
  | look
  | looking
  | answer (r : Answer T)
  /-- `assert(success)` failed. -/
  | failed

/-- Where both do. -/
structure Program (T : Type*) where
  producer : Producer T
  consumer : Consumer T

/-! ## The program -/

variable [DecidableEq T]

/-- The calls and returns of `inner`. -/
def onInner (p : Program T) : ReaderWriterQueue.Event T → Option (Program T)
  | .enqueue mode x =>
    match p.producer with
    | .start mode' x' => if mode = mode' ∧ x = x' then some { p with producer := .enqueuing } else none
    | _ => none
  | .malloc _ =>
    match p.producer with
    | .enqueuing => some p
    | _ => none
  | .enqueued ok =>
    match p.producer with
    | .enqueuing => some { p with producer := if ok = true then .signal else .answer false }
    | _ => none
  | .call op =>
    match p.consumer with
    | .dequeue op' => if op = op'.inner then some { p with consumer := .dequeuing op' } else none
    | .look => if op = .peek then some { p with consumer := .looking } else none
    | _ => none
  | .returned r =>
    match p.consumer with
    | .dequeuing _ => some { p with consumer := if success r = true then .answer r else .failed }
    | .looking => some { p with consumer := .answer r }
    | _ => none

/-- The calls and returns of `sema`. -/
def onSema (p : Program T) : LightweightSemaphore.Event → Option (Program T)
  | .call op =>
    match p.consumer with
    | .wait op' => if some op = op'.sema then some { p with consumer := .waiting op' } else none
    | _ => none
  | .returned ok =>
    match p.consumer with
    | .waiting op =>
      -- `wait_dequeue` does not look at what `wait` returns
      if ok = true ∨ op = .waitDequeue then some { p with consumer := .dequeue op }
      else some { p with consumer := .answer op.inner.empty }
    | _ => none
  | .signal count =>
    match p.producer with
    | .signal => if count = 1 then some { p with producer := .signaling } else none
    | _ => none
  | .signaled =>
    match p.producer with
    | .signaling => some { p with producer := .answer true }
    | _ => none

/-- The calls and returns of the queue itself. -/
def onOuter (p : Program T) : Event T → Option (Program T)
  | .enqueue mode x =>
    match p.producer with
    | .idle => some { p with producer := .start mode x }
    | _ => none
  | .enqueued ok =>
    match p.producer with
    | .answer ok' => if ok = ok' then some { p with producer := .idle } else none
    | _ => none
  | .call op =>
    match p.consumer with
    | .idle => some { p with consumer := if op = .peek then .look else .wait op }
    | _ => none
  | .returned r =>
    match p.consumer with
    | .answer r' => if r = r' then some { p with consumer := .idle } else none
    | _ => none

/-- What the two threads run. -/
def program (T : Type*) [DecidableEq T] : Object (Program T)
    (ReaderWriterQueue.Event T ⊕ (LightweightSemaphore.Event ⊕ Event T)) Empty where
  Init p := p = ⟨.idle, .idle⟩
  step p a :=
    match a with
    | .event (.inl e) => onInner p e
    | .event (.inr (.inl e)) => onSema p e
    | .event (.inr (.inr e)) => onOuter p e

/-- The program, with its members `inner` and `sema`. -/
abbrev State (T : Type*) := (Program T × ReaderWriterQueue.State T) × LightweightSemaphore.State

/-- What is done within a call: a step of `sema`, of `inner`, or a call or
return of one of them. -/
abbrev Step (T : Type*) :=
  Object.Inside LightweightSemaphore.Event
    (Object.Inside (ReaderWriterQueue.Event T) Empty ReaderWriterQueue.Side)
    LightweightSemaphore.Step

/-- **`BlockingReaderWriterQueue<T, MAX_BLOCK_SIZE>(maxSize)`**, with one
thread for each role. -/
def queue (T : Type*) [DecidableEq T] (maxBlockSize maxSize : ℕ) :
    Object (State T) (Event T) (Step T) :=
  ((program T).on (ReaderWriterQueue.queue T maxBlockSize maxSize)).on
    (LightweightSemaphore.semaphore 0)

/-- The queue the constructor builds. -/
def construct (maxBlockSize maxSize : ℕ) : State T :=
  ((⟨.idle, .idle⟩, ReaderWriterQueue.construct maxBlockSize maxSize), ⟨0, 0, .idle, .idle⟩)

/-- `size_approx`. -/
def sizeApprox (s : State T) : ℤ := s.2.availableApprox

end BlockingReaderWriterQueue

end TestBuffer
