import TestBuffer.BlockingReaderWriterQueue.Model
/-!
# What a `BlockingReaderWriterQueue` is for

A queue whose elements are inserted first and given out for dequeuing
after: between the two the last element is there for `peek` to see, and no
dequeue gets it. A dequeue takes the first element in one step. It may
fail only at a moment when no element is given out, and `wait_dequeue` and
a wait with a negative timeout cannot. An enqueue may fail only if at
least `capacity` elements were held when it was called.
-/

namespace TestBuffer

namespace BlockingReaderWriterQueue

/-- Whether a dequeue may fail. -/
def Op.mayFail : Op → Bool
  | .tryDequeue | .pop | .peek => true
  | .waitDequeue => false
  | .waitDequeueTimed timeout_usecs => 0 ≤ timeout_usecs

namespace Spec

open ReaderWriterQueue (Answer)

variable {T : Type*}

/-- Where the producer stands. -/
inductive Producer (T : Type*)
  | idle
  /-- Called when the queue held `held` elements. -/
  | pending (x : T) (held : ℕ)
  /-- The element is there, and not given out. -/
  | inserted
  | answered (ok : Bool)

/-- The elements inserted and not given out. -/
def Producer.withheld : Producer T → ℕ
  | .inserted => 1
  | .idle | .pending _ _ | .answered _ => 0

/-- Where the consumer stands. -/
inductive Consumer (T : Type*)
  | idle
  /-- Called, and whether the queue was empty then. -/
  | pending (op : Op) (wasEmpty : Bool)
  | answered (r : Answer T)

/-- The elements held, oldest first, and the calls under way. -/
structure State (T : Type*) where
  contents : List T
  producer : Producer T
  consumer : Consumer T

/-- The number of elements a dequeue may get. -/
def State.ready (t : State T) : ℕ := t.contents.length - t.producer.withheld

/-- What happens within a call. -/
inductive Effect
  | insert
  | publish
  | refuse
  | respond
  | empty
  deriving DecidableEq

/-- What the queue does. -/
def step [DecidableEq T] (capacity : ℕ) (t : State T) : Act (Event T) Effect → Option (State T)
  | .event (.enqueue _ x) =>
    match t.producer with
    | .idle => some { t with producer := .pending x t.contents.length }
    | _ => none
  | .event (.enqueued ok) =>
    match t.producer with
    | .answered ok' => if ok = ok' then some { t with producer := .idle } else none
    | _ => none
  | .event (.call op) =>
    match t.consumer with
    | .idle => some { t with consumer := .pending op t.contents.isEmpty }
    | _ => none
  | .event (.returned r) =>
    match t.consumer with
    | .answered r' => if r = r' then some { t with consumer := .idle } else none
    | _ => none
  | .inner .insert =>
    match t.producer with
    | .pending x _ => some { t with contents := t.contents ++ [x], producer := .inserted }
    | _ => none
  | .inner .publish =>
    match t.producer with
    | .inserted => some { t with producer := .answered true }
    | _ => none
  | .inner .refuse =>
    match t.producer with
    | .pending _ held =>
      if capacity ≤ held then some { t with producer := .answered false } else none
    | _ => none
  | .inner .respond =>
    match t.consumer, t.contents with
    | .pending .peek _, x :: _ => some { t with consumer := .answered (.peeked (some x)) }
    | .pending op _, x :: xs =>
      if 0 < t.ready then
        some { t with contents := xs, consumer := .answered (op.inner.found x) }
      else none
    | _, _ => none
  | .inner .empty =>
    match t.consumer with
    | .pending .peek wasEmpty =>
      if wasEmpty = true then some { t with consumer := .answered (.peeked none) } else none
    | .pending op _ =>
      if op.mayFail = true ∧ t.ready = 0 then
        some { t with consumer := .answered op.inner.empty }
      else none
    | _ => none

/-- **The queue**, as it is meant. -/
def queue (T : Type*) [DecidableEq T] (capacity : ℕ) : Object (State T) (Event T) Effect where
  Init t := t = ⟨[], .idle, .idle⟩
  step := step capacity

end Spec

end BlockingReaderWriterQueue

end TestBuffer
