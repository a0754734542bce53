import TestBuffer.ReaderWriterQueue.Model
/-!
# What a `ReaderWriterQueue` is for

A queue for one producer and one consumer, as its two threads see it: an
operation is called, takes effect in one step somewhere before it returns,
and returns. An element is added at the back and taken at the front. The
consumer may be told that there is none only if there was none when it
called, and the producer may be refused, or made to ask for memory, only
if at least `capacity` elements were held when it called: what the
documentation means by "can hold maxSize elements without further
allocations".
-/

namespace TestBuffer

namespace ReaderWriterQueue

namespace Spec

variable {T : Type*}

/-- Where the producer stands. -/
inductive Producer (T : Type*)
  | idle
  /-- Called when the queue held `held` elements. -/
  | pending (mode : AllocationMode) (x : T) (held : ℕ)
  /-- It was given memory. -/
  | granted (x : T)
  | answered (ok : Bool)

/-- Where the consumer stands. -/
inductive Consumer (T : Type*)
  | idle
  /-- Called, and whether the queue was empty then. -/
  | pending (op : Op) (wasEmpty : Bool)
  | answered (r : Answer T)

/-- The elements held, oldest first, and the calls under way. -/
structure State (T : Type*) where
  contents : List T
  producer : Producer T
  consumer : Consumer T

/-- What happens within a call. -/
inductive Effect
  | insert
  | refuse
  | respond
  | empty
  deriving DecidableEq

/-- What the queue does. -/
def step [DecidableEq T] (capacity : ℕ) (t : State T) : Act (Event T) Effect → Option (State T)
  | .event (.enqueue mode x) =>
    match t.producer with
    | .idle => some { t with producer := .pending mode x t.contents.length }
    | _ => none
  | .event (.malloc ok) =>
    match t.producer with
    | .pending .canAlloc x held =>
      if capacity ≤ held then
        some { t with producer := if ok = true then .granted x else .answered false }
      else none
    | _ => none
  | .event (.enqueued ok) =>
    match t.producer with
    | .answered ok' => if ok = ok' then some { t with producer := .idle } else none
    | _ => none
  | .event (.call op) =>
    match t.consumer with
    | .idle => some { t with consumer := .pending op t.contents.isEmpty }
    | _ => none
  | .event (.returned r) =>
    match t.consumer with
    | .answered r' => if r = r' then some { t with consumer := .idle } else none
    | _ => none
  | .inner .insert =>
    match t.producer with
    | .pending _ x _ | .granted x =>
      some { t with contents := t.contents ++ [x], producer := .answered true }
    | _ => none
  | .inner .refuse =>
    match t.producer with
    | .pending .cannotAlloc _ held =>
      if capacity ≤ held then some { t with producer := .answered false } else none
    | _ => none
  | .inner .respond =>
    match t.consumer, t.contents with
    | .pending .peek _, x :: _ => some { t with consumer := .answered (.peeked (some x)) }
    | .pending op _, x :: xs =>
      some { t with contents := xs, consumer := .answered (op.found x) }
    | _, _ => none
  | .inner .empty =>
    match t.consumer with
    | .pending op true => some { t with consumer := .answered op.empty }
    | _ => none

/-- **The queue**, as it is meant. -/
def queue (T : Type*) [DecidableEq T] (capacity : ℕ) : Object (State T) (Event T) Effect where
  Init t := t = ⟨[], .idle, .idle⟩
  step := step capacity

end Spec

end ReaderWriterQueue

end TestBuffer
