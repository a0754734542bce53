import TestBuffer.ReaderWriterQueue.Construct
import TestBuffer.ReaderWriterQueue.Refine
/-!
# What the two threads see

The queue refines its specification from the constructor on (`refines`),
so whatever history of calls and returns its two threads see, the
specification has it (`isHistory_spec`).
-/

namespace TestBuffer

namespace ReaderWriterQueue

variable {T : Type*} {z : Sizes} {maxBlockSize maxSize : ℕ}

/-- What the constructor builds is the empty queue. -/
theorem rel_construct (h : Config z maxBlockSize maxSize) :
    Rel maxBlockSize maxSize (construct maxBlockSize maxSize : State T) ⟨[], .idle, .idle⟩ := by
  obtain ⟨free, hl, hz⟩ := construct_layout (T := T) h
  obtain ⟨hp, hc⟩ := construct_idle (T := T) maxBlockSize maxSize
  refine ⟨[0], free, fun _ => [], ?_⟩
  rw [hp, hc]
  exact ⟨hl, hz, rfl, rfl, rfl, nofun⟩

variable [DecidableEq T]

/-- **The queue refines its specification.** -/
theorem refines (h : Config z maxBlockSize maxSize) :
    Object.Simulation (queue T maxBlockSize maxSize) (Spec.queue T maxSize)
      (Rel maxBlockSize maxSize) where
  init := by
    rintro s rfl
    exact ⟨_, rfl, rel_construct h⟩
  step _ _ _ _ hR hs := hR.step hs

/-- **Every history of the queue is one of the specification.** -/
theorem isHistory_spec (h : Config z maxBlockSize maxSize) {es : List (Event T)}
    (hh : (queue T maxBlockSize maxSize).IsHistory es) : (Spec.queue T maxSize).IsHistory es :=
  (refines h).isHistory hh

/-- One element goes through the queue, and is looked at there. -/
def passOne : List (Act (Event ℕ) Side) :=
  [.event (.enqueue .canAlloc 7), .inner .producer, .inner .producer, .inner .producer,
    .event (.enqueued true), .event (.call .peek), .inner .consumer, .inner .consumer,
    .event (.returned (.peeked (some 7))), .event (.call .tryDequeue), .inner .consumer,
    .inner .consumer, .inner .consumer, .event (.returned (.dequeued (some 7)))]

/-- The producer enqueues another element. -/
def another : List (Act (Event ℕ) Side) :=
  [.event (.enqueue .canAlloc 8), .inner .producer, .inner .producer, .inner .producer,
    .event (.enqueued true)]

theorem isHistory_spec_passOne : (Spec.queue ℕ 15).IsHistory [.enqueue .canAlloc 7,
    .enqueued true, .call .peek, .returned (.peeked (some 7)), .call .tryDequeue,
    .returned (.dequeued (some 7))] :=
  isHistory_spec config_default ⟨_, passOne, _, rfl, rfl, rfl⟩

end ReaderWriterQueue

end TestBuffer
