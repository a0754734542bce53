import TestBuffer.BlockingReaderWriterQueue.Refine
/-!
# Whole calls of the blocking queue

A program that uses the queue sees calls, not the steps of the members.
Where neither thread is in a call of a member (`between`), what a call
does until the next such place is a run of the program on what its members
are for, and says which events it has. The calls are those of
`buf-moody`: an enqueue, which inserts and then signals, a `try_dequeue`,
which is let through and then takes, and a `peek`.
-/

namespace TestBuffer

namespace BlockingReaderWriterQueue

variable {T : Type*}

/-- The elements whose enqueue a history has seen called. -/
def arrivals (es : List (Event T)) : List T :=
  es.filterMap fun
    | .enqueue _ x => some x
    | _ => none

/-- The elements it has seen dequeued. -/
def departures (es : List (Event T)) : List T :=
  es.filterMap fun
    | .returned (.dequeued x) => x
    | _ => none

/-- The queue with neither thread in a call of a member: the producer is
before `sema.signal()` or in no call at all, and the consumer before
`inner.try_dequeue()` or in none. -/
def between (contents : List T) (permits : ℕ) (signal dequeue : Bool) : Middle T :=
  ((⟨if signal = true then .signal else .idle,
      if dequeue = true then .dequeue .tryDequeue else .idle⟩,
    ⟨contents, .idle, .idle⟩), ⟨permits, .idle, .idle⟩)

variable [DecidableEq T] {capacity : ℕ} {m m' m'' : Middle T} {es es' : List (Event T)}

/-- **A run with the given events.** -/
def Does (capacity : ℕ) (m m' : Middle T) (es : List (Event T)) : Prop :=
  ∃ bs, (middle T capacity).run m bs = some m' ∧ Act.history bs = es

theorem Does.refl (capacity : ℕ) (m : Middle T) : Does capacity m m [] := ⟨[], rfl, rfl⟩

theorem Does.trans (h : Does capacity m m' es) (h' : Does capacity m' m'' es') :
    Does capacity m m'' (es ++ es') := by
  obtain ⟨bs, hbs, rfl⟩ := h
  obtain ⟨cs, hcs, rfl⟩ := h'
  exact ⟨bs ++ cs, by rw [Machine.run_append, hbs, Option.bind_some, hcs], Act.history_append _ _⟩

variable {contents : List T} {n : ℕ} {p d : Bool}

/-- `enqueue`, until the element is in `inner`. -/
theorem does_insert (x : T) :
    Does capacity (between contents n false d) (between (contents ++ [x]) n true d)
      [.enqueue .canAlloc x] := by
  refine ⟨[.event (.enqueue .canAlloc x), .inner (.program (.shared (.enqueue .canAlloc x))),
    .inner (.program (.object .insert)), .inner (.program (.shared (.enqueued true)))], ?_, rfl⟩
  simp [Machine.run, between, middle, Object.on, program, onOuter, onInner,
    ReaderWriterQueue.Spec.queue, ReaderWriterQueue.Spec.step]

/-- The rest of it. -/
theorem does_signal :
    Does capacity (between contents n true d) (between contents (n + 1) false d)
      [.enqueued true] := by
  refine ⟨[.inner (.shared (.signal 1)), .inner (.object .add), .inner (.shared .signaled),
    .event (.enqueued true)], ?_, rfl⟩
  simp [Machine.run, between, middle, Object.on, program, onOuter, onSema,
    LightweightSemaphore.Spec.semaphore, LightweightSemaphore.Spec.step]

/-- `try_dequeue`, until it is let through. -/
theorem does_take :
    Does capacity (between contents (n + 1) p false) (between contents n p true)
      [.call .tryDequeue] := by
  refine ⟨[.event (.call .tryDequeue), .inner (.shared (.call .tryWait)), .inner (.object .take),
    .inner (.shared (.returned true))], ?_, rfl⟩
  simp [Machine.run, between, middle, Object.on, program, onOuter, onSema, Op.sema,
    LightweightSemaphore.Spec.semaphore, LightweightSemaphore.Spec.step]

/-- The rest of it. -/
theorem does_remove (x : T) :
    Does capacity (between (x :: contents) n p true) (between contents n p false)
      [.returned (.dequeued (some x))] := by
  refine ⟨[.inner (.program (.shared (.call .tryDequeue))), .inner (.program (.object .respond)),
    .inner (.program (.shared (.returned (.dequeued (some x))))),
    .event (.returned (.dequeued (some x)))], ?_, rfl⟩
  simp [Machine.run, between, middle, Object.on, program, onOuter, onInner, Op.inner, success,
    ReaderWriterQueue.Op.found, ReaderWriterQueue.Spec.queue, ReaderWriterQueue.Spec.step]

/-- `try_dequeue`, not let through. -/
theorem does_fail :
    Does capacity (between contents 0 p false) (between contents 0 p false)
      [.call .tryDequeue, .returned (.dequeued none)] := by
  refine ⟨[.event (.call .tryDequeue), .inner (.shared (.call .tryWait)), .inner (.object .fail),
    .inner (.shared (.returned false)), .event (.returned (.dequeued none))], ?_, rfl⟩
  simp [Machine.run, between, middle, Object.on, program, onOuter, onSema, Op.sema, Op.inner,
    ReaderWriterQueue.Op.empty, LightweightSemaphore.Op.mayFail,
    LightweightSemaphore.Spec.semaphore, LightweightSemaphore.Spec.step]

/-- `peek`. -/
theorem does_peek :
    Does capacity (between contents n p false) (between contents n p false)
      [.call .peek, .returned (.peeked contents.head?)] := by
  cases contents with
  | nil =>
    refine ⟨[.event (.call .peek), .inner (.program (.shared (.call .peek))),
      .inner (.program (.object .empty)), .inner (.program (.shared (.returned (.peeked none)))),
      .event (.returned (.peeked none))], ?_, rfl⟩
    simp [Machine.run, between, middle, Object.on, program, onOuter, onInner,
      ReaderWriterQueue.Op.empty, ReaderWriterQueue.Spec.queue, ReaderWriterQueue.Spec.step]
  | cons x xs =>
    refine ⟨[.event (.call .peek), .inner (.program (.shared (.call .peek))),
      .inner (.program (.object .respond)),
      .inner (.program (.shared (.returned (.peeked (some x))))),
      .event (.returned (.peeked (some x)))], ?_, rfl⟩
    simp [Machine.run, between, middle, Object.on, program, onOuter, onInner,
      ReaderWriterQueue.Spec.queue, ReaderWriterQueue.Spec.step]

end BlockingReaderWriterQueue

end TestBuffer
