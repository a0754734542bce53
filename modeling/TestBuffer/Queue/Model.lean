import TestBuffer.Common.DropOldest
import TestBuffer.Common.Monitor
/-!
# `queue<T>`

A bounded queue behind `m_mutex`: a circular buffer pushed at its front and
popped at its back, and beside it `m_unread`, the index at which a pop
reads. `m_unread` is a `size_t`, here a word of any width `w`; the
constructor does not initialise it, so a new queue takes what its memory
held as a parameter. A push increments it whether or not the container
grows, and a pop reads at `--m_unread` while it removes at the back.
-/

namespace TestBuffer

variable {T : Type*} {w : ℕ}

/-- `queue<T>`. -/
structure Queue (w : ℕ) (T : Type*) where
  mContainer : Ring T
  mUnread : BitVec w
  deriving DecidableEq

/-- What a pop read: the index used on `m_container`, and the value there,
`none` where the index is out of range. -/
structure Taken (T : Type*) where
  index : ℕ
  value : Option T
  deriving DecidableEq

namespace Queue

/-- The constructor, in memory where `m_unread` happens to be `garbage`. -/
def new (capacity garbage : BitVec w) : Queue w T := ⟨.new capacity.toNat, garbage⟩

/-- `push`, under the lock. -/
def push (q : Queue w T) (data : T) : Queue w T :=
  ⟨q.mContainer.pushFront data, q.mUnread + 1⟩

/-- What `try_pop` and `wait_and_pop` do on a container that is not empty:
read at `--m_unread`, then `pop_back`. -/
def take (q : Queue w T) : Queue w T × Taken T :=
  let mUnread := q.mUnread - 1
  (⟨q.mContainer.popBack, mUnread⟩, ⟨mUnread.toNat, q.mContainer.get? mUnread.toNat⟩)

/-- `try_pop`, under the lock; nothing is taken where it returns `false`. -/
def tryPop (q : Queue w T) : Queue w T × Option (Taken T) :=
  if q.mContainer.items = [] then (q, none) else (q.take.1, some q.take.2)

/-- `wait_and_pop`, under the lock, `none` while `m_container.empty()`. -/
def waitAndPop (q : Queue w T) : Option (Queue w T × Taken T) :=
  if q.mContainer.items = [] then none else some q.take

/-! ## Any number of threads -/

/-- The calls clients make. -/
inductive Op (T : Type*)
  | push (data : T)
  | tryPop
  | waitAndPop
  deriving DecidableEq

/-- What a completed section did. -/
inductive Event (T : Type*)
  /-- A push put an item in, and overwrote another if the container was
  full. -/
  | pushed (i : Item T) (overwrote : Option (Item T))
  /-- A pop on a container of a given size read at an index and removed
  the back. -/
  | popped (size : ℕ) (t : Taken (Item T)) (removed : Option (Item T))
  /-- `try_pop` returned `false`. -/
  | notPopped
  deriving DecidableEq

/-- A queue and the number of pushes made on it, which names the next item
and which the code does not have. -/
structure Obj (w : ℕ) (T : Type*) where
  queue : Queue w (Item T)
  pushes : ℕ
  deriving DecidableEq

/-- The event of a pop that took `t`. -/
def Obj.popped (o : Obj w T) (t : Taken (Item T)) : Event T :=
  .popped o.queue.mContainer.size t o.queue.mContainer.back?

/-- The critical sections. -/
def body : Op T → Obj w T → Option (Obj w T × Event T)
  | .push x, o =>
    let i : Item T := ⟨o.pushes, x⟩
    some (⟨o.queue.push i, o.pushes + 1⟩, .pushed i (o.queue.mContainer.spilled i))
  | .tryPop, o =>
    match o.queue.tryPop with
    | (q, none) => some (⟨q, o.pushes⟩, .notPopped)
    | (q, some t) => some (⟨q, o.pushes⟩, o.popped t)
  | .waitAndPop, o => o.queue.waitAndPop.map fun qt => (⟨qt.1, o.pushes⟩, o.popped qt.2)

/-- **What a section can do**: push, find the container empty, or take
from a container that is not. -/
theorem body_cases {op : Op T} {o o' : Obj w T} {r : Event T} (h : body op o = some (o', r)) :
    (∃ x, op = .push x ∧ o' = ⟨o.queue.push ⟨o.pushes, x⟩, o.pushes + 1⟩ ∧
        r = .pushed ⟨o.pushes, x⟩ (o.queue.mContainer.spilled ⟨o.pushes, x⟩)) ∨
      (op = .tryPop ∧ o.queue.mContainer.items = [] ∧ o' = o ∧ r = .notPopped) ∨
      ((op = .tryPop ∨ op = .waitAndPop) ∧ o.queue.mContainer.items ≠ [] ∧
        o' = ⟨o.queue.take.1, o.pushes⟩ ∧ r = o.popped o.queue.take.2) := by
  cases op with
  | push x =>
    cases h
    exact Or.inl ⟨x, rfl, rfl, rfl⟩
  | tryPop =>
    by_cases he : o.queue.mContainer.items = []
    · simp only [body, tryPop, if_pos he, Option.some.injEq, Prod.mk.injEq] at h
      exact Or.inr (Or.inl ⟨rfl, he, h.1.symm, h.2.symm⟩)
    · simp only [body, tryPop, if_neg he, Option.some.injEq, Prod.mk.injEq] at h
      exact Or.inr (Or.inr ⟨Or.inl rfl, he, h.1.symm, h.2.symm⟩)
  | waitAndPop =>
    by_cases he : o.queue.mContainer.items = []
    · simp only [body, waitAndPop, if_pos he, Option.map_none, reduceCtorEq] at h
    · simp only [body, waitAndPop, if_neg he, Option.map_some, Option.some.injEq,
        Prod.mk.injEq] at h
      exact Or.inr (Or.inr ⟨Or.inr rfl, he, h.1.symm, h.2.symm⟩)

/-- A section cannot proceed only in `wait_and_pop`, on an empty
container. -/
theorem body_eq_none {op : Op T} {o : Obj w T} (h : body op o = none) :
    op = .waitAndPop ∧ o.queue.mContainer.items = [] := by
  cases op with
  | push x => cases h
  | tryPop =>
    simp only [body] at h
    split at h <;> cases h
  | waitAndPop =>
    by_cases he : o.queue.mContainer.items = []
    · exact ⟨rfl, he⟩
    · simp only [body, waitAndPop, if_neg he, Option.map_some, reduceCtorEq] at h

/-- **`queue<T>` as a monitor.** `push` notifies after its unlock;
`wait_and_pop` waits on an empty container; `try_pop` never waits. -/
def monitor (w : ℕ) (T : Type*) : Monitor (Obj w T) (Op T) (Event T) where
  body := body
  signal
    | .push _ => .after
    | .tryPop => .never
    | .waitAndPop => .never
  waits
    | .push _ => false
    | .tryPop => false
    | .waitAndPop => true
  waits_of_none h := by rw [(body_eq_none h).1]

/-- Threads using one queue of a given capacity, `m_unread` starting at
`garbage`. -/
abbrev machine (Tid T : Type*) [Fintype Tid] [DecidableEq Tid] (capacity garbage : BitVec w) :
    Machine (Monitor.State Tid (Obj w T) (Op T) (Event T)) (Monitor.Act Tid (Op T)) :=
  (monitor w T).machine ⟨.new capacity garbage, 0⟩

/-! ## What a history says -/

/-- The pushes so far that met a full container. -/
def overwrites : List (Event T) → ℕ
  | [] => 0
  | .pushed _ o :: h => overwrites h + o.toList.length
  | _ :: h => overwrites h

/-- What a user sees of a section. -/
def Event.obs : Event T → DropOldest.Obs (Item T)
  | .pushed i _ => .push i
  | .popped _ t _ => .pop t.value
  | .notPopped => .empty

end Queue

end TestBuffer
