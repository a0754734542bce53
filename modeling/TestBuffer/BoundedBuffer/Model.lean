import TestBuffer.Common.DropOldest
import TestBuffer.Common.Monitor
/-!
# `bounded_buffer<T>`

The buffer between `Server` and `Decoder`: a circular buffer behind
`m_mutex`, a push that overwrites when full, and a pop that waits while the
buffer is empty. `m_unread` is left out: the constructor sets it to zero,
nothing changes it, and only `is_not_empty` and `is_not_full`, which
nothing calls, read it. So is `m_not_full`, which nothing waits on.
-/

namespace TestBuffer

variable {T : Type*}

/-- `bounded_buffer<T>`. -/
structure BoundedBuffer (T : Type*) where
  mContainer : Ring T
  deriving DecidableEq

namespace BoundedBuffer

/-- The constructor. -/
def new (capacity : ℕ) : BoundedBuffer T := ⟨.new capacity⟩

/-- `push_front`, under the lock. -/
def pushFront (b : BoundedBuffer T) (item : T) : BoundedBuffer T :=
  { b with mContainer := b.mContainer.pushFront item }

/-- `pop_back`, under the lock: what it writes to `*pItem`, `none` while
`m_container.empty()`. It reads `back()` and leaves `m_container` as it
is. -/
def popBack (b : BoundedBuffer T) : Option T := b.mContainer.back?

/-- Pushes are pushes of the container. -/
theorem foldl_pushFront (capacity : ℕ) (l : List T) :
    (l.foldl pushFront (new capacity)).mContainer = l.foldl Ring.pushFront (.new capacity) :=
  (List.foldl_hom mContainer fun _ _ => rfl).symm

/-! ## Any number of threads -/

/-- The calls clients make. -/
inductive Op (T : Type*)
  | pushFront (item : T)
  | popBack
  deriving DecidableEq

/-- What a completed section did. -/
inductive Event (T : Type*)
  /-- A push put an item in, and overwrote another if the container was
  full. -/
  | pushed (i : Item T) (overwrote : Option (Item T))
  /-- A pop returned an item. -/
  | popped (i : Item T)
  deriving DecidableEq

/-- A buffer and the number of pushes made on it, which names the next
item and which the code does not have. -/
structure Obj (T : Type*) where
  buffer : BoundedBuffer (Item T)
  pushes : ℕ
  deriving DecidableEq

/-- The critical sections. -/
def body : Op T → Obj T → Option (Obj T × Event T)
  | .pushFront x, o =>
    let i : Item T := ⟨o.pushes, x⟩
    some (⟨o.buffer.pushFront i, o.pushes + 1⟩, .pushed i (o.buffer.mContainer.spilled i))
  | .popBack, o => o.buffer.popBack.map fun i => (o, .popped i)

/-- **`bounded_buffer<T>` as a monitor.** `push_front` notifies after its
unlock; `pop_back` waits on an empty container and notifies inside its
section. -/
def monitor : Monitor (Obj T) (Op T) (Event T) where
  body := body
  signal
    | .pushFront _ => .after
    | .popBack => .inside
  waits
    | .pushFront _ => false
    | .popBack => true
  waits_of_none {op o} h := by
    cases op with
    | pushFront x => cases h
    | popBack => rfl

/-- Threads using one buffer of a given capacity. -/
abbrev machine (Tid T : Type*) [Fintype Tid] [DecidableEq Tid] (capacity : ℕ) :
    Machine (Monitor.State Tid (Obj T) (Op T) (Event T)) (Monitor.Act Tid (Op T)) :=
  monitor.machine ⟨.new capacity, 0⟩

/-! ## What a history says

Histories are newest first; what is read off them is oldest first. -/

/-- The items pushed. -/
def pushed : List (Event T) → List (Item T)
  | [] => []
  | .pushed i _ :: h => pushed h ++ [i]
  | .popped _ :: h => pushed h

/-- The items a push on a full container overwrote. -/
def overwritten : List (Event T) → List (Item T)
  | [] => []
  | .pushed _ o :: h => overwritten h ++ o.toList
  | .popped _ :: h => overwritten h

/-- The items the pops returned. -/
def popped : List (Event T) → List (Item T)
  | [] => []
  | .pushed _ _ :: h => popped h
  | .popped i :: h => popped h ++ [i]

/-- For each pop, how many pushes had met a full container before it. -/
def marks : List (Event T) → List ℕ
  | [] => []
  | .pushed _ _ :: h => marks h
  | .popped _ :: h => marks h ++ [(overwritten h).length]

end BoundedBuffer

end TestBuffer
