import TestBuffer.Common.Ring
/-!
# The drop-oldest bounded queue

What a bounded buffer between a fast producer and a slow consumer is for:
a queue of at most `c` values, oldest first, that answers a push on a full
queue by dropping its oldest value. `Behaves c h l` reads: a user who saw
the history `h` (newest first) has been talking to such a queue, which now
retains `l`. A history determines what is retained (`Behaves.unique`), so
that an implementation's claim to be this queue is that its histories
behave and that what it holds is what they retain.
-/

namespace TestBuffer

/-- **A value and which push put it in**, counting pushes from zero: what
tells equal values of different pushes apart. -/
structure Item (T : Type*) where
  /-- How many pushes came before the one that put it in. -/
  seq : ℕ
  val : T
  deriving DecidableEq

namespace DropOldest

variable {T : Type*}

/-- **A push**: the value joins at the new end, and what exceeds the
capacity is dropped from the old end. -/
def push (c : ℕ) (l : List T) (x : T) : List T := (l ++ [x]).drop (l.length + 1 - c)

/-- What a user of the queue sees of one call. A pop shows a value where
the call returned one the queue could have held. -/
inductive Obs (T : Type*)
  /-- `x` was pushed. -/
  | push (x : T)
  /-- A pop succeeded and handed over a value. -/
  | pop (v : Option T)
  /-- A pop reported that there was nothing. -/
  | empty
  deriving DecidableEq

/-- **The histories of a drop-oldest queue**, newest call first, and what
it retains after each. -/
inductive Behaves (c : ℕ) : List (Obs T) → List T → Prop
  /-- A new queue retains nothing. -/
  | new : Behaves c [] []
  | push {h : List (Obs T)} {l : List T} {x : T} :
      Behaves c h l → Behaves c (.push x :: h) (push c l x)
  /-- A pop hands over the oldest value retained, and removes it. -/
  | pop {h : List (Obs T)} {l : List T} {x : T} :
      Behaves c h (x :: l) → Behaves c (.pop (some x) :: h) l
  /-- Nothing is reported exactly where nothing is retained. -/
  | empty {h : List (Obs T)} : Behaves c h [] → Behaves c (.empty :: h) []

variable {c : ℕ} {h : List (Obs T)} {l l' : List T}

/-- **A history determines what is retained.** -/
theorem Behaves.unique (h₁ : Behaves c h l) (h₂ : Behaves c h l') : l = l' := by
  induction h₁ generalizing l' with
  | new => cases h₂; rfl
  | push _ ih => cases h₂ with | push h₂ => rw [ih h₂]
  | pop _ ih => cases h₂ with | pop h₂ => exact (List.cons.inj (ih h₂)).2
  | empty _ _ => cases h₂; rfl

/-- No more is retained than the capacity. -/
theorem Behaves.length_le (hb : Behaves c h l) : l.length ≤ c := by
  induction hb with
  | new => exact Nat.zero_le c
  | push _ ih =>
    rw [DropOldest.push, List.length_drop, List.length_append, List.length_singleton]
    omega
  | pop _ ih =>
    rw [List.length_cons] at ih
    omega
  | empty _ _ => exact Nat.zero_le c

/-- **A circular buffer pushes as the queue does**, read from its back. -/
theorem reverse_pushFront (r : Ring T) (x : T) :
    (r.pushFront x).items.reverse = push r.capacity r.items.reverse x := by
  rw [Ring.pushFront_items, List.reverse_take, push, List.reverse_cons, List.length_cons,
    List.length_reverse]

end DropOldest

end TestBuffer
