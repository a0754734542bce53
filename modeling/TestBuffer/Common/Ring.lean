import Mathlib.Data.List.Basic
import Mathlib.Data.List.Induction
/-!
# Circular buffers

A circular buffer as its documentation describes it: a deque that never
holds more than its capacity, whose `pushFront` on a full buffer
overwrites the back element. The bound is a field, so no operation can
leave a buffer over capacity. `spilled` is what a `pushFront` throws away;
a buffer and what it throws away account for every value pushed
(`pushFront_reverse`).
-/

namespace TestBuffer

/-- **A circular buffer**: its values, front first, never more of them
than its capacity. -/
structure Ring (T : Type*) where
  /-- The number of values it can hold. -/
  capacity : ℕ
  /-- The values it holds, front first. -/
  items : List T
  size_le : items.length ≤ capacity
  deriving DecidableEq

namespace Ring

variable {T : Type*}

/-- A buffer newly constructed holds nothing. -/
def new (capacity : ℕ) : Ring T := ⟨capacity, [], Nat.zero_le _⟩

variable (r : Ring T) (x : T)

/-- The number of values held. -/
def size : ℕ := r.items.length

/-- `push_front`: the value goes to the front, and a full buffer loses the
value at its back. -/
def pushFront : Ring T :=
  ⟨r.capacity, (x :: r.items).take r.capacity, by rw [List.length_take]; exact Nat.min_le_left _ _⟩

/-- `pop_back` removes the value at the back. -/
def popBack : Ring T :=
  ⟨r.capacity, r.items.dropLast, by have := r.size_le; simp; omega⟩

/-- The value at the back, if there is one. -/
def back? : Option T := r.items.getLast?

/-- The value at an index, front first, if the index is in range. -/
def get? (i : ℕ) : Option T := r.items[i]?

/-- The buffer holds as much as it can. -/
def full : Bool := decide (r.size = r.capacity)

/-- What `pushFront x` overwrites: the back of a full buffer, and `x`
itself where there is no room for any value. -/
def spilled : Option T := (x :: r.items)[r.capacity]?

@[simp] theorem popBack_items : r.popBack.items = r.items.dropLast := rfl

theorem pushFront_items : (r.pushFront x).items = (x :: r.items).take r.capacity := rfl

theorem spilled_isSome_iff : (r.spilled x).isSome ↔ r.full = true := by
  have := r.size_le
  rw [Option.isSome_iff_ne_none, full, decide_eq_true_eq, size, spilled, ne_eq,
    List.getElem?_eq_none_iff, List.length_cons]
  omega

/-- A push spills one value where the buffer is full, and none elsewhere. -/
theorem length_spilled : (r.spilled x).toList.length = r.full.toNat := by
  have hfull := r.spilled_isSome_iff x
  cases hspilled : r.spilled x with
  | none =>
    rw [hspilled, Option.isSome_none, Bool.false_eq_true, false_iff, Bool.not_eq_true] at hfull
    rw [hfull]
    rfl
  | some y =>
    rw [hspilled, Option.isSome_some] at hfull
    rw [hfull.mp rfl]
    rfl

/-- **Nothing is lost but what is spilled.** Oldest first, a push appends
the value pushed, and what it overwrites leaves from the old end. -/
theorem pushFront_reverse :
    (r.spilled x).toList ++ (r.pushFront x).items.reverse = r.items.reverse ++ [x] := by
  have hle := r.size_le
  have hrev : (r.spilled x).toList = (r.spilled x).toList.reverse := by
    cases r.spilled x <;> rfl
  calc (r.spilled x).toList ++ (r.pushFront x).items.reverse
      = ((x :: r.items).take r.capacity ++ (x :: r.items)[r.capacity]?.toList).reverse := by
        rw [hrev, spilled, pushFront_items, List.reverse_append]
    _ = ((x :: r.items).take (r.capacity + 1)).reverse := by rw [List.take_add_one]
    _ = r.items.reverse ++ [x] := by
        rw [List.take_of_length_le (by rw [List.length_cons]; omega), List.reverse_cons]

/-- A push adds one value, or overwrites one. -/
theorem size_pushFront : (r.pushFront x).size + (r.spilled x).toList.length = r.size + 1 := by
  have h := congrArg List.length (r.pushFront_reverse x)
  simp only [List.length_append, List.length_reverse, List.length_cons, List.length_nil] at h
  unfold size
  omega

/-- Where the values held are the first of a list, as many as fit, they are
so after a push. -/
theorem pushFront_items_of_eq_take {l : List T} (h : r.items = l.take r.capacity) :
    (r.pushFront x).items = (x :: l).take r.capacity := by
  rw [pushFront_items, h]
  cases r.capacity with
  | zero => rfl
  | succ c =>
    rw [List.take_succ_cons, List.take_succ_cons, List.take_take, Nat.min_eq_left (Nat.le_succ c)]

/-- **What pushes alone leave**: the last values pushed, newest first, as
many as fit. -/
theorem foldl_pushFront (c : ℕ) (l : List T) :
    (l.foldl pushFront (new c)).capacity = c ∧
      (l.foldl pushFront (new c)).items = l.reverse.take c := by
  induction l using List.reverseRecOn with
  | nil => exact ⟨rfl, List.take_nil.symm⟩
  | append_singleton l x ih =>
    rw [List.foldl_concat, List.reverse_concat]
    refine ⟨ih.1, ?_⟩
    rw [pushFront_items_of_eq_take (l := l.reverse) _ x (ih.2.trans (by rw [ih.1])), ih.1]

/-- The back is what a `popBack` removes. -/
theorem reverse_eq_of_back? {r : Ring T} {x : T} (h : r.back? = some x) :
    r.items.reverse = x :: r.popBack.items.reverse := by
  obtain ⟨l, hl⟩ := List.getLast?_eq_some_iff.mp h
  rw [popBack_items, hl]
  simp

theorem back?_eq_none_iff {r : Ring T} : r.back? = none ↔ r.items = [] :=
  List.getLast?_eq_none_iff

theorem back?_eq_get? : r.back? = r.get? (r.size - 1) :=
  List.getLast?_eq_getElem?

end Ring

end TestBuffer
