import TestBuffer.BoundedBuffer.Window
/-!
# `bounded_buffer<T>` — the trailing edge

Pops leave the container as it is, so what it holds depends on the pushes
alone: the last of them that fit, newest first. A pop returns the oldest
of these, the trailing edge of a window that moves on with the pushes that
overwrite and never moves back (`Trails`).
-/

namespace TestBuffer

namespace BoundedBuffer

variable {T : Type*} {capacity : ℕ} {o : Obj T} {h : List (Event T)}

/-- `overwritten` has one item for each push that met a full container. -/
theorem length_overwritten_push {o' : Obj T} {r : Event T} {x : T} (h : List (Event T))
    (hb : body (.pushFront x) o = some (o', r)) :
    (overwritten (r :: h)).length = (overwritten h).length + o.buffer.mContainer.full.toNat := by
  cases hb
  rw [overwritten, List.length_append, Ring.length_spilled]

/-- **The container holds the last items pushed**, newest first, as many
as fit. -/
theorem items_eq_take (hr : monitor.Runs ⟨.new capacity, 0⟩ o h) :
    o.buffer.mContainer.capacity = capacity ∧
      o.buffer.mContainer.items = (pushed h).reverse.take capacity := by
  induction hr with
  | new => exact ⟨rfl, List.take_nil.symm⟩
  | @next o o' op r h _ hb ih =>
    cases op with
    | pushFront x =>
      cases hb
      refine ⟨ih.1, ?_⟩
      have hitems : o.buffer.mContainer.items =
          (pushed h).reverse.take o.buffer.mContainer.capacity := by rw [ih.1, ih.2]
      rw [pushed, List.reverse_concat, ← ih.1]
      exact o.buffer.mContainer.pushFront_items_of_eq_take ⟨o.pushes, x⟩ hitems
    | popBack =>
      obtain ⟨i, _, hor⟩ := Option.map_eq_some_iff.mp hb
      cases hor
      exact ih

/-- The back of the container is the oldest of them. -/
theorem popBack_eq_getElem? (hr : monitor.Runs ⟨.new capacity, 0⟩ o h) :
    o.buffer.popBack = (pushed h)[(pushed h).length - capacity]? := by
  rw [popBack, Ring.back?, (items_eq_take hr).2, List.take_reverse, List.getLast?_reverse,
    List.head?_drop]

/-- The window begins where the pushes on a full container have moved
it. -/
theorem length_overwritten (hr : monitor.Runs ⟨.new capacity, 0⟩ o h) :
    (overwritten h).length = (pushed h).length - capacity := by
  have hlength := congrArg List.length (window_of_runs hr).pushed_eq
  have hsize := congrArg List.length (items_eq_take hr).2
  rw [List.length_append, List.length_reverse] at hlength
  rw [List.length_take, List.length_reverse] at hsize
  omega

/-- The overwrites before a pop never fall behind those before an earlier
one. -/
theorem marks_pairwise_of_runs (hr : monitor.Runs ⟨.new capacity, 0⟩ o h) :
    (marks h).Pairwise (· ≤ ·) := by
  induction hr with
  | new => exact .nil
  | @next o o' op r h hr hb ih =>
    cases op with
    | pushFront x =>
      cases hb
      exact ih
    | popBack =>
      obtain ⟨i, _, hor⟩ := Option.map_eq_some_iff.mp hb
      cases hor
      rw [marks, List.pairwise_append]
      refine ⟨ih, List.pairwise_singleton _ _, fun m hm n hn => ?_⟩
      rw [List.mem_singleton.mp hn]
      exact (window_of_runs hr).marks_le m hm

/-- **What the pops read is the trailing edge of a sliding window**, the
items pushed being numbered from zero in lock order. -/
structure Trails (capacity : ℕ) (o : Obj T) (h : List (Event T)) : Prop where
  seq_eq : ∀ (k : ℕ) (i : Item T), (pushed h)[k]? = some i → i.seq = k
  /-- After `p` pushes the container holds exactly the last `min p c` of
  them, newest first. -/
  items_eq : o.buffer.mContainer.items =
    ((pushed h).drop ((pushed h).length - capacity)).reverse
  size_eq : o.buffer.mContainer.size = min (pushed h).length capacity
  /-- A pop that completes returns the oldest of them and leaves the
  buffer as it is. -/
  pop_eq : body .popBack o =
    (pushed h)[(pushed h).length - capacity]?.map fun i => (o, .popped i)
  /-- No pop completes before the first push. -/
  waits : pushed h = [] → body .popBack o = none
  /-- So each pop of the run came after a push, and returned the item
  numbered by the pushes so far that met a full container. -/
  popped_eq : ∀ after i before, h = after ++ .popped i :: before → pushed before ≠ [] ∧
    (pushed before)[(pushed before).length - capacity]? = some i ∧
    i.seq = (pushed before).length - capacity ∧ i.seq = (overwritten before).length
  /-- The numbers returned by successive pops never decrease. -/
  forward : (popped h).Pairwise fun i j => i.seq ≤ j.seq

/-- **The window's trailing edge is what every pop returns**, in every
reachable state. -/
theorem trails {Tid : Type*} [Fintype Tid] [DecidableEq Tid]
    {s : Monitor.State Tid (Obj T) (Op T) (Event T)} (hs : (machine Tid T capacity).Reachable s) :
    Trails capacity s.obj s.history := by
  have hr := Monitor.runs_of_reachable hs
  have W := window_of_runs hr
  have hitems := (items_eq_take hr).2
  have hpop : body .popBack s.obj = (pushed s.history)[(pushed s.history).length - capacity]?.map
      fun i => (s.obj, .popped i) := by
    rw [body, popBack_eq_getElem? hr]
  refine ⟨W.seq_eq, ?_, ?_, hpop, ?_, ?_, ?_⟩
  · rw [hitems, List.take_reverse]
  · rw [Ring.size, hitems, List.length_take, List.length_reverse, min_comm]
  · intro hnone
    rw [hpop, hnone]
    rfl
  · intro after i before hsplit
    rw [hsplit] at hr
    obtain ⟨o₁, o₂, op, hr₁, hb⟩ := hr.split
    have hi : (pushed before)[(pushed before).length - capacity]? = some i := by
      cases op with
      | pushFront x => cases hb
      | popBack =>
        obtain ⟨j, hj, hor⟩ := Option.map_eq_some_iff.mp hb
        cases hor
        rw [← popBack_eq_getElem? hr₁, hj]
    have hseq := (window_of_runs hr₁).seq_eq _ i hi
    refine ⟨fun hnone => ?_, hi, hseq, hseq.trans (length_overwritten hr₁).symm⟩
    rw [hnone, List.getElem?_nil] at hi
    cases hi
  · rw [← List.pairwise_map, W.popped_eq]
    exact marks_pairwise_of_runs hr

/-- A pop, two pushes more, and a pop: on a buffer of two the window has
moved on by one. -/
theorem trails_of_pushes :
    ∃ s, (machine (Fin 1) ℤ 2).Reachable s ∧ popped s.history = [⟨0, 7⟩, ⟨1, 8⟩] ∧
      Trails 2 s.obj s.history := by
  have hrun : (machine (Fin 1) ℤ 2).Reachable _ :=
    Machine.reachable_of_run (.init rfl)
      [.call 0 (.pushFront 7) none, .notify 0 none, .call 0 .popBack none,
        .call 0 (.pushFront 8) none, .notify 0 none, .call 0 (.pushFront 9) none,
        .notify 0 none, .call 0 .popBack none] rfl
  exact ⟨_, hrun, rfl, trails hrun⟩

end BoundedBuffer

end TestBuffer
