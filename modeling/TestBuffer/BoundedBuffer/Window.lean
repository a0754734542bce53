import TestBuffer.BoundedBuffer.Model
import Mathlib.Data.List.Sort
/-!
# `bounded_buffer<T>` — what the pops return

Oldest first, the items pushed are the items overwritten followed by the
items held: nothing else ever leaves the container. So a pop returns the
item whose number is the number of overwrites so far, and pops that no
overwriting push separates return one item again and again. Handing each
item over at most once is therefore the same as the pops being separated
(`handsOver_iff`).
-/

namespace TestBuffer

namespace BoundedBuffer

variable {T : Type*} {capacity : ℕ} {o : Obj T} {h : List (Event T)}

/-- What a sequential run of the buffer keeps. -/
structure Window (o : Obj T) (h : List (Event T)) : Prop where
  pushes_eq : o.pushes = (pushed h).length
  /-- Every item pushed has been overwritten or is held. -/
  pushed_eq : pushed h = overwritten h ++ o.buffer.mContainer.items.reverse
  /-- An item's number is its place among the pushes. -/
  seq_eq : ∀ (k : ℕ) (i : Item T), (pushed h)[k]? = some i → i.seq = k
  /-- A pop returned the item numbered by the overwrites before it. -/
  popped_eq : (popped h).map Item.seq = marks h
  popped_mem : ∀ i ∈ popped h, i ∈ pushed h
  marks_le : ∀ m ∈ marks h, m ≤ (overwritten h).length

/-- **The window is kept by every section.** -/
theorem window_of_runs (hr : monitor.Runs ⟨.new capacity, 0⟩ o h) : Window o h := by
  induction hr with
  | new =>
    refine ⟨rfl, rfl, fun k i hk => ?_, rfl, nofun, nofun⟩
    rw [pushed, List.getElem?_nil] at hk
    cases hk
  | @next o o' op r h _ hb ih =>
    cases op with
    | pushFront x =>
      cases hb
      have hsplit : pushed h ++ [⟨o.pushes, x⟩] = overwritten h ++
          ((o.buffer.mContainer.spilled ⟨o.pushes, x⟩).toList ++
            (o.buffer.mContainer.pushFront ⟨o.pushes, x⟩).items.reverse) := by
        rw [Ring.pushFront_reverse, ← List.append_assoc, ← ih.pushed_eq]
      refine ⟨?_, ?_, ?_, ih.popped_eq, ?_, ?_⟩
      · rw [pushed, List.length_append, ← ih.pushes_eq, List.length_singleton]
      · rw [pushed, overwritten, hsplit, List.append_assoc]
        rfl
      · intro k i hk
        rw [pushed, List.getElem?_append] at hk
        split at hk
        · exact ih.seq_eq k i hk
        · rw [List.getElem?_singleton] at hk
          split at hk
          · cases hk
            simp only [ih.pushes_eq]
            omega
          · cases hk
      · exact fun i hi => List.mem_append_left _ (ih.popped_mem i hi)
      · intro m hm
        rw [overwritten, List.length_append]
        exact (ih.marks_le m hm).trans (Nat.le_add_right _ _)
    | popBack =>
      obtain ⟨i, hi, hor⟩ := Option.map_eq_some_iff.mp hb
      cases hor
      -- the back is the oldest item held, which the overwritten ones precede
      have hpushed := ih.pushed_eq
      rw [Ring.reverse_eq_of_back? hi] at hpushed
      have hat : (pushed h)[(overwritten h).length]? = some i := by
        rw [hpushed, List.getElem?_append_right le_rfl, Nat.sub_self]
        rfl
      refine ⟨ih.pushes_eq, ih.pushed_eq, ih.seq_eq, ?_, ?_, ?_⟩
      · rw [popped, marks, List.map_append, ih.popped_eq, List.map_singleton, ih.seq_eq _ i hat]
      · intro j hj
        rcases List.mem_append.mp hj with hj | hj
        · exact ih.popped_mem j hj
        · rw [List.mem_singleton.mp hj]
          exact List.mem_of_getElem? hat
      · intro m hm
        rcases List.mem_append.mp hm with hm | hm
        · exact ih.marks_le m hm
        · exact (List.mem_singleton.mp hm).le

namespace Window

variable (W : Window o h)
include W

/-- The numbers of the items pushed are increasing. -/
theorem pushed_pairwise : (pushed h).Pairwise fun i j => i.seq < j.seq := by
  rw [List.pairwise_iff_getElem]
  intro m n hm hn hmn
  rw [W.seq_eq m _ (List.getElem?_eq_getElem hm), W.seq_eq n _ (List.getElem?_eq_getElem hn)]
  exact hmn

/-- An item pushed whose number is below the overwrites is overwritten. -/
theorem mem_overwritten {i : Item T} (hi : i ∈ pushed h) (hlt : i.seq < (overwritten h).length) :
    i ∈ overwritten h := by
  obtain ⟨k, hk⟩ := List.getElem?_of_mem hi
  have hseq := W.seq_eq k i hk
  rw [W.pushed_eq, List.getElem?_append_left (by omega)] at hk
  exact List.mem_of_getElem? hk

/-- The items popped are numbered by the marks. -/
theorem popped_pairwise_iff :
    ((popped h).Pairwise fun i j => i.seq < j.seq) ↔ (marks h).Pairwise (· < ·) := by
  rw [← W.popped_eq, List.pairwise_map]

end Window

/-- **Handing over**: each item at most once, in the order pushed, with
none passed over that was not overwritten. -/
structure HandsOver (h : List (Event T)) : Prop where
  /-- No item is returned by two pops. -/
  once : (popped h).Nodup
  /-- The items returned, in the order of the pops, are in the order in
  which they were pushed. -/
  in_order : (popped h).Sublist (pushed h)
  /-- An item passed over was overwritten by a push on a full container. -/
  skipped : ∀ i ∈ pushed h, i ∉ popped h → (∃ j ∈ popped h, i.seq < j.seq) → i ∈ overwritten h
  /-- There are no more pops than pushes. A call counts from its section
on, so a push counts before it has notified and returned. -/
  count_le : (popped h).length ≤ (pushed h).length

/-- Items that increase and were all pushed were pushed in that order. -/
theorem sublist_of_increasing (W : Window o h)
    (hp : (popped h).Pairwise fun i j => i.seq < j.seq) : (popped h).Sublist (pushed h) := by
  have : Std.Antisymm fun i j : Item T => i.seq < j.seq :=
    ⟨fun _ _ hij hji => absurd hij (by omega)⟩
  have hnodup : (popped h).Nodup := hp.imp fun hij heq => by rw [heq] at hij; omega
  exact List.sublist_of_subperm_of_pairwise (List.subperm_of_subset hnodup W.popped_mem) hp
    W.pushed_pairwise

/-- **When the buffer hands each item over at most once and in order**:
exactly when between any two pops some push met a full container. -/
theorem handsOver_iff {Tid : Type*} [Fintype Tid] [DecidableEq Tid]
    {s : Monitor.State Tid (Obj T) (Op T) (Event T)} (hs : (machine Tid T capacity).Reachable s) :
    HandsOver s.history ↔ (marks s.history).Pairwise (· < ·) := by
  have W : Window s.obj s.history := window_of_runs (Monitor.runs_of_reachable hs)
  rw [← W.popped_pairwise_iff]
  constructor
  · intro H
    exact W.pushed_pairwise.sublist H.in_order
  · intro hp
    have hsub := sublist_of_increasing W hp
    refine ⟨hp.imp fun hij heq => by rw [heq] at hij; omega, hsub, ?_, hsub.length_le⟩
    rintro i hi - ⟨j, hj, hlt⟩
    have hmark : j.seq ∈ marks s.history := by
      rw [← W.popped_eq]
      exact List.mem_map_of_mem hj
    exact W.mem_overwritten hi (hlt.trans_le (W.marks_le _ hmark))

/-- Two pops with a push on a full container between them: a buffer of
capacity one that has handed over both of its items. -/
theorem handsOver_of_separated :
    ∃ s, (machine (Fin 1) ℤ 1).Reachable s ∧
      s.history = [.popped ⟨1, 8⟩, .pushed ⟨1, 8⟩ (some ⟨0, 7⟩), .popped ⟨0, 7⟩,
        .pushed ⟨0, 7⟩ none] ∧
      (HandsOver s.history ↔ (marks s.history).Pairwise (· < ·)) := by
  have hrun : (machine (Fin 1) ℤ 1).Reachable _ :=
    Machine.reachable_of_run (.init rfl)
      [.call 0 (.pushFront 7) none, .notify 0 none, .call 0 .popBack none,
        .call 0 (.pushFront 8) none, .notify 0 none, .call 0 .popBack none] rfl
  exact ⟨_, hrun, rfl, handsOver_iff hrun⟩

/-- **Two pops, one push**: a buffer of the capacity `buf-server` gives it
returns the only item pushed twice. -/
theorem popBack_twice :
    ∃ s, (machine (Fin 1) ℤ 1000).Reachable s ∧
      s.history = [.popped ⟨0, 7⟩, .popped ⟨0, 7⟩, .pushed ⟨0, 7⟩ none] ∧
      ¬ HandsOver s.history := by
  have hrun : (machine (Fin 1) ℤ 1000).Reachable _ :=
    Machine.reachable_of_run (.init rfl)
      [.call 0 (.pushFront 7) none, .notify 0 none, .call 0 .popBack none,
        .call 0 .popBack none] rfl
  refine ⟨_, hrun, rfl, fun H => ?_⟩
  exact absurd H.count_le (by decide)

end BoundedBuffer

end TestBuffer
