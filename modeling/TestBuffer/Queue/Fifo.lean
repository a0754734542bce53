import TestBuffer.Queue.Model
import Mathlib.Data.BitVec
import Mathlib.Tactic.Abel
/-!
# `queue<T>` — when it is a drop-oldest queue

What the container holds always moves as a drop-oldest queue: pushes enter
at the front, overwrites and pops leave from the back. What a pop hands
over is another matter. `m_unread` counts every push, also one that only
overwrote, so after `k` overwrites on a queue whose `m_unread` started at
`u₀` it is `u₀ + size + k` (`Tracks.unread_eq`), and `--m_unread` is the
back of the container exactly when `u₀ + k` is zero as a word
(`take_value_eq_back?_iff`). So the histories of a run are those of a
drop-oldest queue exactly when every pop came with `u₀ + k` zero
(`refines_iff`).
-/

namespace TestBuffer

namespace Queue

variable {T : Type*} {w : ℕ} {capacity garbage : BitVec w}
variable {o : Obj w T} {h : List (Event T)}

/-- A word is left as it is by adding zero only. -/
theorem toNat_add_eq_iff {x : BitVec w} {n : ℕ} (hn : n < 2 ^ w) :
    (x + BitVec.ofNat w n).toNat = n ↔ x = 0 := by
  have hofNat : (BitVec.ofNat w n).toNat = n := by
    rw [BitVec.toNat_ofNat, Nat.mod_eq_of_lt hn]
  calc (x + BitVec.ofNat w n).toNat = n
      ↔ (x + BitVec.ofNat w n).toNat = (BitVec.ofNat w n).toNat := by rw [hofNat]
    _ ↔ x + BitVec.ofNat w n = BitVec.ofNat w n := BitVec.toNat_inj
    _ ↔ x = 0 := BitVec.add_left_eq_self

/-- **Where a pop reads.** With `m_unread` off the size by `x`, the index
used is off the last index by `x`. -/
theorem take_index {q : Queue w T} {x : BitVec w}
    (hunread : q.mUnread = x + BitVec.ofNat w q.mContainer.size)
    (hne : q.mContainer.items ≠ []) :
    q.take.2.index = (x + BitVec.ofNat w (q.mContainer.size - 1)).toNat := by
  have hpos : 0 < q.mContainer.size := List.length_pos_iff.mpr hne
  obtain ⟨n, hn⟩ := Nat.exists_eq_add_of_lt hpos
  rw [take]
  simp only
  rw [hunread, hn, Nat.zero_add, Nat.add_sub_cancel, BitVec.ofNat_add, ← add_assoc]
  congr 1
  exact add_sub_cancel_right _ _

/-- **A pop reads what it removes** exactly where `m_unread` is the size. -/
theorem take_value_eq_back?_iff {q : Queue w T} {x : BitVec w}
    (hunread : q.mUnread = x + BitVec.ofNat w q.mContainer.size)
    (hne : q.mContainer.items ≠ []) (hsize : q.mContainer.size < 2 ^ w)
    (hnodup : q.mContainer.items.Nodup) : q.take.2.value = q.mContainer.back? ↔ x = 0 := by
  have hpos : 0 < q.mContainer.size := List.length_pos_iff.mpr hne
  have hvalue : q.take.2.value = q.mContainer.items[q.take.2.index]? := rfl
  rw [hvalue, Ring.back?_eq_get?, Ring.get?, eq_comm,
    List.getElem?_inj (by rw [Ring.size] at hpos ⊢; omega) hnodup, eq_comm,
    take_index hunread hne]
  exact toNat_add_eq_iff (by omega)

/-! ## What a sequential run keeps -/

/-- The state of a queue of a given capacity after a history, `m_unread`
having started at `garbage`. -/
structure Tracks (capacity garbage : BitVec w) (o : Obj w T) (h : List (Event T)) : Prop where
  capacity_eq : o.queue.mContainer.capacity = capacity.toNat
  /-- `m_unread` counts the items held and the overwrites. -/
  unread_eq : o.queue.mUnread =
    (garbage + BitVec.ofNat w (overwrites h)) + BitVec.ofNat w o.queue.mContainer.size
  /-- The items held are different ones, numbered below the next push. -/
  nodup : o.queue.mContainer.items.Nodup
  seq_lt : ∀ i ∈ o.queue.mContainer.items, i.seq < o.pushes

/-- **Every section keeps the track.** A push moves `m_unread` by one, and
either the size or the overwrites; a pop moves both back. -/
theorem tracks_of_runs (hr : (monitor w T).Runs ⟨.new capacity garbage, 0⟩ o h) :
    Tracks capacity garbage o h := by
  induction hr with
  | new =>
    refine ⟨rfl, ?_, List.nodup_nil, nofun⟩
    change garbage = garbage + 0#w + 0#w
    rw [BitVec.add_zero, BitVec.add_zero]
  | @next o o' op r h _ hb ih =>
    obtain ⟨x, rfl, rfl, rfl⟩ | ⟨rfl, _, rfl, rfl⟩ | ⟨_, hne, rfl, rfl⟩ := body_cases hb
    · -- a push adds one to `m_unread`, and one to the size or to the overwrites
      have hsub : (o.queue.push ⟨o.pushes, x⟩).mContainer.items.Sublist
          (⟨o.pushes, x⟩ :: o.queue.mContainer.items) := List.take_sublist _ _
      refine ⟨ih.capacity_eq, ?_, ?_, ?_⟩
      · have hsize := o.queue.mContainer.size_pushFront ⟨o.pushes, x⟩
        have hword := congrArg (BitVec.ofNat w) hsize
        rw [BitVec.ofNat_add, BitVec.ofNat_add] at hword
        change o.queue.mUnread + BitVec.ofNat w 1 = garbage +
          BitVec.ofNat w (overwrites h +
            (o.queue.mContainer.spilled ⟨o.pushes, x⟩).toList.length) +
          BitVec.ofNat w (o.queue.mContainer.pushFront ⟨o.pushes, x⟩).size
        rw [ih.unread_eq, BitVec.ofNat_add, add_assoc, ← hword]
        abel
      · refine List.Nodup.sublist hsub (List.nodup_cons.mpr ⟨fun hmem => ?_, ih.nodup⟩)
        exact absurd (ih.seq_lt _ hmem) (lt_irrefl _)
      · intro i hi
        rcases List.mem_cons.mp (hsub.subset hi) with rfl | hi
        · exact Nat.lt_succ_self _
        · exact (ih.seq_lt i hi).trans (Nat.lt_succ_self _)
    · exact ⟨ih.capacity_eq, ih.unread_eq, ih.nodup, ih.seq_lt⟩
    · -- a pop takes one from `m_unread` and one from the size
      have hsub : o.queue.take.1.mContainer.items.Sublist o.queue.mContainer.items :=
        List.dropLast_sublist _
      refine ⟨ih.capacity_eq, ?_, ih.nodup.sublist hsub, fun i hi => ih.seq_lt i (hsub.subset hi)⟩
      have hpos : 0 < o.queue.mContainer.size := List.length_pos_iff.mpr hne
      obtain ⟨n, hn⟩ := Nat.exists_eq_add_of_lt hpos
      rw [Nat.zero_add] at hn
      have htake : o.queue.take.1.mContainer.size = n := by
        rw [take, Ring.size, Ring.popBack_items, List.length_dropLast, ← Ring.size, hn,
          Nat.add_sub_cancel]
      change o.queue.mUnread - 1 = garbage + BitVec.ofNat w (overwrites h) +
        BitVec.ofNat w o.queue.take.1.mContainer.size
      rw [ih.unread_eq, htake, hn, BitVec.ofNat_add, ← add_assoc]
      exact add_sub_cancel_right _ _

/-! ## Refinement -/

/-- **Refining a drop-oldest queue**: the history is one of its histories
and the container holds what it retains, each pop read the item it
removed, and each read was in range. -/
structure Refines (c : ℕ) (o : Obj w T) (h : List (Event T)) : Prop where
  fifo : DropOldest.Behaves c (h.map Event.obs) o.queue.mContainer.items.reverse
  removes : ∀ n t r, Event.popped n t r ∈ h → t.value = r
  in_range : ∀ n t r, Event.popped n t r ∈ h → t.index < n

/-- **The condition**: every pop came when `m_unread`'s starting value and
the overwrites so far were together zero as a word. -/
def Aligned (garbage : BitVec w) : List (Event T) → Prop
  | [] => True
  | .popped _ _ _ :: h => garbage + BitVec.ofNat w (overwrites h) = 0 ∧ Aligned garbage h
  | _ :: h => Aligned garbage h

/-- The container is never longer than a word counts. -/
theorem Tracks.size_lt (K : Tracks capacity garbage o h) :
    o.queue.mContainer.size < 2 ^ w := by
  have hle := o.queue.mContainer.size_le
  rw [K.capacity_eq] at hle
  exact hle.trans_lt capacity.isLt

/-- **Aligned runs refine.** -/
theorem refines_of_aligned (hr : (monitor w T).Runs ⟨.new capacity garbage, 0⟩ o h)
    (ha : Aligned garbage h) : Refines capacity.toNat o h := by
  induction hr with
  | new => exact ⟨.new, nofun, nofun⟩
  | @next o o' op r h hr hb ih =>
    have K := tracks_of_runs hr
    obtain ⟨x, rfl, rfl, rfl⟩ | ⟨rfl, hnil, rfl, rfl⟩ | ⟨_, hne, rfl, rfl⟩ := body_cases hb
    · have R := ih ha
      refine ⟨?_, fun n t r hmem => ?_, fun n t r hmem => ?_⟩
      · change DropOldest.Behaves capacity.toNat (.push _ :: h.map Event.obs)
          (o.queue.mContainer.pushFront ⟨o.pushes, x⟩).items.reverse
        rw [DropOldest.reverse_pushFront, K.capacity_eq]
        exact .push R.fifo
      · exact R.removes n t r (List.mem_of_ne_of_mem (by simp) hmem)
      · exact R.in_range n t r (List.mem_of_ne_of_mem (by simp) hmem)
    · have R := ih ha
      refine ⟨?_, fun n t r hmem => ?_, fun n t r hmem => ?_⟩
      · have hfifo := R.fifo
        rw [hnil] at hfifo ⊢
        exact .empty hfifo
      · exact R.removes n t r (List.mem_of_ne_of_mem (by simp) hmem)
      · exact R.in_range n t r (List.mem_of_ne_of_mem (by simp) hmem)
    · have R := ih ha.2
      have hpos : 0 < o.queue.mContainer.size := List.length_pos_iff.mpr hne
      have hvalue := (take_value_eq_back?_iff K.unread_eq hne K.size_lt K.nodup).mpr ha.1
      have hindex := take_index K.unread_eq hne
      rw [(toNat_add_eq_iff (by have := K.size_lt; omega)).mpr ha.1] at hindex
      refine ⟨?_, fun n t r hmem => ?_, fun n t r hmem => ?_⟩
      · obtain ⟨x, hx⟩ := Option.ne_none_iff_exists'.mp
          (fun hn => hne (Ring.back?_eq_none_iff.mp hn))
        have hfifo := R.fifo
        rw [Ring.reverse_eq_of_back? hx] at hfifo
        change DropOldest.Behaves capacity.toNat (.pop o.queue.take.2.value :: h.map Event.obs)
          o.queue.mContainer.popBack.items.reverse
        rw [hvalue, hx]
        exact .pop hfifo
      · rcases List.mem_cons.mp hmem with heq | hmem
        · cases heq
          exact hvalue
        · exact R.removes n t r hmem
      · rcases List.mem_cons.mp hmem with heq | hmem
        · cases heq
          rw [hindex]
          omega
        · exact R.in_range n t r hmem

/-- **Only aligned runs do**: a history that is one of a drop-oldest
queue's, whatever that queue retains, is aligned. Up to a pop the run
refined, so the queue's oldest value is the item at the back, and the pop
handed it over only if it read there. -/
theorem aligned_of_behaves (hr : (monitor w T).Runs ⟨.new capacity garbage, 0⟩ o h)
    {l : List (Item T)} (hf : DropOldest.Behaves capacity.toNat (h.map Event.obs) l) :
    Aligned garbage h := by
  induction hr generalizing l with
  | new => trivial
  | @next o o' op r h hr hb ih =>
    have K := tracks_of_runs hr
    obtain ⟨x, rfl, rfl, rfl⟩ | ⟨rfl, hnil, rfl, rfl⟩ | ⟨_, hne, rfl, rfl⟩ := body_cases hb
    · cases hf with | push hf => exact ih hf
    · cases hf with | empty hf => exact ih hf
    · generalize hv : (o.popped o.queue.take.2).obs = v at hf
      rw [List.map_cons, hv] at hf
      cases hf with
      | push _ => cases hv
      | empty _ => cases hv
      | @pop _ _ x hf =>
        have ha := ih hf
        have hsame := hf.unique (refines_of_aligned hr ha).fifo
        obtain ⟨y, hy⟩ := Option.ne_none_iff_exists'.mp
          (fun hn => hne (Ring.back?_eq_none_iff.mp hn))
        rw [Ring.reverse_eq_of_back? hy] at hsame
        have hxy : x = y := (List.cons.inj hsame).1
        have hvalue : o.queue.take.2.value = o.queue.mContainer.back? := by
          rw [hy, ← hxy]
          exact DropOldest.Obs.pop.inj hv
        exact ⟨(take_value_eq_back?_iff K.unread_eq hne K.size_lt K.nodup).mp hvalue, ha⟩

variable {Tid : Type*} [Fintype Tid] [DecidableEq Tid]
variable {s : Monitor.State Tid (Obj w T) (Op T) (Event T)}

/-- **When `queue<T>` is a drop-oldest queue**: exactly when each pop of
the run came with `m_unread`'s starting value plus the overwrites so far
zero as a word. -/
theorem refines_iff (hs : (machine Tid T capacity garbage).Reachable s) :
    Refines capacity.toNat s.obj s.history ↔ Aligned garbage s.history := by
  have hr := Monitor.runs_of_reachable hs
  exact ⟨fun R => aligned_of_behaves hr R.fifo, refines_of_aligned hr⟩

/-- Three pushes on a queue of two, where the constructor found minus one:
the one overwrite makes up for it, and the pop after them hands over the
oldest item left. -/
theorem refines_of_overwrite :
    ∃ s, (machine (w := 64) (Fin 1) ℤ 2 (-1)).Reachable s ∧
      s.history = [.popped 2 ⟨1, some ⟨1, 8⟩⟩ (some ⟨1, 8⟩), .pushed ⟨2, 9⟩ (some ⟨0, 7⟩),
        .pushed ⟨1, 8⟩ none, .pushed ⟨0, 7⟩ none] ∧
      Refines 2 s.obj s.history := by
  have hrun : (machine (w := 64) (Fin 1) ℤ 2 (-1)).Reachable _ :=
    Machine.reachable_of_run (.init rfl)
      [.call 0 (.push 7) none, .notify 0 none, .call 0 (.push 8) none, .notify 0 none,
        .call 0 (.push 9) none, .notify 0 none, .call 0 .tryPop none] rfl
  exact ⟨_, hrun, by decide, (refines_iff hrun).mpr ⟨by decide, trivial⟩⟩

/-- **Three pushes on a queue of two**: even with a constructor that finds
zero, the pop after them reads past the end. -/
theorem tryPop_out_of_range :
    ∃ s, (machine (w := 64) (Fin 1) ℤ 2 0).Reachable s ∧
      s.history = [.popped 2 ⟨2, none⟩ (some ⟨1, 8⟩), .pushed ⟨2, 9⟩ (some ⟨0, 7⟩),
        .pushed ⟨1, 8⟩ none, .pushed ⟨0, 7⟩ none] ∧
      ¬ Refines 2 s.obj s.history := by
  have hrun : (machine (w := 64) (Fin 1) ℤ 2 0).Reachable _ :=
    Machine.reachable_of_run (.init rfl)
      [.call 0 (.push 7) none, .notify 0 none, .call 0 (.push 8) none, .notify 0 none,
        .call 0 (.push 9) none, .notify 0 none, .call 0 .tryPop none] rfl
  refine ⟨_, hrun, by decide, fun R => ?_⟩
  exact absurd (R.in_range 2 ⟨2, none⟩ (some ⟨1, 8⟩) (by decide)) (by decide)

end Queue

end TestBuffer
