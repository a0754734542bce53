import TestBuffer.Queue.Model
/-!
# `queue<T>` — no lost wake-up

`push` notifies after its unlock, so a woken consumer can be overtaken by
a fresh call that takes its item, and a push on a full container notifies
without adding an item. Counting items is what survives both: a push adds
at most the one item it will notify for, and a section that can wait
removes one when it does not. What the pops read at `--m_unread` plays no
part.
-/

namespace TestBuffer

namespace Queue

variable {T : Type*} {w : ℕ} {capacity garbage : BitVec w}

theorem size_take (q : Queue w T) : q.take.1.mContainer.size = q.mContainer.size - 1 := by
  rw [take, Ring.size, Ring.popBack_items, List.length_dropLast, Ring.size]

/-- A push never makes the container longer by more than one. -/
theorem size_push_le (q : Queue w T) (x : T) :
    (q.push x).mContainer.size ≤ q.mContainer.size + 1 := by
  have := q.mContainer.size_pushFront x
  change (q.mContainer.pushFront x).size ≤ q.mContainer.size + 1
  omega

/-- **The items stored are a resource the monitor never loses sight of.** -/
theorem wakeUp : (monitor w T).WakeUp fun o => o.queue.mContainer.size where
  need_eq_zero h := by rw [Ring.size, (body_eq_none h).2, List.length_nil]
  body_le {op o o' r} h := by
    obtain ⟨x, rfl, rfl, _⟩ | ⟨rfl, _, rfl, _⟩ | ⟨hop, hne, rfl, _⟩ := body_cases h
    · have := size_push_le o.queue ⟨o.pushes, x⟩
      simp only [monitor, reduceCtorEq, if_false, Bool.toNat_false]
      omega
    · exact le_rfl
    · have hpos : 0 < o.queue.mContainer.size := List.length_pos_iff.mpr hne
      have htake := size_take o.queue
      rcases hop with rfl | rfl
      · simp only [monitor, if_true, Bool.toNat_false]
        omega
      · simp only [monitor, if_true, Bool.toNat_true]
        omega

variable {Tid : Type*} [Fintype Tid] [DecidableEq Tid]
variable {s : Monitor.State Tid (Obj w T) (Op T) (Event T)}

/-- **No consumer stays blocked beside a stored item** without a wake-up
on its way: with a thread blocked, the items stored are within the pushes
still to notify and the threads woken that have not tested again. -/
theorem size_le_pending (hs : (machine Tid T capacity garbage).Reachable s)
    (hblocked : 0 < s.blocked) : s.obj.queue.mContainer.size ≤ s.unlocked + s.woken :=
  wakeUp.le_pending hs hblocked

/-- A consumer blocked on an empty queue, and a producer that has pushed
and not yet notified. -/
theorem size_le_pending_of_push :
    ∃ s, (machine (Fin 2) ℤ (4 : BitVec 64) 0).Reachable s ∧ 0 < s.blocked ∧
      s.obj.queue.mContainer.size = 1 ∧
      s.obj.queue.mContainer.size ≤ s.unlocked + s.woken := by
  have hrun : (machine (Fin 2) ℤ (4 : BitVec 64) 0).Reachable _ :=
    Machine.reachable_of_run (.init rfl)
      [.call 0 .waitAndPop none, .call 1 (.push 7) none] rfl
  refine ⟨_, hrun, ?_, rfl, size_le_pending hrun ?_⟩
  · exact Threads.count_pos_iff.mpr ⟨0, rfl⟩
  · exact Threads.count_pos_iff.mpr ⟨0, rfl⟩

end Queue

end TestBuffer
