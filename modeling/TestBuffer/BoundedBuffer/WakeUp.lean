import TestBuffer.BoundedBuffer.Model
/-!
# `bounded_buffer<T>` — no consumer sleeps beside data

Producers may send fewer notifications than there are waiters, since one
`push_front` wakes one thread and no `pop_back` empties the container. The
law rests on each `pop_back` passing the wake-up on: what is counted is
not the items but whether there are any, one section never uses that up,
and every section notifies.
-/

namespace TestBuffer

namespace BoundedBuffer

variable {T : Type*} {capacity : ℕ}

/-- One unit of resource where there is data, none where there is not. -/
def hasData (o : Obj T) : ℕ := min 1 o.buffer.mContainer.size

theorem hasData_pos_iff {o : Obj T} : 0 < hasData o ↔ o.buffer.mContainer.items ≠ [] := by
  unfold hasData Ring.size
  rw [← List.length_pos_iff]
  omega

/-- **Data is a resource the monitor never loses sight of.** -/
theorem wakeUp : (monitor (T := T)).WakeUp hasData where
  need_eq_zero {op o} h := by
    cases op with
    | pushFront x => cases h
    | popBack =>
      have hnil : o.buffer.mContainer.items = [] :=
        Ring.back?_eq_none_iff.mp (Option.map_eq_none_iff.mp h)
      rw [hasData, Ring.size, hnil]
      rfl
  body_le {op o o' r} h := by
    cases op with
    | pushFront x =>
      have : hasData o' ≤ 1 := Nat.min_le_left _ _
      simp only [monitor, reduceCtorEq, if_false, Bool.toNat_false]
      omega
    | popBack =>
      obtain ⟨i, _, hor⟩ := Option.map_eq_some_iff.mp h
      cases hor
      exact le_rfl

variable {Tid : Type*} [Fintype Tid] [DecidableEq Tid]
variable {s : Monitor.State Tid (Obj T) (Op T) (Event T)}

/-- **No consumer is left asleep beside data.** Where the container holds
an item and a `pop_back` is blocked, a `push_front` has unlocked and not
yet notified, or a `pop_back` has been woken and not yet tested again. -/
theorem wakeUp_on_its_way (hs : (machine Tid T capacity).Reachable s)
    (hdata : s.obj.buffer.mContainer.items ≠ []) (hblocked : ∃ t, s.pc t = .blocked .popBack) :
    (∃ u, s.pc u = .unlocked) ∨ ∃ u, s.pc u = .woken .popBack := by
  obtain ⟨t, ht⟩ := hblocked
  have hpos : 0 < s.blocked := Threads.count_pos_iff.mpr ⟨t, by rw [ht]; rfl⟩
  have hle := wakeUp.le_pending hs hpos
  have hneed := hasData_pos_iff.mpr hdata
  rcases Nat.eq_zero_or_pos s.unlocked with hun | hun
  · obtain ⟨u, hu⟩ := Threads.count_pos_iff.mp (show 0 < s.woken by omega)
    refine Or.inr ⟨u, ?_⟩
    obtain ⟨op, hop⟩ := Monitor.Loc.eq_woken hu
    have hwaits := Monitor.waits_of_reachable hs u op (by rw [hop]; rfl)
    cases op with
    | pushFront x => cases hwaits
    | popBack => exact hop
  · obtain ⟨u, hu⟩ := Threads.count_pos_iff.mp hun
    exact Or.inl ⟨u, Monitor.Loc.eq_unlocked hu⟩

/-- A consumer blocked on an empty buffer, and a producer that has pushed
and not yet notified. -/
theorem wakeUp_on_its_way_of_push :
    ∃ s, (machine (Fin 2) ℤ 1000).Reachable s ∧
      (s.obj.buffer.mContainer.items ≠ [] ∧ s.pc 0 = .blocked .popBack) ∧
      ((∃ u, s.pc u = .unlocked) ∨ ∃ u, s.pc u = .woken .popBack) := by
  have hrun : (machine (Fin 2) ℤ 1000).Reachable _ :=
    Machine.reachable_of_run (.init rfl)
      [.call 0 .popBack none, .call 1 (.pushFront 7) none] rfl
  have hdata := List.cons_ne_nil (⟨0, 7⟩ : Item ℤ) []
  exact ⟨_, hrun, ⟨hdata, rfl⟩, wakeUp_on_its_way hrun hdata ⟨0, rfl⟩⟩

end BoundedBuffer

end TestBuffer
