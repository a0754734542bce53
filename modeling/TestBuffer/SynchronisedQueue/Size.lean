import TestBuffer.SynchronisedQueue.Delivery
/-!
# `SynchronisedQueue<T>` — what `Size` counts

`m_size` trails the queue: an `Enqueue` counts its item after the push, a
`Dequeue` uncounts it after the pop, and both may be caught in between
(`size_eq`). With no call in progress the count is exact. But `Enqueue`
does not hold the mutex over its two steps, so a `Dequeue` may take an item
and uncount it before it was counted; where more items are still to be
counted than are held, that leaves the count below zero
(`size_neg_of_overtaken`), and nothing else does (`size_sound`).
-/

namespace TestBuffer

namespace SynchronisedQueue

variable {Tid T : Type*}

namespace Loc

/-- In `Enqueue`, between the push and `m_size++`. -/
def isPushed : Loc T → Bool
  | pushed => true
  | _ => false

/-- In `Dequeue`, between the pop and `m_size--`. -/
def isPopped : Loc T → Bool
  | popped _ _ => true
  | _ => false

end Loc

variable [Fintype Tid] {s s' : State Tid T} {a : Act Tid T}

/-- **A sound count**: never negative, and exact where no call is in
progress. -/
structure Sound (s : State Tid T) : Prop where
  nonneg : 0 ≤ s.queue.size
  eq_length : (∀ t, s.pc t = none) → s.queue.size = s.queue.mQueue.length

/-- **An item uncounted too early**: a `Dequeue` does `m_size--` while more
items are still to be counted than `m_queue` holds. -/
def Overtaken (s : State Tid T) : Act Tid T → Prop
  | .exec t _ => (∃ result removed, s.pc t = some (.popped result removed)) ∧
      s.queue.mQueue.length < count Loc.isPushed s.pc
  | _ => False

variable [DecidableEq Tid]

/-- **Where one thread moves**: the counts before and after. -/
theorem caught_update (pc : Tid → Option (Loc T)) (t : Tid) (x : Option (Loc T)) :
    count Loc.isPushed (Function.update pc t x) + ((pc t).any Loc.isPushed).toNat
        = count Loc.isPushed pc + (x.any Loc.isPushed).toNat ∧
      count Loc.isPopped (Function.update pc t x) + ((pc t).any Loc.isPopped).toNat
        = count Loc.isPopped pc + (x.any Loc.isPopped).toNat :=
  ⟨count_update _ _ _ _, count_update _ _ _ _⟩

/-- **The count, the items held, and the calls caught in between.** -/
theorem size_eq (hs : (machine Tid T).Reachable s) :
    s.queue.size + count Loc.isPushed s.pc = s.queue.mQueue.length + count Loc.isPopped s.pc := by
  refine hs.invariant (I := fun s => s.queue.size + (count Loc.isPushed s.pc : ℤ) =
    s.queue.mQueue.length + count Loc.isPopped s.pc) ?_ ?_
  · rintro _ rfl
    have hpushed : count Loc.isPushed (fun _ : Tid => (none : Option (Loc T))) = 0 :=
      Threads.count_eq_zero_iff.mpr fun _ => rfl
    have hpopped : count Loc.isPopped (fun _ : Tid => (none : Option (Loc T))) = 0 :=
      Threads.count_eq_zero_iff.mpr fun _ => rfl
    rw [hpushed, hpopped]
    rfl
  · intro s a s' hr ih _ hstep
    unfold size at ih ⊢
    cases moves_of_step hstep with
    | enqueue ht | dequeue ht | spurious ht =>
      rw [count_update_eq, count_update_eq]
      · exact ih
      · rw [ht]
        rfl
      · rw [ht]
        rfl
    | wake ht hu =>
      rw [count_wake_eq ht hu rfl rfl, count_wake_eq ht hu rfl rfl]
      exact ih
    | @exec t w l o ht ho _ =>
      have hmove := caught_update s.pc t o.next
      rw [ht] at hmove
      cases ho with
      | push =>
        simp only [Option.any_some, Loc.isPushed, Loc.isPopped, Bool.toNat_true, Bool.toNat_false,
          List.length_append, List.length_singleton] at hmove ⊢
        omega
      | @pop result =>
        -- the pop finds an item, so it removes one
        obtain ⟨x, hx, _⟩ := knows_of_reachable hr t _ ht
        have hpos : 0 < s.queue.mQueue.length := List.length_pos_iff.mpr fun hq => by
          rw [hq] at hx
          cases hx
        simp only [Option.any_some, Loc.isPushed, Loc.isPopped, Bool.toNat_true, Bool.toNat_false,
          List.length_tail] at hmove ⊢
        omega
      | _ =>
        simp only [Option.any_some, Option.any_none, Loc.isPushed, Loc.isPopped, Bool.toNat_true,
          Bool.toNat_false] at hmove ⊢
        omega

/-- **The count is sound where no item is uncounted too early**, in every
run of any number of threads. -/
theorem size_sound (hs : (machine Tid T).ReachBy (fun s a => ¬ Overtaken s a) s) : Sound s := by
  constructor
  · refine hs.invariant (I := fun s => 0 ≤ s.queue.size) ?_ ?_
    · rintro _ rfl
      exact le_rfl
    · intro s a s' hr ih hok hstep
      have hsize := size_eq hr.reachable
      unfold size at ih hsize ⊢
      cases moves_of_step hstep with
      | enqueue _ | dequeue _ | wake _ _ | spurious _ => exact ih
      | @exec t w l o ht ho _ =>
        cases ho with
        | @uncount result removed =>
          have hheld : ¬ s.queue.mQueue.length < count Loc.isPushed s.pc :=
            fun hlt => hok ⟨⟨result, removed, ht⟩, hlt⟩
          have hpopped : 0 < count Loc.isPopped s.pc := count_pos_iff.mpr ⟨t, _, ht, rfl⟩
          simp only
          omega
        | count =>
          simp only
          omega
        | _ => exact ih
  · intro hnone
    have hsize := size_eq hs.reachable
    have hpushed : count Loc.isPushed s.pc = 0 :=
      Threads.count_eq_zero_iff.mpr fun t => by rw [hnone t]; rfl
    have hpopped : count Loc.isPopped s.pc = 0 :=
      Threads.count_eq_zero_iff.mpr fun t => by rw [hnone t]; rfl
    omega

/-- **And every such step takes the count below zero.** -/
theorem size_neg_of_overtaken (hs : (machine Tid T).Reachable s) (hover : Overtaken s a)
    (hstep : (machine Tid T).step s a = some s') : s'.queue.size < 0 := by
  cases a with
  | exec t w =>
    obtain ⟨⟨result, removed, ht⟩, hlt⟩ := hover
    have hsize := size_eq (hs.step hstep)
    cases moves_of_step hstep with
    | wake ht' _ =>
      rw [ht, Option.some.injEq] at ht'
      cases ht'
    | @exec _ _ l o ht' ho _ =>
      rw [ht, Option.some.injEq] at ht'
      subst ht'
      cases ho with
      | uncount =>
        -- past its `m_size--` no `Dequeue` is caught, since it alone holds the mutex
        have hmove := caught_update s.pc t (some (.uncounted result removed))
        have hpopped : count Loc.isPopped s.pc ≤ 1 := by
          refine le_trans (count_mono fun u l _ hl => ?_)
            ((holding_eq hs).trans_le (Bool.toNat_le _))
          cases l with
          | popped _ _ => rfl
          | _ => cases hl
        simp only [ht, Option.any_some, Loc.isPushed, Loc.isPopped, Bool.toNat_true,
          Bool.toNat_false] at hmove hsize
        unfold size at hsize ⊢
        simp only at hsize ⊢
        omega
  | _ => exact hover.elim

/-- An `Enqueue` that has counted its item before a `Dequeue` uncounts
it. -/
theorem size_sound_of_counted :
    ∃ s, (machine (Fin 2) ℤ).ReachBy (fun s a => ¬ Overtaken s a) s ∧ s.queue.pops = [7] ∧
      Sound s := by
  have hcount : (machine (Fin 2) ℤ).ReachBy (fun s a => ¬ Overtaken s a) _ :=
    .step (a := .exec 0 none) (.step (a := .exec 0 none)
      (.step (a := .enqueue 0 7) (.init rfl) id rfl) (fun h => nomatch h.1) rfl)
      (fun h => nomatch h.1) rfl
  have hpop : (machine (Fin 2) ℤ).ReachBy (fun s a => ¬ Overtaken s a) _ :=
    .step (a := .exec 1 none) (.step (a := .exec 1 none) (.step (a := .exec 1 none)
      (.step (a := .exec 1 none) (.step (a := .dequeue 1) hcount id rfl) (fun h => nomatch h.1) rfl)
      (fun h => nomatch h.1) rfl) (fun h => nomatch h.1) rfl) (fun h => nomatch h.1) rfl
  have huncount : (machine (Fin 2) ℤ).ReachBy (fun s a => ¬ Overtaken s a) _ :=
    .step (a := .exec 1 none) hpop (fun h => absurd h.2 (by decide)) rfl
  exact ⟨_, huncount, rfl, size_sound huncount⟩

/-- **A `Dequeue` in the window**: it takes and uncounts an item that was
pushed and not yet counted. -/
theorem size_negative :
    ∃ s : State (Fin 2) ℤ, (machine (Fin 2) ℤ).Reachable s ∧ s.queue.size = -1 ∧ ¬ Sound s := by
  have hrun : (machine (Fin 2) ℤ).Reachable _ :=
    Machine.reachable_of_run (.init rfl)
      [.enqueue 0 7, .exec 0 none, .dequeue 1, .exec 1 none, .exec 1 none, .exec 1 none,
        .exec 1 none, .exec 1 none] rfl
  refine ⟨_, hrun, rfl, fun S => ?_⟩
  exact absurd S.nonneg (by decide)

end SynchronisedQueue

end TestBuffer
