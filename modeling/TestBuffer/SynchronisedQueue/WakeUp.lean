import TestBuffer.SynchronisedQueue.Model
/-!
# `SynchronisedQueue<T>` — when a wake-up is lost

Between `Dequeue`'s test and its wait the mutex is held, but `Enqueue` does
not take it: a push and its `notify_one` fit into the window, and the
thread then blocks beside the item. A notification made in the window is
lost for good if it was the last one to come and the queue holds more than
the threads already woken will take (`Lost`). That is the only way to
strand a `Dequeue` (`not_stranded`), and every such step does strand one
(`stranded_of_lost`).
-/

namespace TestBuffer

namespace SynchronisedQueue

variable {Tid T : Type*}

namespace Loc

/-- In `Enqueue`, between its push and its `notify_one`. -/
def notifying : Loc T → Bool
  | pushed => true
  | counted => true
  | _ => false

def isBlocked : Loc T → Bool
  | blocked => true
  | _ => false

def isWoken : Loc T → Bool
  | woken => true
  | _ => false

/-- A `Dequeue` that found the queue empty and has not been woken since. -/
def waiting : Loc T → Bool
  | foundEmpty => true
  | blocked => true
  | _ => false

/-- A call that will still make a notification, or look at the queue
before it next waits and take an item if there is one. -/
def attending : Loc T → Bool
  | pushed => true
  | counted => true
  | woken => true
  | locked => true
  | foundItem => true
  | fronted _ => true
  | _ => false

theorem eq_woken {l : Loc T} (h : l.isWoken = true) : l = woken := by
  cases l with
  | woken => rfl
  | _ => cases h

/-- A thread that waits holds the mutex, or is blocked. -/
theorem waiting_cases {l : Loc T} (h : l.waiting = true) : l = foundEmpty ∨ l = blocked := by
  cases l with
  | foundEmpty => exact Or.inl rfl
  | blocked => exact Or.inr rfl
  | _ => cases h

end Loc

variable [Fintype Tid] {s s' : State Tid T} {a : Act Tid T}

/-- **Stranded**: a `Dequeue` is blocked beside an item, no `Enqueue` has
a notification to make, and no other `Dequeue` is woken or past its
lock. -/
structure Stranded (s : State Tid T) : Prop where
  blocked : 0 < count Loc.isBlocked s.pc
  nonempty : s.queue.mQueue ≠ []
  not_notifying : count Loc.notifying s.pc = 0
  not_woken : count Loc.isWoken s.pc = 0
  not_holding : count Loc.holding s.pc = 0

/-- **The lost notification**: no thread is blocked, one stands between
its test and its wait, no other `Enqueue` has a notification to make, and
the queue holds more items than there are threads woken. -/
def Lost (s : State Tid T) : Act Tid T → Prop
  | .exec t _ => s.pc t = some .counted ∧ (∀ u, s.pc u ≠ some .blocked) ∧
      (∃ u, s.pc u = some .foundEmpty) ∧ count Loc.notifying s.pc = 1 ∧
      count Loc.isWoken s.pc < s.queue.mQueue.length
  | _ => False

/-- **The invariant.** Beside a thread that waits or is about to, every
item is attended to, or that thread is the only one and a notification is
still to come. -/
def Covered (s : State Tid T) : Prop :=
  0 < count Loc.waiting s.pc →
    s.queue.mQueue.length ≤ count Loc.attending s.pc ∨
      (count Loc.waiting s.pc ≤ 1 ∧ 0 < count Loc.notifying s.pc)

theorem woken_le_attending (pc : Tid → Option (Loc T)) :
    count Loc.isWoken pc ≤ count Loc.attending pc := by
  refine count_mono fun t l _ hl => ?_
  rw [Loc.eq_woken hl]
  rfl

/-- Where no thread is blocked, those that wait hold the mutex. -/
theorem waiting_le_holding (hnone : ∀ u, s.pc u ≠ some .blocked) :
    count Loc.waiting s.pc ≤ count Loc.holding s.pc := by
  refine count_mono fun t l ht hl => ?_
  rcases Loc.waiting_cases hl with rfl | rfl
  · rfl
  · exact absurd ht (hnone t)

variable [DecidableEq Tid]

/-- **Where one thread moves**: the counts of the invariant before and
after. -/
theorem counts_update (pc : Tid → Option (Loc T)) (t : Tid) (x : Option (Loc T)) :
    count Loc.waiting (Function.update pc t x) + ((pc t).any Loc.waiting).toNat
        = count Loc.waiting pc + (x.any Loc.waiting).toNat ∧
      count Loc.attending (Function.update pc t x) + ((pc t).any Loc.attending).toNat
        = count Loc.attending pc + (x.any Loc.attending).toNat ∧
      count Loc.notifying (Function.update pc t x) + ((pc t).any Loc.notifying).toNat
        = count Loc.notifying pc + (x.any Loc.notifying).toNat :=
  ⟨count_update _ _ _ _, count_update _ _ _ _, count_update _ _ _ _⟩

/-- **A thread that keeps its part keeps the invariant**: it does not
begin to wait, nor stop attending or notifying, and the queue gets no
longer. -/
theorem Covered.move (hcov : Covered s) {t : Tid} {x : Option (Loc T)}
    (hwaiting : (x.any Loc.waiting).toNat ≤ ((s.pc t).any Loc.waiting).toNat)
    (hattending : ((s.pc t).any Loc.attending).toNat ≤ (x.any Loc.attending).toNat)
    (hnotifying : ((s.pc t).any Loc.notifying).toNat ≤ (x.any Loc.notifying).toNat)
    (hq : s'.queue.mQueue = s.queue.mQueue) (hpc : s'.pc = Function.update s.pc t x) :
    Covered s' := by
  have hmove := counts_update s.pc t x
  unfold Covered at *
  rw [hq, hpc]
  omega

/-- **A notification that wakes a thread keeps the invariant**: the thread
was the only one waiting, or it is woken to attend as the notification
did. -/
theorem Covered.wake (hcov : Covered s) {t u : Tid} (ht : s.pc t = some .counted)
    (hu : s.pc u = some .blocked) :
    Covered ⟨s.queue, Function.update (Function.update s.pc t none) u (some .woken)⟩ := by
  have hidle := counts_update s.pc t none
  have hwoken := counts_update (Function.update s.pc t none) u (some .woken)
  simp only [ht, (blocked_update_iff ht).mpr hu, Option.any_none, Option.any_some, Loc.waiting,
    Loc.attending, Loc.notifying, Bool.toNat_true, Bool.toNat_false] at hidle hwoken
  unfold Covered at *
  simp only
  omega

/-- **After a notification that wakes none and is not lost the invariant
holds**: it was not the last to come, or those woken will take what there
is. -/
theorem covered_notify (hs : (machine Tid T).Reachable s) {t : Tid} {w : Option Tid}
    (hok : ¬ Lost s (.exec t w)) (ht : s.pc t = some .counted)
    (hnone : ∀ u, s.pc u ≠ some .blocked) :
    Covered ⟨s.queue, Function.update s.pc t none⟩ := by
  have hidle := counts_update s.pc t none
  have hwoken := count_update Loc.isWoken s.pc t none
  simp only [ht, Option.any_none, Option.any_some, Loc.waiting, Loc.attending, Loc.notifying,
    Loc.isWoken, Bool.toNat_true, Bool.toNat_false] at hidle hwoken
  have hle := woken_le_attending (Function.update s.pc t none)
  have hone : count Loc.waiting s.pc ≤ 1 :=
    (waiting_le_holding hnone).trans ((holding_eq hs).trans_le (Bool.toNat_le _))
  intro hwaiting
  simp only at hwaiting ⊢
  -- with another notification to come, a thread alone in waiting will get it
  by_cases hlast : count Loc.notifying s.pc = 1
  · obtain ⟨v, l, hv, hl⟩ := count_pos_iff.mp (by omega : 0 < count Loc.waiting s.pc)
    have hempty : s.pc v = some .foundEmpty := by
      rcases Loc.waiting_cases hl with rfl | rfl
      · exact hv
      · exact absurd hv (hnone v)
    have hfew : ¬ count Loc.isWoken s.pc < s.queue.mQueue.length :=
      fun hmany => hok ⟨ht, hnone, ⟨v, hempty⟩, hlast, hmany⟩
    exact Or.inl (by omega)
  · exact Or.inr ⟨by omega, by omega⟩

/-- **The invariant holds where no notification is lost.** Finding the
queue empty starts a wait beside no item; a push brings the notification
with the item; a pop takes an item and the thread that attended to it. -/
theorem covered (hs : (machine Tid T).ReachBy (fun s a => ¬ Lost s a) s) : Covered s := by
  refine hs.invariant (I := Covered) ?_ ?_
  · rintro _ rfl hwaiting
    obtain ⟨t, l, ht, _⟩ := count_pos_iff.mp hwaiting
    cases ht
  · intro s a s' hr ih hok hstep
    cases moves_of_step hstep with
    | wake ht hu => exact ih.wake ht hu
    | enqueue ht | dequeue ht | spurious ht =>
      refine ih.move ?_ ?_ ?_ rfl rfl
      all_goals simp [ht, Loc.waiting, Loc.attending, Loc.notifying]
    | @exec t w l o ht ho hnone =>
      cases ho with
      | notify => exact covered_notify hr.reachable hok ht (hnone rfl)
      | @push data =>
        have hmove := counts_update s.pc t (some .pushed)
        simp only [ht, Option.any_some, Loc.waiting, Loc.attending, Loc.notifying,
          Bool.toNat_true, Bool.toNat_false] at hmove
        unfold Covered at *
        simp only [List.length_append, List.length_singleton]
        omega
      | findEmpty hq =>
        intro _
        simp only [hq, List.length_nil]
        exact Or.inl (Nat.zero_le _)
      | @pop result =>
        have hmove := counts_update s.pc t (some (.popped result s.queue.mQueue.head?))
        simp only [ht, Option.any_some, Loc.waiting, Loc.attending, Loc.notifying,
          Bool.toNat_true, Bool.toNat_false] at hmove
        unfold Covered at *
        simp only [List.length_tail]
        omega
      | _ =>
        refine ih.move ?_ ?_ ?_ rfl rfl
        all_goals simp [ht, Loc.waiting, Loc.attending, Loc.notifying]

/-- **The only way to strand a `Dequeue`** is to lose a notification. -/
theorem not_stranded (hs : (machine Tid T).ReachBy (fun s a => ¬ Lost s a) s) :
    ¬ Stranded s := by
  intro S
  obtain ⟨t, l, ht, hl⟩ := count_pos_iff.mp S.blocked
  have hwaiting : 0 < count Loc.waiting s.pc := by
    refine count_pos_iff.mpr ⟨t, l, ht, ?_⟩
    cases l with
    | blocked => rfl
    | _ => cases hl
  have hpos : 0 < s.queue.mQueue.length := List.length_pos_iff.mpr S.nonempty
  have hattending : count Loc.attending s.pc ≤
      count Loc.notifying s.pc + count Loc.isWoken s.pc + count Loc.holding s.pc := by
    unfold count
    simp only [Threads.count_eq_total]
    rw [← Threads.total_add, ← Threads.total_add]
    refine Threads.total_mono fun x => ?_
    cases x with
    | none => exact le_rfl
    | some l => cases l <;> simp [Loc.attending, Loc.notifying, Loc.isWoken, Loc.holding]
  have hcov := covered hs hwaiting
  have := S.not_notifying
  have := S.not_woken
  have := S.not_holding
  omega

/-- A woken thread walks `Dequeue` to its end, with the mutex free and an
item to take. -/
theorem run_dequeue {t : Tid} (ht : s.pc t = some .woken) (hfree : s.queue.mLocked = false)
    (hne : s.queue.mQueue ≠ []) :
    ∃ q, (machine Tid T).run s (List.replicate 6 (.exec t none))
        = some ⟨q, Function.update s.pc t none⟩ ∧
      q.mQueue = s.queue.mQueue.tail ∧ q.mLocked = false := by
  have hlock : ¬ s.queue.mLocked = true := Bool.not_eq_true _ ▸ hfree
  have hitem : ¬ s.queue.mQueue.length = 0 := fun h => hne (List.length_eq_zero_iff.mp h)
  refine ⟨{ s.queue with
    mQueue := s.queue.mQueue.tail, mLocked := false, mSize := s.queue.mSize - 1
    pops := s.queue.pops ++ s.queue.mQueue.head?.toList }, ?_, rfl, rfl⟩
  -- it locks, finds the item, and goes on to `front`, `pop`, `m_size--` and the unlock
  refine Eq.trans (run_exec ht (if_neg hlock) rfl) ?_
  refine Eq.trans (run_exec (Function.update_self ..) (if_neg hitem) rfl) ?_
  iterate 4 refine Eq.trans (run_exec (Function.update_self ..) rfl rfl) ?_
  simp only [Function.update_idem]
  rfl

/-- With the mutex free, a thread blocked, no notification to come and
more items than threads woken, the woken ones run dry and strand it. -/
theorem exists_stranded (hs : (machine Tid T).Reachable s) (hfree : s.queue.mLocked = false)
    (hblocked : ∃ t, s.pc t = some .blocked) (hnotifying : count Loc.notifying s.pc = 0)
    (hmany : count Loc.isWoken s.pc < s.queue.mQueue.length) :
    ∃ as s', (machine Tid T).run s as = some s' ∧ Stranded s' := by
  induction hn : count Loc.isWoken s.pc generalizing s with
  | zero =>
    obtain ⟨t, ht⟩ := hblocked
    refine ⟨[], s, rfl, count_pos_iff.mpr ⟨t, _, ht, rfl⟩, List.length_pos_iff.mp (by omega),
      hnotifying, hn, ?_⟩
    rw [holding_eq hs, hfree, Bool.toNat_false]
  | succ n ih =>
    -- one woken thread runs to its end with one item, and one fewer of each is left
    obtain ⟨t, l, ht, hl⟩ := count_pos_iff.mp (by omega : 0 < count Loc.isWoken s.pc)
    obtain rfl := Loc.eq_woken hl
    obtain ⟨q, hrun, hq, hlocked⟩ := run_dequeue ht hfree (List.length_pos_iff.mp (by omega))
    have hnot := count_update Loc.notifying s.pc t none
    have hwok := count_update Loc.isWoken s.pc t none
    simp only [ht, Option.any_some, Option.any_none, Loc.notifying, Loc.isWoken,
      Bool.toNat_false, Bool.toNat_true] at hnot hwok
    obtain ⟨u, hu⟩ := hblocked
    have hut : u ≠ t := fun h => by rw [h, ht] at hu; cases hu
    obtain ⟨as, s', hrest, hstranded⟩ := ih (Machine.reachable_of_run hs _ hrun) hlocked
      ⟨u, by simp only [Function.update_of_ne hut, hu]⟩ (by simp only; omega)
      (by simp only [hq, List.length_tail]; omega) (by simp only; omega)
    refine ⟨List.replicate 6 (.exec t none) ++ as, s', ?_, hstranded⟩
    rw [Machine.run_append, hrun, Option.bind_some, hrest]

/-- **And every lost notification does strand one**: from the step that
loses it, some run leads to a `Dequeue` stranded. -/
theorem stranded_of_lost (hs : (machine Tid T).Reachable s) (hlost : Lost s a)
    (hstep : (machine Tid T).step s a = some s') :
    ∃ as s'', (machine Tid T).run s' as = some s'' ∧ Stranded s'' := by
  cases a with
  | exec t w =>
    obtain ⟨ht, hnone, ⟨v, hv⟩, hlast, hmany⟩ := hlost
    have hs' := hs.step hstep
    cases moves_of_step hstep with
    | wake _ hu => exact absurd hu (hnone _)
    | @exec _ _ l o ht' ho _ =>
      rw [ht, Option.some.injEq] at ht'
      subst ht'
      cases ho with
      | notify =>
        -- nobody was there to wake, and now `v` blocks
        have hvt : v ≠ t := fun h => by rw [h, ht] at hv; cases hv
        have hv' : Function.update s.pc t none v = some .foundEmpty := by
          rw [Function.update_of_ne hvt, hv]
        have hwait : (machine Tid T).run ⟨s.queue, Function.update s.pc t none⟩ [.exec v none]
            = some ⟨{ s.queue with mLocked := false },
                Function.update (Function.update s.pc t none) v (some .blocked)⟩ := by
          rw [run_exec hv' rfl rfl, Machine.run_nil]
        have hnot := count_update Loc.notifying s.pc t none
        have hnot' := count_update Loc.notifying (Function.update s.pc t none) v (some .blocked)
        have hwok := count_update Loc.isWoken s.pc t none
        have hwok' := count_update Loc.isWoken (Function.update s.pc t none) v (some .blocked)
        simp only [ht, hv', Option.any_some, Option.any_none, Loc.notifying, Loc.isWoken,
          Bool.toNat_false, Bool.toNat_true] at hnot hnot' hwok hwok'
        obtain ⟨as, s'', hrun, hstranded⟩ := exists_stranded
          (Machine.reachable_of_run hs' _ hwait) rfl ⟨v, Function.update_self ..⟩
          (by simp only; omega) (by simp only; omega)
        refine ⟨[.exec v none] ++ as, s'', ?_, hstranded⟩
        rw [Machine.run_append, hwait, Option.bind_some, hrun]
  | _ => exact hlost.elim

/-- A `Dequeue` blocks first and the `Enqueue` wakes it: no step of the run
loses a notification. -/
theorem not_stranded_of_woken :
    ∃ s, (machine (Fin 2) ℤ).ReachBy (fun s a => ¬ Lost s a) s ∧ s.queue.mQueue = [7] ∧
      s.pc 0 = some .woken ∧ ¬ Stranded s := by
  have hblock : (machine (Fin 2) ℤ).ReachBy (fun s a => ¬ Lost s a) _ :=
    .step (a := .exec 0 none) (.step (a := .exec 0 none) (.step (a := .exec 0 none)
      (.step (a := .dequeue 0) (.init rfl) id rfl) (fun h => nomatch h.1) rfl)
      (fun h => nomatch h.1) rfl) (fun h => nomatch h.1) rfl
  have hcount : (machine (Fin 2) ℤ).ReachBy (fun s a => ¬ Lost s a) _ :=
    .step (a := .exec 1 none) (.step (a := .exec 1 none)
      (.step (a := .enqueue 1 7) hblock id rfl) (fun h => nomatch h.1) rfl)
      (fun h => nomatch h.1) rfl
  have hnotify : (machine (Fin 2) ℤ).ReachBy (fun s a => ¬ Lost s a) _ :=
    .step (a := .exec 1 (some 0)) hcount (fun h => h.2.1 0 rfl) rfl
  exact ⟨_, hnotify, rfl, rfl, not_stranded hnotify⟩

/-- **An `Enqueue` in the window**: the thread that found the queue empty
blocks beside the value pushed meanwhile. -/
theorem stranded_in_window :
    ∃ s : State (Fin 2) ℤ, (machine (Fin 2) ℤ).Reachable s ∧ Stranded s := by
  have hrun : (machine (Fin 2) ℤ).Reachable _ :=
    Machine.reachable_of_run (.init rfl)
      [.dequeue 0, .exec 0 none, .exec 0 none, .enqueue 1 7, .exec 1 none, .exec 1 none,
        .exec 1 none, .exec 0 none] rfl
  refine ⟨_, hrun, ?_, nofun, ?_, ?_, ?_⟩
  all_goals decide

end SynchronisedQueue

end TestBuffer
