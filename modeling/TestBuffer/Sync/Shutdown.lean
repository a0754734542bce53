import TestBuffer.Common.Shutdown
import TestBuffer.Sync.Reader
/-!
# `buf-sync` — a shutdown that never ends

`client_reader` calls itself after each item and never looks at the
service it is given. So a worker that has picked it never returns to
`run`, and what it does once the service has been stopped and the other
worker has returned is wait in `Dequeue` for an item that nobody is left
to enqueue, with main in `join_all` (`Deadlocked`). That is ruled out only
where no worker is in `client_reader` when main stops the service
(`not_deadlocked`): from every other stop a run leads there
(`deadlocked_of_stopsReader`), in which main goes on to its join, the
other threads end, and the reader takes what is left in the queue. Main
does not return from it (`not_done_of_reads`).
-/

namespace TestBuffer

namespace Sync

variable {ids : List (BitVec 32)} {Tid : Type*} [Fintype Tid] [DecidableEq Tid]

/-- `buf-sync` with any posts, on a service that heeds its stop. -/
abbrev service (Tid : Type*) [Fintype Tid] [DecidableEq Tid] (ids : List (BitVec 32)) :=
  Pool.service Tid (posting ids) fun _ => 0

variable {s s' : Pool.State bufLen Tid Task Loc MainLoc Shared (BitVec 32)} {a : Pool.Act Tid}
variable {t : Tid} {l l' : Loc} {cause : Option ℕ}

/-- **A shutdown that never ends**: main waits for the threads of a stopped
service, and of these one is blocked in `Dequeue` on an empty queue and
every other has returned. -/
structure Deadlocked (s : Pool.State bufLen Tid Task Loc MainLoc Shared (BitVec 32)) : Prop where
  joining : s.main = .join
  stopped : s.world.stopped = true
  empty : s.world.shared.queue.mQueue = []
  blocked : ∃ t cause, s.worker t = .busy (.reading .blocked) cause ∧
    ∀ u, u ≠ t → s.worker u = .exited

/-- A thread is in `client_reader`. -/
def Reads (s : Pool.State bufLen Tid Task Loc MainLoc Shared (BitVec 32)) : Prop :=
  ∃ t l cause, s.worker t = .busy l cause ∧ l.reads = true

/-- Main stops the service while a thread is in `client_reader`. -/
def StopsReader (s : Pool.State bufLen Tid Task Loc MainLoc Shared (BitVec 32)) :
    Pool.Act Tid → Prop
  | .main => s.main = .stop ∧ Reads s
  | _ => False

/-- Only the reader is ever blocked. -/
theorem reads_of_wake (h : (posting ids).wake l = some l') : l.reads = true ∧ l'.reads = true := by
  rw [(wake_eq_some h).1, (wake_eq_some h).2]
  exact ⟨rfl, rfl⟩

omit [Fintype Tid] in
/-- Where one thread moves, and not into `client_reader`, nobody new is in
it. -/
theorem not_reads_update {x : Pool.Worker Loc} (h : ¬ Reads s)
    (hworker : s'.worker = Function.update s.worker t x)
    (hx : ∀ l cause, x = .busy l cause → l.reads = false) : ¬ Reads s' := by
  rintro ⟨u, l, cause, hu, hl⟩
  rw [hworker] at hu
  rcases Pool.busy_update ⟨u, hu⟩ with hmoved | ⟨v, hv⟩
  · rw [hx l cause hmoved] at hl
    cases hl
  · exact h ⟨v, l, cause, hv, hl⟩

omit [Fintype Tid] in
/-- And no step of a handler leads into it. -/
theorem not_reads_exec {o : Pool.Outcome Loc Shared (BitVec 32)} (h : ¬ Reads s)
    (ht : s.worker t = .busy l cause)
    (ho : (posting ids).exec l s.world.shared s.world.stopped s.world.buffer = some o) :
    ¬ Reads (s.exec t cause o) := by
  refine not_reads_update h rfl fun l' cause' hx => ?_
  have hl : l.reads = false := Bool.not_eq_true _ ▸ fun hl => h ⟨t, l, cause, ht, hl⟩
  cases hnext : o.next with
  | none =>
    rw [Pool.Outcome.worker, hnext] at hx
    cases hx
  | some l₁ =>
    rw [Pool.Outcome.worker, hnext, Pool.Worker.busy.injEq] at hx
    rw [← hx.1]
    exact (step_of_posting ho).reads_next hnext hl

/-- **Where main does not stop the service under a reader**, there is none
from the stop on. -/
theorem not_reads_of_stopped (hs : (service Tid ids).ReachBy (fun s a => ¬ StopsReader s a) s) :
    s.world.stopped = true → ¬ Reads s := by
  refine hs.invariant (I := fun s => s.world.stopped = true → ¬ Reads s) ?_ ?_
  · rintro _ rfl hst
    cases hst
  · intro s a s' _ ih hok hstep hst
    obtain ⟨hprompt, hstep⟩ := Machine.guard_step_eq_some.mp hstep
    have hexec : ∀ {l o}, (posting ids).exec l s.world.shared s.world.stopped s.world.buffer = some o →
        (s.world.stopped || o.stop) = true → ¬ Reads s := by
      intro l o ho hst
      rw [(step_of_posting ho).stop_eq, Bool.or_false] at hst
      exact ih hst
    cases Pool.moves_of_step hstep with
    | complete _ => exact ih hst
    | start _ _ =>
      -- a stopped service starts no handler
      have hrunning : s.world.stopped = false := Bool.not_eq_eq_eq_not.mp hprompt
      exact absurd (hrunning.symm.trans hst) Bool.false_ne_true
    | exec ht ho _ => exact not_reads_exec (hexec ho hst) ht ho
    | wake ht ho _ hu hl =>
      exact absurd ⟨_, _, _, hu, (reads_of_wake hl).1⟩ (not_reads_exec (hexec ho hst) ht ho)
    | spurious ht hl => exact absurd ⟨_, _, _, ht, (reads_of_wake hl).1⟩ (ih hst)
    | leave _ _ => exact not_reads_update (ih hst) rfl nofun
    | @main o ho =>
      have hmain := mainStep_of_main ho
      rcases Bool.or_eq_true_iff.mp hst with hst | hstop
      · exact ih hst
      · generalize hm : s.main = m at hmain
        cases hmain with
        | stop => exact fun hreads => hok ⟨hm, hreads⟩
        | _ => cases hstop

/-- **The shutdown does not deadlock where no thread is in `client_reader`
when main stops the service**, in every run of any number of threads. -/
theorem not_deadlocked (hs : (service Tid ids).ReachBy (fun s a => ¬ StopsReader s a) s) :
    ¬ Deadlocked s := by
  rintro ⟨-, hst, -, t, cause, ht, -⟩
  exact not_reads_of_stopped hs hst ⟨t, _, cause, ht, rfl⟩

/-- The reader is never picked: both threads return, and main is about to
find that they have. -/
theorem not_deadlocked_of_unread :
    ∃ s, (service (Fin 2) [7]).ReachBy (fun s a => ¬ StopsReader s a) s ∧ s.main = .join ∧
      s.world.stopped = true ∧ (∀ t, s.worker t = .exited) ∧ ¬ Deadlocked s := by
  have hposted : (service (Fin 2) [7]).ReachBy (fun s a => ¬ StopsReader s a) _ :=
    .step (a := .main) (.step (a := .main) (.step (a := .main) (.init rfl)
      (fun h => nomatch h.1) rfl) (fun h => nomatch h.1) rfl) (fun h => nomatch h.1) rfl
  have hlast : (service (Fin 2) [7]).ReachBy (fun s a => ¬ StopsReader s a) _ :=
    .step (a := .main) (.step (a := .main) (.step (a := .main) (.step (a := .main) hposted
      (fun h => nomatch h.1) rfl) (fun h => nomatch h.1) rfl) (fun h => nomatch h.1) rfl)
      (fun h => nomatch h.1) rfl
  have hstopped : (service (Fin 2) [7]).ReachBy (fun s a => ¬ StopsReader s a) _ :=
    .step (a := .main) hlast (fun h => by obtain ⟨-, t, l, cause, ht, -⟩ := h; cases ht) rfl
  have hleft : (service (Fin 2) [7]).ReachBy (fun s a => ¬ StopsReader s a) _ :=
    .step (a := .leave 1) (.step (a := .leave 0) hstopped id rfl) id rfl
  exact ⟨_, hleft, rfl, rfl, by decide, not_deadlocked hleft⟩

/-- **A shutdown that deadlocks**: one thread picks `client_reader` and
waits, the other runs `handle_data`, no datagram comes, and main stops the
service before anybody picks a `client_writer`. -/
theorem deadlocked_in_join :
    ∃ s, (service (Fin 2) (List.replicate 10 1)).Reachable s ∧ Deadlocked s := by
  have hrun : (service (Fin 2) (List.replicate 10 1)).Reachable _ :=
    Machine.reachable_of_run (.init rfl)
      ([.main, .main, .main, .start 0 0, .exec 0 none, .exec 0 none, .exec 0 none, .exec 0 none,
        .start 1 0, .exec 1 none, .exec 1 none] ++ List.replicate 32 .main ++ [.leave 1]) rfl
  exact ⟨_, hrun, rfl, rfl, rfl, 0, none, rfl, by decide⟩

/-! ## Main goes on to its join -/

/-- The steps main still has to take to `join_all`. -/
def MainLoc.toJoin (ids : List (BitVec 32)) : MainLoc → ℕ
  | start => 3 * ids.length + 5
  | postClientReader => 3 * ids.length + 4
  | postHandleData => 3 * ids.length + 3
  | loop i => 3 * (ids.length - i) + 2
  | get i => 3 * (ids.length - (i + 1)) + 4
  | postClientWriter i => 3 * (ids.length - (i + 1)) + 3
  | stop => 1
  | join => 0
  | done => 0

/-- Main is never held up before it. -/
theorem exists_main (sh : Shared) (st joined : Bool) {m : MainLoc} (hjoin : m ≠ .join)
    (hdone : m ≠ .done) :
    ∃ o, (posting ids).main m sh st joined = some o ∧ o.next.toJoin ids < m.toJoin ids := by
  cases m with
  | start | postClientReader | get | postClientWriter | stop =>
    exact ⟨_, rfl, Nat.lt_succ_self _⟩
  | postHandleData => exact ⟨_, rfl, Nat.lt_succ_self _⟩
  | loop i =>
    by_cases hi : i < ids.length
    · refine ⟨{ next := .get i, shared := sh }, if_pos hi, ?_⟩
      simp only [MainLoc.toJoin]
      omega
    · refine ⟨{ next := .stop, shared := sh }, if_neg hi, ?_⟩
      simp only [MainLoc.toJoin]
      omega
  | join => exact absurd rfl hjoin
  | done => exact absurd rfl hdone

/-- **Main joins a stopped service**, and returns from the join where every
thread has returned. -/
structure Joins (s : Pool.State bufLen Tid Task Loc MainLoc Shared (BitVec 32)) : Prop where
  stopped : s.main = .join → s.world.stopped = true
  exited : s.main = .done → ∀ u, s.worker u = .exited

theorem joins_of_reachable (hs : (service Tid ids).Reachable s) : Joins s := by
  refine hs.invariant (I := Joins) ?_ ?_
  · rintro _ rfl
    exact ⟨nofun, nofun⟩
  · intro s a s' _ ih _ hstep
    -- where every thread has returned, none of them does anything
    have hbusy : ∀ {t x}, s.worker t = x → x ≠ .exited → s.main ≠ .done :=
      fun ht hx hdone => hx (ht.symm.trans (ih.exited hdone _))
    cases Pool.moves_of_step (Machine.guard_step_eq_some.mp hstep).2 with
    | complete _ => exact ⟨ih.stopped, ih.exited⟩
    | start ht _ => exact ⟨ih.stopped, fun hdone => absurd hdone (hbusy ht nofun)⟩
    | exec ht _ _ | wake ht _ _ _ _ =>
      refine ⟨fun hjoin => ?_, fun hdone => absurd hdone (hbusy ht nofun)⟩
      exact Bool.or_eq_true_iff.mpr (Or.inl (ih.stopped hjoin))
    | spurious ht _ => exact ⟨ih.stopped, fun hdone => absurd hdone (hbusy ht nofun)⟩
    | leave ht _ => exact ⟨ih.stopped, fun hdone => absurd hdone (hbusy ht nofun)⟩
    | @main o ho =>
      have hmain := mainStep_of_main ho
      generalize s.main = m at hmain
      cases hmain with
      | stop => exact ⟨fun _ => Bool.or_true _, nofun⟩
      | join hjoined =>
        refine ⟨nofun, fun _ u => ?_⟩
        have hu := of_decide_eq_true hjoined u
        cases hx : s.worker u with
        | exited => exact hx
        | _ => rw [hx] at hu; cases hu
      | _ => exact ⟨nofun, nofun⟩

/-- **While a thread is in a handler main can be run to its join.** -/
theorem exists_run_join (hs : (service Tid ids).Reachable s) (ht : s.worker t = .busy l cause) :
    ∃ as s', (service Tid ids).run s as = some s' ∧ (service Tid ids).Reachable s' ∧
      s'.worker = s.worker ∧ s'.main = .join := by
  have hmain : ∀ m, ((service Tid ids).Reachable m ∧ m.worker = s.worker) → ¬ m.main = .join →
      ∃ a m', (service Tid ids).step m a = some m' ∧
        ((service Tid ids).Reachable m' ∧ m'.worker = s.worker) ∧
        m'.main.toJoin ids < m.main.toJoin ids := by
    rintro m ⟨hm, hworker⟩ hjoin
    have hdone : m.main ≠ .done := fun hdone => by
      have hexited := (joins_of_reachable hm).exited hdone t
      rw [hworker, ht] at hexited
      cases hexited
    obtain ⟨o, ho, hlt⟩ := exists_main m.world.shared m.world.stopped
      (decide (∀ t, (m.worker t).isExited = true)) hjoin hdone
    have hstep : (service Tid ids).step m .main = some (m.mainStep o) := by
      rw [Pool.service_step rfl]
      show Pool.step (posting ids) m .main = _
      rw [Pool.step, ho, Option.map_some]
    exact ⟨.main, m.mainStep o, hstep, ⟨hm.step hstep, hworker⟩, hlt⟩
  obtain ⟨as, s', hrun, ⟨hs', hworker⟩, hjoin⟩ :=
    Machine.exists_run_of_decreasing (M := service Tid ids) (fun m => m.main.toJoin ids) hmain
      ⟨hs, rfl⟩
  exact ⟨as, s', hrun, hs', hworker, hjoin⟩

/-! ## The other threads end -/

/-- The steps a handler other than `client_reader` still has to take. -/
def Loc.rest : Loc → ℕ
  | handleData => 2
  | returning => 1
  | receiveData => 7
  | receiving l => l.toReturn + 3
  | count => 3
  | clientWriter _ i => 4 * (5 - i) + 1
  | writing _ i l => 4 * (5 - i) + 1 + l.toReturn
  | _ => 0

/-- Inside a call the steps of the call come on top of those after it. -/
theorem rest_inQueue (go : SynchronisedQueue.Loc (BitVec 32) → Loc) (back : Loc) (n : ℕ)
    {lq : SynchronisedQueue.Loc (BitVec 32)} {next : Option (SynchronisedQueue.Loc (BitVec 32))}
    (hgo : ∀ l, (go l).rest = n + l.toReturn) (hback : back.rest = n)
    (hlt : next.elim 0 SynchronisedQueue.Loc.toReturn < lq.toReturn) :
    (next.elim back go).rest < (go lq).rest := by
  rw [hgo]
  cases next with
  | none =>
    rw [Option.elim_none] at hlt ⊢
    omega
  | some l =>
    rw [Option.elim_some] at hlt ⊢
    rw [hgo]
    omega

/-- None of them ever waits. -/
theorem exists_exec_of_not_reads (ids : List (BitVec 32)) (sh : Shared) (st : Bool)
    (b : Buffer bufLen) (hl : l.reads = false) :
    ∃ o, (posting ids).exec l sh st b = some o ∧ ∀ l', o.next = some l' → l'.rest < l.rest := by
  cases l with
  | handleData | receiveData | count =>
    refine ⟨_, rfl, ?_⟩
    rintro _ ⟨⟩
    exact Nat.lt_succ_self _
  | returning => exact ⟨_, rfl, nofun⟩
  | receiving l =>
    obtain ⟨o, ho, hlt⟩ :=
      SynchronisedQueue.exists_exec_of_enqueues sh.queue (Bool.not_eq_eq_eq_not.mp hl)
    refine ⟨_, congrArg (Option.map _) ho, ?_⟩
    rintro _ ⟨⟩
    exact rest_inQueue .receiving .count 3 (fun _ => Nat.add_comm _ _) rfl hlt
  | writing myid i l =>
    obtain ⟨o, ho, hlt⟩ :=
      SynchronisedQueue.exists_exec_of_enqueues sh.queue (Bool.not_eq_eq_eq_not.mp hl)
    refine ⟨_, congrArg (Option.map _) ho, ?_⟩
    rintro _ ⟨⟩
    exact rest_inQueue (.writing myid i) (.clientWriter myid i) (4 * (5 - i) + 1) (fun _ => rfl)
      rfl hlt
  | clientWriter myid i =>
    by_cases hi : i + 1 < 5
    · refine ⟨_, if_pos hi, ?_⟩
      rintro _ ⟨⟩
      simp only [Loc.rest, SynchronisedQueue.Loc.toReturn]
      omega
    · exact ⟨_, if_neg hi, nofun⟩
  | clientReader | reading _ | print _ => cases hl

/-- **The handlers that end**, which are all but `client_reader`. -/
def drains (ids : List (BitVec 32)) : Pool.Drains (posting ids) where
  ends l := !l.reads
  rest := Loc.rest
  exec {l} sh b hl := by
    have hl := Bool.not_eq_eq_eq_not.mp hl
    obtain ⟨o, ho, hlt⟩ := exists_exec_of_not_reads ids sh true b hl
    refine ⟨o, ho, fun l' hnext => ⟨?_, hlt l' hnext⟩⟩
    rw [(step_of_posting ho).reads_next hnext hl]
    rfl
  wake h := by
    rw [(reads_of_wake h).1, (reads_of_wake h).2]
    exact ⟨rfl, rfl⟩

/-! ## The reader runs the queue dry -/

/-- The steps the reader can take before it is blocked on an empty queue,
`n` items being held. -/
def Loc.toWait (n : ℕ) : Loc → ℕ
  | print _ => 11 * n + 6
  | clientReader => 11 * n + 5
  | reading l => l.toWait n
  | _ => 0

/-- The reader goes on unless it is blocked. -/
theorem exists_exec_of_reads (ids : List (BitVec 32)) {w : Pool.World bufLen Shared (BitVec 32)}
    (hl : l.reads = true) (hA : assertion (.loc l cause) w) (hblocked : l ≠ .reading .blocked) :
    ∃ o l', (posting ids).exec l w.shared w.stopped w.buffer = some o ∧ o.notify = false ∧
      o.next = some l' ∧ l'.reads = true ∧
      l'.toWait o.shared.queue.mQueue.length < l.toWait w.shared.queue.mQueue.length := by
  cases l with
  | clientReader => exact ⟨_, _, rfl, rfl, rfl, rfl, Nat.lt_succ_self _⟩
  | print x => exact ⟨_, _, rfl, rfl, rfl, rfl, Nat.lt_succ_self _⟩
  | reading l =>
    obtain ⟨o, ho, hnotify, hlt⟩ := SynchronisedQueue.exists_exec_of_dequeues hA.1 hA.2
      fun h => hblocked (congrArg Loc.reading h)
    refine ⟨_, _, congrArg (Option.map _) ho, hnotify, rfl, ?_⟩
    cases hnext : o.next with
    | none =>
      rw [hnext, Option.elim_none] at hlt
      exact ⟨rfl, hlt⟩
    | some l' =>
      rw [hnext, Option.elim_some] at hlt
      exact ⟨rfl, hlt⟩
  | receiving _ | writing _ _ _ => exact hA.elim
  | handleData | returning | receiveData | count | clientWriter _ _ => cases hl

/-- **Only the reader is left.** -/
structure Left (t : Tid) (s : Pool.State bufLen Tid Task Loc MainLoc Shared (BitVec 32)) : Prop where
  joining : s.main = .join
  stopped : s.world.stopped = true
  exited : ∀ u, u ≠ t → s.worker u = .exited
  reading : ∃ l cause, s.worker t = .busy l cause ∧ l.reads = true

/-- It is until it waits on an empty queue. -/
theorem Left.exists_step (h : Left t s) (hs : (service Tid ids).Reachable s)
    (hdead : ¬ Deadlocked s) :
    ∃ a s', (service Tid ids).step s a = some s' ∧ Left t s' ∧
      (s'.worker t).weight (Loc.toWait s'.world.shared.queue.mQueue.length) <
        (s.worker t).weight (Loc.toWait s.world.shared.queue.mQueue.length) := by
  obtain ⟨l, cause, ht, hl⟩ := h.reading
  have hothers : ∀ x u, u ≠ t → Function.update s.worker t x u = .exited := by
    intro x u hu
    rw [Function.update_of_ne hu]
    exact h.exited u hu
  by_cases hblocked : l = .reading .blocked
  · rw [hblocked] at ht
    have hitem : s.world.shared.queue.mQueue.length ≠ 0 := fun hempty =>
      hdead ⟨h.joining, h.stopped, List.length_eq_zero_iff.mp hempty, t, cause, ht, h.exited⟩
    refine ⟨.spurious t,
      { s with worker := Function.update s.worker t (.busy (.reading .woken) cause) }, ?_,
      ⟨h.joining, h.stopped, hothers _, ?_⟩, ?_⟩
    · rw [Pool.service_step rfl]
      show Pool.step (posting ids) s (.spurious t) = _
      rw [Pool.step, Threads.spurious, ht]
      rfl
    · exact ⟨_, _, Function.update_self .., rfl⟩
    · show Pool.Worker.weight _ (Function.update s.worker t _ t) < _
      rw [Function.update_self, ht, Pool.Worker.weight_busy, Pool.Worker.weight_busy]
      exact SynchronisedQueue.Loc.toWait_woken_lt (T := BitVec 32) hitem
  · have hA := assertion_of_reads hs.of_guard ht hl
    obtain ⟨o, l', ho, hnotify, hnext, hl', hlt⟩ := exists_exec_of_reads ids hl hA hblocked
    have hworker : (s.exec t cause o).worker t = .busy l' cause := by
      show Function.update s.worker t (o.worker cause) t = _
      rw [Function.update_self, Pool.Outcome.worker, hnext]
    refine ⟨.exec t none, s.exec t cause o, ?_, ⟨h.joining, ?_, hothers _, ?_⟩, ?_⟩
    · rw [Pool.service_step rfl]
      exact Pool.step_exec none ht ho hnotify
    · exact Bool.or_eq_true_iff.mpr (Or.inl h.stopped)
    · exact ⟨l', cause, hworker, hl'⟩
    · rw [hworker, ht]
      exact hlt

/-- **Whoever is in `client_reader` can be left waiting for ever.** -/
theorem exists_deadlocked (hs : (service Tid ids).Reachable s) (ht : s.worker t = .busy l cause)
    (hl : l.reads = true) : ∃ as s', (service Tid ids).run s as = some s' ∧ Deadlocked s' := by
  -- main goes on to its join, which stops the service
  obtain ⟨as, m, hrun, hm, hworker, hjoin⟩ := exists_run_join hs ht
  rw [← hworker] at ht
  -- the other threads end and return
  obtain ⟨bs, n, hrun', hkept, hsettled⟩ :=
    (drains ids).exists_run (b := fun _ => 0) ((joins_of_reachable hm).stopped hjoin)
  have hn := Machine.reachable_of_run hm bs hrun'
  obtain ⟨l₁, ht₁, hl₁⟩ := hkept.stays ht (congrArg not hl)
  have hl₁ : l₁.reads = true := Bool.not_eq_eq_eq_not.mp hl₁
  have hothers : ∀ u, u ≠ t → n.worker u = .exited := by
    intro u hu
    have hu' := hsettled u
    cases hx : n.worker u with
    | idle => rw [hx] at hu'; exact hu'.elim
    | busy l₂ cause₂ =>
      rw [hx] at hu'
      exact absurd (reads_unique hn.of_guard hx (Bool.not_eq_eq_eq_not.mp hu') ht₁ hl₁) hu
    | exited => rfl
  -- and the reader takes what is left
  obtain ⟨cs, s', hrun'', -, hdead⟩ :=
    Machine.exists_run_of_decreasing (M := service Tid ids)
      (I := fun s => (service Tid ids).Reachable s ∧ Left t s) (G := Deadlocked)
      (fun s => (s.worker t).weight (Loc.toWait s.world.shared.queue.mQueue.length))
      (fun s hs hdead => by
        obtain ⟨a, s', hstep, hleft, hlt⟩ := hs.2.exists_step hs.1 hdead
        exact ⟨a, s', hstep, ⟨hs.1.step hstep, hleft⟩, hlt⟩)
      ⟨hn, hkept.main.trans hjoin, hkept.stopped, hothers, l₁, cause, ht₁, hl₁⟩
  refine ⟨as ++ (bs ++ cs), s', ?_, hdead⟩
  rw [Machine.run_append, hrun, Option.bind_some, Machine.run_append, hrun', Option.bind_some,
    hrun'']

/-- **From every such stop a run leads to the deadlock**, so nothing but its
absence rules it out. -/
theorem deadlocked_of_stopsReader (hs : (service Tid ids).Reachable s) (hstop : StopsReader s a)
    (hstep : (service Tid ids).step s a = some s') :
    ∃ as s'', (service Tid ids).run s' as = some s'' ∧ Deadlocked s'' := by
  cases Pool.moves_of_step (Machine.guard_step_eq_some.mp hstep).2 with
  | main ho =>
    obtain ⟨-, t, l, cause, ht, hl⟩ := hstop
    exact exists_deadlocked (hs.step hstep) ht hl
  | _ => exact hstop.elim

/-! ## And stays there -/

omit [Fintype Tid] in
/-- Where one thread moves, and stays in `client_reader` if it was in it. -/
theorem reads_update {x : Pool.Worker Loc} (h : Reads s)
    (hworker : s'.worker = Function.update s.worker t x)
    (hx : ∀ l cause, s.worker t = .busy l cause → l.reads = true →
      ∃ l', x = .busy l' cause ∧ l'.reads = true) : Reads s' := by
  obtain ⟨u, l, cause, hu, hl⟩ := h
  rcases eq_or_ne u t with rfl | hne
  · obtain ⟨l', rfl, hl'⟩ := hx l cause hu hl
    exact ⟨u, l', cause, by rw [hworker, Function.update_self], hl'⟩
  · exact ⟨u, l, cause, by rw [hworker, Function.update_of_ne hne, hu], hl⟩

/-- No step of the service ends `client_reader`. -/
theorem reads_step (hs : (service Tid ids).Reachable s) (h : Reads s)
    (hstep : (service Tid ids).step s a = some s') : Reads s' := by
  have hexec : ∀ {t l cause o}, s.worker t = .busy l cause →
      (posting ids).exec l s.world.shared s.world.stopped s.world.buffer = some o →
      Reads (s.exec t cause o) := by
    intro t l cause o ht ho
    refine reads_update h rfl fun l₁ cause₁ ht₁ hl₁ => ?_
    cases ht.symm.trans ht₁
    obtain ⟨l', hnext, hl'⟩ :=
      (step_of_posting ho).exists_reads_next hl₁ (assertion_of_reads hs.of_guard ht hl₁)
    exact ⟨l', by rw [Pool.Outcome.worker, hnext], hl'⟩
  have hwake : ∀ {s : Pool.State bufLen Tid Task Loc MainLoc Shared (BitVec 32)} {t l l' cause},
      Reads s → s.worker t = .busy l cause → (posting ids).wake l = some l' →
      Reads { s with worker := Function.update s.worker t (.busy l' cause) } := by
    intro s t l l' cause h ht hl
    refine reads_update h rfl fun l₁ cause₁ ht₁ _ => ?_
    cases ht.symm.trans ht₁
    exact ⟨l', rfl, (reads_of_wake hl).2⟩
  cases Pool.moves_of_step (Machine.guard_step_eq_some.mp hstep).2 with
  | complete _ | main _ => exact h
  | start ht _ | leave ht _ =>
    refine reads_update h rfl fun l cause hbusy _ => ?_
    cases ht.symm.trans hbusy
  | exec ht ho _ => exact hexec ht ho
  | wake ht ho _ hu hl => exact hwake (hexec ht ho) hu hl
  | spurious ht hl => exact hwake h ht hl

/-- **Main never returns** from `join_all` once a thread has been in
`client_reader`, whatever the run. -/
theorem not_done_of_reads (hs : (service Tid ids).Reachable s) (h : Reads s)
    (as : List (Pool.Act Tid)) (hrun : (service Tid ids).run s as = some s') : s'.main ≠ .done := by
  induction as generalizing s with
  | nil =>
    cases hrun
    obtain ⟨t, l, cause, ht, -⟩ := h
    intro hdone
    have hexited := (joins_of_reachable hs).exited hdone t
    rw [ht] at hexited
    cases hexited
  | cons a as ih =>
    rw [Machine.run_cons, Option.bind_eq_some_iff] at hrun
    obtain ⟨m, hm, hrest⟩ := hrun
    exact ih (hs.step hm) (reads_step hs h hm) hrest

end Sync

end TestBuffer
