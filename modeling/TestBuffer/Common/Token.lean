import TestBuffer.Common.Pool
import Mathlib.Algebra.BigOperators.Group.List.Basic
import Mathlib.Algebra.GroupWithZero.Nat
import Mathlib.Algebra.Order.BigOperators.Group.List
/-!
# Turns in a pool

Nothing in a pool locks anything. What keeps two handlers apart is that
each passes its turn on: it issues the one receive whose completion will
run the next. A `Weight` says which locations, tasks and receives hold such
a turn, and that no step makes turns; so there are never more of them than
main began with (`Weight.total_le`). An `Account` weighs threads by how far
they have put one count ahead of another (`Account.balance`).
-/

namespace TestBuffer

namespace Pool

variable {words : ℕ} {Tid Task Loc MainLoc Shared Record : Type*}
variable {P : Program words Task Loc MainLoc Shared Record}

/-- **Turns**, and that no step makes any. -/
structure Weight (P : Program words Task Loc MainLoc Shared Record) where
  loc : Loc → ℕ
  task : Task → ℕ
  main : MainLoc → ℕ
  receive : ℕ
  entry_eq : ∀ τ, loc (P.entry τ) = task τ
  completion_eq : ∀ e n, task (P.completion e n) = receive
  wake_eq : ∀ {l l'}, P.wake l = some l' → loc l' = loc l
  exec_le : ∀ {l sh st b o}, P.exec l sh st b = some o →
    o.next.elim 0 loc + receive * o.receive.toNat ≤ loc l
  main_le : ∀ {m sh st j o}, P.main m sh st j = some o →
    main o.next + o.post.elim 0 task ≤ main m

/-- What main has of something it gives to the tasks it posts, `left` being
those it has still to post. -/
def due (left : MainLoc → List Task) (g : Task → ℕ) (m : MainLoc) : ℕ := ((left m).map g).sum

/-- **A step gives what is due to the task it posts**, and the rest stays
due. -/
theorem due_le {left : MainLoc → List Task} {m : MainLoc} {o : MainOutcome Task MainLoc Shared}
    (h : left m = o.post.toList ++ left o.next) (g : Task → ℕ) :
    due left g o.next + o.post.elim 0 g ≤ due left g m := by
  rw [due, due, h, List.map_append, List.sum_append, Nat.add_comm]
  refine Nat.add_le_add_right ?_ _
  cases o.post with
  | none => exact Nat.zero_le _
  | some τ => exact (List.sum_singleton).ge

namespace Weight

variable (W : Weight P)

theorem queued_eq (c : Completion) : W.task (P.queued c) = W.receive := by
  cases c with
  | success payload => exact W.completion_eq _ _
  | failure => exact W.completion_eq _ _

/-- What the tasks ready weigh. -/
def readySum (ready : List (Job Task)) : ℕ := (ready.map fun j => W.task j.task).sum

theorem readySum_concat (ready : List (Job Task)) (j : Job Task) :
    W.readySum (ready ++ [j]) = W.readySum ready + W.task j.task := by
  rw [readySum, List.map_append, List.sum_append, readySum]
  simp

/-- Picking a task takes its weight away. -/
theorem readySum_eraseIdx {ready : List (Job Task)} {k : ℕ} {j : Job Task}
    (h : ready[k]? = some j) : W.readySum (ready.eraseIdx k) + W.task j.task = W.readySum ready := by
  obtain ⟨hk, rfl⟩ := List.getElem?_eq_some_iff.mp h
  have hperm := (List.getElem_cons_eraseIdx_perm hk).map fun j => W.task j.task
  have hsum := hperm.sum_eq
  rw [List.map_cons, List.sum_cons] at hsum
  rw [readySum, readySum]
  omega

theorem le_readySum {ready : List (Job Task)} {j : Job Task} (h : j ∈ ready) :
    W.task j.task ≤ W.readySum ready :=
  List.single_le_sum (fun _ _ => Nat.zero_le _) _ (List.mem_map.mpr ⟨j, h, rfl⟩)

/-- Two tasks weigh together. -/
theorem add_le_readySum {ready : List (Job Task)} {j j' : Job Task} (h : j ∈ ready)
    (h' : j' ∈ ready) (hne : j' ≠ j) : W.task j.task + W.task j'.task ≤ W.readySum ready := by
  obtain ⟨k, hk⟩ := List.getElem?_of_mem h
  have hrest : j' ∈ ready.eraseIdx k := by
    obtain ⟨hlt, rfl⟩ := List.getElem?_eq_some_iff.mp hk
    have := (List.getElem_cons_eraseIdx_perm hlt).mem_iff.mpr h'
    exact (List.mem_cons.mp this).resolve_left hne
  have := W.readySum_eraseIdx hk
  have := W.le_readySum hrest
  omega

variable [Fintype Tid]

/-- **The turns there are.** -/
def total (s : State words Tid Task Loc MainLoc Shared Record) : ℕ :=
  W.main s.main + W.readySum s.ready + W.receive * s.outstanding +
    Threads.total (Worker.weight W.loc) s.worker

variable [DecidableEq Tid] {s : State words Tid Task Loc MainLoc Shared Record}

omit [DecidableEq Tid] in
theorem total_complete (c : Completion) (h : 0 < s.outstanding) :
    W.total (s.complete P c) = W.total s := by
  obtain ⟨n, hn⟩ := Nat.exists_eq_add_of_lt h
  unfold total State.complete
  simp only [readySum_concat, queued_eq, hn, Nat.zero_add, Nat.add_sub_cancel, Nat.mul_add,
    Nat.mul_one]
  omega

theorem total_start {t : Tid} {k : ℕ} {j : Job Task} (ht : s.worker t = .idle)
    (hk : s.ready[k]? = some j) : W.total (s.start P t k j) = W.total s := by
  have hready := W.readySum_eraseIdx hk
  have hworker := Threads.total_update (Worker.weight W.loc) s.worker t
    (.busy (P.entry j.task) j.cause)
  rw [ht, Worker.weight_idle, Worker.weight_busy, W.entry_eq] at hworker
  unfold total State.start
  simp only
  omega

/-- A step of a handler moves the turns its location held. -/
theorem total_exec {t : Tid} {l : Loc} {cause : Option ℕ} (o : Outcome Loc Shared Record)
    (ht : s.worker t = .busy l cause) :
    W.total (s.exec t cause o) + W.loc l
      = W.total s + (o.next.elim 0 W.loc + W.receive * o.receive.toNat) := by
  have hworker := Threads.total_update (Worker.weight W.loc) s.worker t (o.worker cause)
  rw [ht, Outcome.weight_worker, Worker.weight_busy] at hworker
  unfold total State.exec
  simp only [Nat.mul_add]
  omega

/-- Moving a thread between places of one weight moves no turn. -/
theorem total_update {t : Tid} {x : Worker Loc}
    (h : x.weight W.loc = (s.worker t).weight W.loc) :
    W.total { s with worker := Function.update s.worker t x } = W.total s := by
  unfold total
  rw [Threads.total_update_eq h]

omit [DecidableEq Tid] in
theorem total_mainStep (o : MainOutcome Task MainLoc Shared) :
    W.total (s.mainStep o) + W.main s.main
      = W.total s + (W.main o.next + o.post.elim 0 W.task) := by
  have hready : W.readySum (s.ready ++ (o.post.map fun τ => (⟨τ, none⟩ : Job Task)).toList)
      = W.readySum s.ready + o.post.elim 0 W.task := by
    cases o.post with
    | none => simp
    | some τ => exact W.readySum_concat _ _
  unfold total State.mainStep
  simp only [hready]
  omega

/-- **There are never more turns than main began with.** -/
theorem total_le {b : Buffer words} (hs : (machine Tid P b).Reachable s) :
    W.total s ≤ W.main P.mainInit := by
  refine Invariant.of_reachable (I := fun s => W.total s ≤ W.main P.mainInit)
    ⟨?_, ?_, ?_, ?_, ?_, ?_⟩ ?_ hs
  · intro s c ih hpos
    exact (W.total_complete c hpos).trans_le ih
  · intro s t k j ih ht hk
    exact (W.total_start ht hk).trans_le ih
  · intro s t l cause o ih ht ho
    have := W.total_exec o ht
    have := W.exec_le ho
    omega
  · intro s t l l' cause ih ht hl
    refine (W.total_update ?_).trans_le ih
    rw [ht]
    exact W.wake_eq hl
  · intro s t ih ht _
    exact (W.total_update (by rw [ht]; rfl)).trans_le ih
  · intro s joined o ih ho
    have := W.total_mainStep (s := s) o
    have := W.main_le ho
    omega
  · simp [total, State.new, readySum, Threads.total, Worker.weight]

omit [DecidableEq Tid] in
/-- Threads that each hold a turn are no more than the turns there are. -/
theorem count_le_total {p : Loc → Bool} (h : ∀ l, (p l).toNat ≤ W.loc l) :
    Threads.count (Worker.at? p) s.worker ≤ W.total s := by
  rw [Worker.count_at?]
  refine (Threads.total_mono fun x => ?_).trans (Nat.le_add_left _ _)
  cases x with
  | busy l cause => exact h l
  | idle | exited => exact le_rfl

/-- Where there is one turn, one thread holds it. -/
theorem eq_of_pos (hone : W.total s ≤ 1) {t u : Tid} {l l' : Loc} {cause cause' : Option ℕ}
    (ht : s.worker t = .busy l cause) (hl : 0 < W.loc l) (hu : s.worker u = .busy l' cause')
    (hl' : 0 < W.loc l') : t = u := by
  by_contra hne
  have hpair := Threads.add_le_total (Worker.weight W.loc) s.worker hne
  rw [ht, hu, Worker.weight_busy, Worker.weight_busy] at hpair
  unfold total at hone
  omega

/-- Where there is one turn and a thread holds it, what is only found with
a turn is found with that thread. -/
theorem total_eq_of_pos (hone : W.total s ≤ 1) {t : Tid} {l : Loc} {cause : Option ℕ}
    (ht : s.worker t = .busy l cause) (hl : 0 < W.loc l) {f : Loc → ℕ}
    (hf : ∀ l, f l ≤ W.loc l) : Threads.total (Worker.weight f) s.worker = f l := by
  have hmove := Threads.total_update (Worker.weight f) s.worker t .idle
  have hturns := Threads.total_update (Worker.weight W.loc) s.worker t .idle
  have hle : Threads.total (Worker.weight f) (Function.update s.worker t .idle) ≤
      Threads.total (Worker.weight W.loc) (Function.update s.worker t .idle) :=
    Threads.total_mono fun x => by
      cases x with
      | busy l cause => exact hf l
      | idle | exited => exact le_rfl
  rw [ht, Worker.weight_busy, Worker.weight_idle] at hmove hturns
  unfold total at hone
  omega

end Weight

/-- What a step of a handler does to what the threads weigh. -/
theorem total_worker_exec [Fintype Tid] [DecidableEq Tid]
    {s : State words Tid Task Loc MainLoc Shared Record} {t : Tid} {l : Loc} {cause : Option ℕ}
    (f : Loc → ℕ) (o : Outcome Loc Shared Record) (ht : s.worker t = .busy l cause) :
    Threads.total (Worker.weight f) (s.exec t cause o).worker + f l =
      Threads.total (Worker.weight f) s.worker + o.next.elim 0 f := by
  have hworker := Threads.total_update (Worker.weight f) s.worker t (o.worker cause)
  rwa [ht, Outcome.weight_worker, Worker.weight_busy] at hworker

/-! ## Accounts -/

variable [Fintype Tid] [DecidableEq Tid]

/-- **An account balanced by the threads in between.** `credit` and
`debit` are kept by different steps, and what one is ahead of the other is
what the threads standing between those steps weigh. -/
structure Account (P : Program words Task Loc MainLoc Shared Record) where
  credit : World words Shared Record → ℕ
  debit : World words Shared Record → ℕ
  loc : Loc → ℕ
  entry_eq : ∀ τ, loc (P.entry τ) = 0
  wake_eq : ∀ {l l'}, P.wake l = some l' → loc l' = loc l
  complete_eq : ∀ w c, credit (w.complete c) = credit w ∧ debit (w.complete c) = debit w
  exec_eq : ∀ {w l o} cause, P.exec l w.shared w.stopped w.buffer = some o →
    credit (w.after o cause) + debit w + loc l
      = credit w + debit (w.after o cause) + o.next.elim 0 loc
  main_eq : ∀ {w m joined o}, P.main m w.shared w.stopped joined = some o →
    credit (w.afterMain o) = credit w ∧ debit (w.afterMain o) = debit w

/-- **It balances in every reachable state**, if it does in a new one. -/
theorem Account.balance (K : Account P) {b : Buffer words}
    {s : State words Tid Task Loc MainLoc Shared Record} (hs : (machine Tid P b).Reachable s)
    (h0 : K.credit ⟨P.sharedInit, false, b, [], []⟩ = K.debit ⟨P.sharedInit, false, b, [], []⟩) :
    K.credit s.world = K.debit s.world + Threads.total (Worker.weight K.loc) s.worker := by
  -- a thread that moves between places of one weight leaves the balance as it is
  have hmove : ∀ {s : State words Tid Task Loc MainLoc Shared Record} {t : Tid} {x : Worker Loc},
      K.credit s.world = K.debit s.world + Threads.total (Worker.weight K.loc) s.worker →
      x.weight K.loc = (s.worker t).weight K.loc →
      K.credit s.world = K.debit s.world +
        Threads.total (Worker.weight K.loc) (Function.update s.worker t x) := by
    intro s t x ih hx
    rw [Threads.total_update_eq hx]
    exact ih
  refine Invariant.of_reachable
    (I := fun s => K.credit s.world = K.debit s.world +
      Threads.total (Worker.weight K.loc) s.worker) ⟨?_, ?_, ?_, ?_, ?_, ?_⟩ ?_ hs
  · intro s c ih _
    show K.credit (s.world.complete c) = K.debit (s.world.complete c) + _
    rw [(K.complete_eq _ c).1, (K.complete_eq _ c).2]
    exact ih
  · intro s t k j ih ht _
    refine hmove ih ?_
    rw [ht, Worker.weight_idle, Worker.weight_busy, K.entry_eq]
  · intro s t l cause o ih ht ho
    have hworker := Threads.total_update (Worker.weight K.loc) s.worker t (o.worker cause)
    rw [ht, Worker.weight_busy, Outcome.weight_worker] at hworker
    have hexec := K.exec_eq cause ho
    unfold State.exec
    simp only
    omega
  · intro s t l l' cause ih ht hl
    refine hmove ih ?_
    rw [ht, Worker.weight_busy, Worker.weight_busy, K.wake_eq hl]
  · intro s t ih ht _
    refine hmove ih ?_
    rw [ht, Worker.weight_idle, Worker.weight_exited]
  · intro s joined o ih ho
    show K.credit (s.world.afterMain o) = K.debit (s.world.afterMain o) + _
    rw [(K.main_eq ho).1, (K.main_eq ho).2]
    exact ih
  · simp [State.new, Threads.total, h0]

end Pool

end TestBuffer
