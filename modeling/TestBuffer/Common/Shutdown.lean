import TestBuffer.Common.Pool
/-!
# Shutting a pool down

Whether a service has been stopped and which task is next are read under
one lock, so a stopped service starts no further handler. `service` is
the pool held to that. Its threads then only finish what they are at: a
handler whose every step brings it closer to its end returns, and the
thread leaves after it (`Drains.exists_run`). What remains is the threads
at locations of which that cannot be said.
-/

namespace TestBuffer

namespace Pool

variable {words : ℕ} {Tid Task Loc MainLoc Shared Record : Type*}

/-- A stopped service starts no handler. -/
def State.prompt (s : State words Tid Task Loc MainLoc Shared Record) : Act Tid → Bool
  | .start _ _ => !s.world.stopped
  | _ => true

variable [Fintype Tid] [DecidableEq Tid]

/-- **A program on a service that heeds its stop.** -/
def service (Tid : Type*) [Fintype Tid] [DecidableEq Tid]
    (P : Program words Task Loc MainLoc Shared Record) (b : Buffer words) :
    Machine (State words Tid Task Loc MainLoc Shared Record) (Act Tid) :=
  (machine Tid P b).guard State.prompt

variable {P : Program words Task Loc MainLoc Shared Record} {b : Buffer words}
variable {s s' : State words Tid Task Loc MainLoc Shared Record} {a : Act Tid}

/-- Only a pick can be refused. -/
theorem service_step (hprompt : s.prompt a = true) :
    (service Tid P b).step s a = (machine Tid P b).step s a :=
  if_pos hprompt

/-- A thread that can go on takes a step, and wakes one that is blocked
where it notifies and one is. -/
theorem exists_exec {t : Tid} {l : Loc} {cause : Option ℕ} {o : Outcome Loc Shared Record}
    (ht : s.worker t = .busy l cause)
    (ho : P.exec l s.world.shared s.world.stopped s.world.buffer = some o) :
    ∃ w s', (service Tid P b).step s (.exec t w) = some s' ∧
      (s' = s.exec t cause o ∨ ∃ u l₁ l₂ cause', (s.exec t cause o).worker u = .busy l₁ cause' ∧
        P.wake l₁ = some l₂ ∧ s' = { s.exec t cause o with
          worker := Function.update (s.exec t cause o).worker u (.busy l₂ cause') }) := by
  by_cases hnotify : o.notify = true
  · obtain ⟨w, worker, hw⟩ := Threads.exists_notifyOne (Worker.wake P.wake) (s.exec t cause o).worker
    have hstep : (service Tid P b).step s (.exec t w) =
        some { s.exec t cause o with worker := worker } := by
      rw [service_step rfl]
      show step P s (.exec t w) = _
      simp only [step, ht, ho, Option.bind_some, hnotify, if_true, hw, Option.map_some]
    refine ⟨w, _, hstep, ?_⟩
    obtain ⟨u, x, hx, rfl⟩ | ⟨_, rfl⟩ := Threads.notifyOne_cases hw
    · obtain ⟨l₁, l₂, cause', hu, hl, rfl⟩ := Worker.wake_eq_some hx
      exact Or.inr ⟨u, l₁, l₂, cause', hu, hl, rfl⟩
    · exact Or.inl rfl
  · refine ⟨none, _, ?_, Or.inl rfl⟩
    rw [service_step rfl]
    exact step_exec none ht ho (Bool.not_eq_true _ ▸ hnotify)

/-! ## Draining -/

/-- **Handlers that finish**: at a location that `ends` a thread can
always go on, to none or to one closer to the end. -/
structure Drains (P : Program words Task Loc MainLoc Shared Record) where
  ends : Loc → Bool
  /-- The steps still to be taken. -/
  rest : Loc → ℕ
  exec : ∀ {l} sh b, ends l = true → ∃ o, P.exec l sh true b = some o ∧
    ∀ l', o.next = some l' → ends l' = true ∧ rest l' < rest l
  /-- Only at other locations is anyone blocked. -/
  wake : ∀ {l l'}, P.wake l = some l' → ends l = false ∧ ends l' = false

namespace Drains

variable (D : Drains P)

/-- The steps a thread still has to take before it has returned. -/
def remaining : Worker Loc → ℕ
  | .idle => 1
  | .busy l _ => if D.ends l = true then D.rest l + 2 else 0
  | .exited => 0

/-- A thread has returned, or is at a location that does not end. -/
def Settled : Worker Loc → Prop
  | .idle => False
  | .busy l _ => D.ends l = false
  | .exited => True

/-- **What draining leaves alone**: the stop, main, and whether a thread is
at a location that does not end. -/
structure Kept (s s' : State words Tid Task Loc MainLoc Shared Record) : Prop where
  stopped : s'.world.stopped = true
  main : s'.main = s.main
  stays : ∀ {t l cause}, s.worker t = .busy l cause → D.ends l = false →
    ∃ l', s'.worker t = .busy l' cause ∧ D.ends l' = false

variable {D}

omit [Fintype Tid] [DecidableEq Tid] in
theorem Kept.refl (hst : s.world.stopped = true) : D.Kept s s :=
  ⟨hst, rfl, fun {_ l _} ht hl => ⟨l, ht, hl⟩⟩

omit [Fintype Tid] [DecidableEq Tid] in
theorem Kept.trans {m : State words Tid Task Loc MainLoc Shared Record} (h : D.Kept s m)
    (h' : D.Kept m s') : D.Kept s s' := by
  refine ⟨h'.stopped, h'.main.trans h.main, fun ht hl => ?_⟩
  obtain ⟨l', ht', hl'⟩ := h.stays ht hl
  exact h'.stays ht' hl'

omit [Fintype Tid] in
/-- Where one thread moves, and stays at such a location if it was at
one. -/
theorem Kept.update {t : Tid} {x : Worker Loc} (hst : s'.world.stopped = true)
    (hmain : s'.main = s.main) (hworker : s'.worker = Function.update s.worker t x)
    (hx : ∀ l cause, s.worker t = .busy l cause → D.ends l = false →
      ∃ l', x = .busy l' cause ∧ D.ends l' = false) : D.Kept s s' := by
  refine ⟨hst, hmain, fun {u l cause} hu hl => ?_⟩
  rw [hworker]
  rcases eq_or_ne u t with rfl | hne
  · rw [Function.update_self]
    exact hx l cause hu hl
  · exact ⟨l, by rw [Function.update_of_ne hne, hu], hl⟩

variable (D)

/-- A free thread returns. -/
theorem exists_leave (hst : s.world.stopped = true) {t : Tid} (ht : s.worker t = .idle) :
    ∃ s', (service Tid P b).step s (.leave t) = some s' ∧ D.Kept s s' ∧
      Threads.total D.remaining s'.worker < Threads.total D.remaining s.worker := by
  refine ⟨{ s with worker := Function.update s.worker t .exited }, ?_,
    .update hst rfl rfl fun l cause hl => ?_, Threads.total_update_lt ?_⟩
  · rw [service_step rfl]
    show step P s (.leave t) = _
    simp only [step, ht, hst]
  · rw [ht] at hl
    cases hl
  · rw [ht]
    exact Nat.one_pos

/-- A handler that ends goes on. -/
theorem exists_exec_of_ends (hst : s.world.stopped = true) {t : Tid} {l : Loc} {cause : Option ℕ}
    (ht : s.worker t = .busy l cause) (hl : D.ends l = true) :
    ∃ w s', (service Tid P b).step s (.exec t w) = some s' ∧ D.Kept s s' ∧
      Threads.total D.remaining s'.worker < Threads.total D.remaining s.worker := by
  obtain ⟨o, ho, hnext⟩ := D.exec s.world.shared s.world.buffer hl
  have hkept : D.Kept s (s.exec t cause o) := by
    refine .update (Bool.or_eq_true_iff.mpr (Or.inl hst)) rfl rfl fun l₁ cause₁ hl₁ hends => ?_
    rw [ht, Worker.busy.injEq] at hl₁
    rw [← hl₁.1, hl] at hends
    cases hends
  have hless : D.remaining (o.worker cause) < D.remaining (s.worker t) := by
    rw [ht, Outcome.worker]
    cases hn : o.next with
    | none =>
      simp only [remaining, if_pos hl]
      omega
    | some l' =>
      obtain ⟨hl', hrest⟩ := hnext l' hn
      simp only [remaining, if_pos hl, if_pos hl']
      omega
  have hlt : Threads.total D.remaining (s.exec t cause o).worker <
      Threads.total D.remaining s.worker := Threads.total_update_lt hless
  rw [← hst] at ho
  obtain ⟨w, s', hstep, rfl | ⟨u, l₁, l₂, cause', hu, hwake, rfl⟩⟩ := exists_exec (b := b) ht ho
  · exact ⟨w, _, hstep, hkept, hlt⟩
  · -- the thread it wakes was at a location that does not end, and still is
    obtain ⟨hl₁, hl₂⟩ := D.wake hwake
    have heq : D.remaining (.busy l₂ cause') = D.remaining ((s.exec t cause o).worker u) := by
      rw [hu]
      simp only [remaining, hl₁, hl₂, Bool.false_eq_true, if_false]
    refine ⟨w, _, hstep, hkept.trans (.update hkept.stopped rfl rfl fun l cause hl _ => ?_),
      (Threads.total_update_eq heq).trans_lt hlt⟩
    rw [hu, Worker.busy.injEq] at hl
    exact ⟨l₂, by rw [hl.2], hl₂⟩

/-- **A thread that has not settled can take a step towards it.** -/
theorem exists_step (hst : s.world.stopped = true) {t : Tid} (ht : ¬ D.Settled (s.worker t)) :
    ∃ a s', (service Tid P b).step s a = some s' ∧ D.Kept s s' ∧
      Threads.total D.remaining s'.worker < Threads.total D.remaining s.worker := by
  cases hx : s.worker t with
  | idle => exact ⟨.leave t, D.exists_leave hst hx⟩
  | busy l cause =>
    have hl : D.ends l = true := by
      rw [hx] at ht
      exact Bool.not_eq_false _ ▸ ht
    obtain ⟨w, hstep⟩ := D.exists_exec_of_ends (b := b) hst hx hl
    exact ⟨.exec t w, hstep⟩
  | exited =>
    rw [hx] at ht
    exact absurd trivial ht

/-- **A stopped service drains**: some run leaves every thread returned or
at a location that does not end. -/
theorem exists_run (hst : s.world.stopped = true) :
    ∃ as s', (service Tid P b).run s as = some s' ∧ D.Kept s s' ∧ ∀ t, D.Settled (s'.worker t) := by
  refine Machine.exists_run_of_decreasing (I := D.Kept s)
    (fun s => Threads.total D.remaining s.worker) (fun m hm hG => ?_) (Kept.refl hst)
  obtain ⟨t, ht⟩ := not_forall.mp hG
  obtain ⟨a, m', hstep, hkept, hlt⟩ := D.exists_step (b := b) hm.stopped ht
  exact ⟨a, m', hstep, hm.trans hkept, hlt⟩

end Drains

end Pool

end TestBuffer
