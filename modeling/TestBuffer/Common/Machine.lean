import Mathlib.Data.List.Basic
import Mathlib.Data.Option.Basic
/-!
# Machines, runs, and what a run preserves

A machine is a set of initial states and a step that is a function of the
action taken, so that all nondeterminism (which thread runs, whom a
notification wakes, what the network delivers) sits in the action and a
run can be evaluated. `ReachBy ok` is reachability by steps that all meet
a condition on the state before the step and the action; `Reachable` asks
nothing. Every safety result of the development is read off one of the two
rules here: an invariant is preserved (`ReachBy.invariant`), or what a
list of actions evaluates to is reached (`reachable_of_run`). That a state
can be run to is a measure that some step decreases
(`exists_run_of_decreasing`).
-/

namespace TestBuffer

variable {σ α : Type*}

/-- **A machine**: where it may start, and what an action does, `none`
where the action is not enabled. -/
structure Machine (σ α : Type*) where
  /-- The states a run may start from. -/
  Init : σ → Prop
  /-- What an action does to a state. -/
  step : σ → α → Option σ

namespace Machine

variable (M : Machine σ α)

/-- **Reached by steps that meet `ok`**, a condition on the state before
the step and the action. -/
inductive ReachBy (ok : σ → α → Prop) : σ → Prop
  /-- A run may stop where it starts. -/
  | init {s : σ} : M.Init s → ReachBy ok s
  /-- One more step, meeting the condition. -/
  | step {s s' : σ} {a : α} :
      ReachBy ok s → ok s a → M.step s a = some s' → ReachBy ok s'

/-- **Reached by some run**, whatever its steps. -/
abbrev Reachable : σ → Prop := M.ReachBy fun _ _ => True

variable {M} {ok ok' : σ → α → Prop} {s s' : σ} {a : α}

theorem Reachable.step (h : M.Reachable s) (hs : M.step s a = some s') : M.Reachable s' :=
  ReachBy.step h trivial hs

/-- A weaker condition on the steps reaches more. -/
theorem ReachBy.mono (hok : ∀ s a, ok s a → ok' s a) (h : M.ReachBy ok s) :
    M.ReachBy ok' s := by
  induction h with
  | init h0 => exact .init h0
  | step _ ha hs ih => exact .step ih (hok _ _ ha) hs

/-- What conditioned steps reach is reachable. -/
theorem ReachBy.reachable (h : M.ReachBy ok s) : M.Reachable s :=
  h.mono fun _ _ _ => trivial

/-- **The invariant rule.** A property of the initial states that every
step meeting the condition preserves holds wherever such steps lead. -/
theorem ReachBy.invariant {I : σ → Prop} (h0 : ∀ s, M.Init s → I s)
    (hstep : ∀ s a s', M.ReachBy ok s → I s → ok s a → M.step s a = some s' → I s')
    (h : M.ReachBy ok s) : I s := by
  induction h with
  | init hi => exact h0 _ hi
  | step hr ha hs ih => exact hstep _ _ _ hr ih ha hs

/-! ## Runs as lists of actions -/

variable (M) in
/-- The state a list of actions leads to, `none` where one of them is not
enabled. -/
def run (s : σ) : List α → Option σ
  | [] => some s
  | a :: as => (M.step s a).bind fun s' => run s' as

@[simp] theorem run_nil : M.run s [] = some s := rfl

theorem run_cons {as : List α} : M.run s (a :: as) = (M.step s a).bind fun s' => M.run s' as :=
  rfl

theorem run_singleton : M.run s [a] = M.step s a := by
  rw [run_cons]
  cases M.step s a <;> rfl

/-- Runs compose. -/
theorem run_append (as bs : List α) :
    M.run s (as ++ bs) = (M.run s as).bind fun s' => M.run s' bs := by
  induction as generalizing s with
  | nil => rfl
  | cons a as ih =>
    rw [List.cons_append, run_cons, run_cons]
    cases M.step s a with
    | none => rfl
    | some s' => exact ih

/-- **A run stays among the reachable states.** -/
theorem reachable_of_run (h : M.Reachable s) (as : List α) (hrun : M.run s as = some s') :
    M.Reachable s' := by
  induction as generalizing s with
  | nil =>
    rw [run_nil, Option.some.injEq] at hrun
    exact hrun ▸ h
  | cons a as ih =>
    rw [run_cons, Option.bind_eq_some_iff] at hrun
    obtain ⟨m, hm, hrest⟩ := hrun
    exact ih (h.step hm) hrest

/-- **The invariant rule for a run.** What every step preserves a run does. -/
theorem run_invariant {I : σ → Prop} {as : List α}
    (hstep : ∀ s a s', I s → M.step s a = some s' → I s') (hs : I s)
    (hrun : M.run s as = some s') : I s' := by
  induction as generalizing s with
  | nil =>
    rw [run_nil, Option.some.injEq] at hrun
    exact hrun ▸ hs
  | cons a as ih =>
    rw [run_cons, Option.bind_eq_some_iff] at hrun
    obtain ⟨m, hm, hrest⟩ := hrun
    exact ih (hstep s a m hs hm) hrest

/-- **Running to a goal.** If wherever `I` holds and the goal does not some
step decreases a measure and keeps `I`, a run leads to the goal. -/
theorem exists_run_of_decreasing {I G : σ → Prop} (μ : σ → ℕ)
    (h : ∀ s, I s → ¬ G s → ∃ a s', M.step s a = some s' ∧ I s' ∧ μ s' < μ s) (hs : I s) :
    ∃ as s', M.run s as = some s' ∧ I s' ∧ G s' := by
  induction hn : μ s using Nat.strongRecOn generalizing s with
  | _ n ih =>
    by_cases hG : G s
    · exact ⟨[], s, rfl, hs, hG⟩
    · obtain ⟨a, m, hm, hI, hlt⟩ := h s hs hG
      obtain ⟨as, s', hrun, hs'⟩ := ih (μ m) (hn ▸ hlt) hI rfl
      exact ⟨a :: as, s', by rw [run_cons, hm, Option.bind_some, hrun], hs'⟩

/-- **Taking every value on the way.** A run along which a number changes by
at most one at a time takes it through all values in between. -/
theorem exists_run_eq_of_between {I : σ → Prop} {f : σ → ℕ} {as : List α} {n : ℕ}
    (hstep : ∀ s a s', I s → M.step s a = some s' → I s' ∧ f s' ≤ f s + 1 ∧ f s ≤ f s' + 1)
    (hs : I s) (hrun : M.run s as = some s')
    (hn : f s ≤ n ∧ n ≤ f s' ∨ f s' ≤ n ∧ n ≤ f s) :
    ∃ bs cs u, as = bs ++ cs ∧ M.run s bs = some u ∧ I u ∧ f u = n := by
  induction as generalizing s with
  | nil =>
    rw [run_nil, Option.some.injEq] at hrun
    subst hrun
    exact ⟨[], [], s, rfl, rfl, hs, by omega⟩
  | cons a as ih =>
    by_cases he : f s = n
    · exact ⟨[], a :: as, s, rfl, rfl, hs, he⟩
    · rw [run_cons, Option.bind_eq_some_iff] at hrun
      obtain ⟨m, hm, hrun⟩ := hrun
      obtain ⟨hI, hup, hdown⟩ := hstep s a m hs hm
      obtain ⟨bs, cs, u, rfl, hbs, hu, hf⟩ := ih hI hrun (by omega)
      exact ⟨a :: bs, cs, u, rfl, by rw [run_cons, hm, Option.bind_some, hbs], hu, hf⟩

/-! ## Conditions on the actions -/

variable (M) in
/-- **A machine held to a condition**: an action that does not meet it is
not enabled. -/
def guard (ok : σ → α → Bool) : Machine σ α where
  Init := M.Init
  step s a := if ok s a = true then M.step s a else none

variable {g : σ → α → Bool}

theorem guard_step_eq_some :
    (M.guard g).step s a = some s' ↔ g s a = true ∧ M.step s a = some s' :=
  Option.ite_none_right_eq_some

/-- What it reaches is reached without the condition. -/
theorem ReachBy.of_guard (h : (M.guard g).ReachBy ok s) : M.ReachBy ok s := by
  induction h with
  | init h0 => exact .init h0
  | step _ ha hs ih => exact .step ih ha (guard_step_eq_some.mp hs).2

end Machine

end TestBuffer
