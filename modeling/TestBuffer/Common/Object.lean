import TestBuffer.Common.Machine
/-!
# Objects, the programs on them, and refinement

An object is a machine whose actions are either events, which it has in
common with its surroundings (a call, a return), or steps of its own.
What the surroundings see of a run is its history, the events in order. A
program on an object (`on`) takes the object's events together with it
and may have events of its own; what was an event between the two is
inside the whole.

A simulation relates a step of one object to a run of another with the
same events, so the histories of the first are histories of the second
(`Simulation.isHistory`), and an object may be replaced by one that
simulates it inside any program (`Simulation.on`). This is how an
algorithm, proved once against what it implements, is used.
-/

namespace TestBuffer

/-- **What an object does**: an event it shares with its surroundings, or
a step of its own. -/
inductive Act (ε α : Type*)
  | event (e : ε)
  | inner (a : α)

namespace Act

variable {ε α : Type*}

/-- The event, if it is one. -/
def event? : Act ε α → Option ε
  | .event e => some e
  | .inner _ => none

@[simp] theorem event?_event (e : ε) : (.event e : Act ε α).event? = some e := rfl

@[simp] theorem event?_inner (a : α) : (.inner a : Act ε α).event? = none := rfl

/-- **The history of a run**: its events, in order. -/
def history (as : List (Act ε α)) : List ε := as.filterMap event?

@[simp] theorem history_nil : history ([] : List (Act ε α)) = [] := rfl

@[simp] theorem history_cons_event (e : ε) (as : List (Act ε α)) :
    history (.event e :: as) = e :: history as := rfl

@[simp] theorem history_cons_inner (a : α) (as : List (Act ε α)) :
    history (.inner a :: as) = history as := rfl

@[simp] theorem history_append (as bs : List (Act ε α)) :
    history (as ++ bs) = history as ++ history bs :=
  List.filterMap_append

/-- A run without events is made of the object's own steps. -/
theorem eq_map_inner_of_history_eq_nil {as : List (Act ε α)} (h : history as = []) :
    ∃ xs : List α, as = xs.map .inner := by
  induction as with
  | nil => exact ⟨[], rfl⟩
  | cons a as ih =>
    cases a with
    | event e => cases h
    | inner a =>
      obtain ⟨xs, rfl⟩ := ih h
      exact ⟨a :: xs, rfl⟩

/-- A run with one event is steps of the object's own around it. -/
theorem eq_of_history_eq_singleton {as : List (Act ε α)} {e : ε} (h : history as = [e]) :
    ∃ xs ys : List α, as = xs.map .inner ++ .event e :: ys.map .inner := by
  induction as with
  | nil => cases h
  | cons a as ih =>
    cases a with
    | event e' =>
      rw [history_cons_event, List.cons.injEq] at h
      obtain ⟨rfl, h⟩ := h
      obtain ⟨ys, rfl⟩ := eq_map_inner_of_history_eq_nil h
      exact ⟨[], ys, rfl⟩
    | inner a =>
      obtain ⟨xs, ys, rfl⟩ := ih h
      exact ⟨a :: xs, ys, rfl⟩

end Act

open Act

/-- **An object**: a machine with events. -/
abbrev Object (σ ε α : Type*) := Machine σ (Act ε α)

namespace Object

variable {σ τ υ κ κ' ε φ α β δ γ γ' : Type*}

/-- What the surroundings may see of an object. -/
def IsHistory (C : Object σ ε α) (h : List ε) : Prop :=
  ∃ s as s', C.Init s ∧ C.run s as = some s' ∧ history as = h

/-! ## Simulation -/

/-- **A simulation**: what one object does from a state, the other does
from a related one by a run with the same events. -/
structure Simulation (C : Object σ ε α) (D : Object τ ε β) (R : σ → τ → Prop) : Prop where
  init : ∀ s, C.Init s → ∃ t, D.Init t ∧ R s t
  step : ∀ s t a s', R s t → C.step s a = some s' →
    ∃ bs t', D.run t bs = some t' ∧ history bs = a.event?.toList ∧ R s' t'

namespace Simulation

variable {C : Object σ ε α} {D : Object τ ε β} {E : Object υ ε δ}
variable {R : σ → τ → Prop} {S : τ → υ → Prop} {s s' : σ} {t : τ}

/-- A run is simulated by a run with its history. -/
theorem run (h : Simulation C D R) {as : List (Act ε α)} (hR : R s t)
    (hs : C.run s as = some s') :
    ∃ bs t', D.run t bs = some t' ∧ history bs = history as ∧ R s' t' := by
  induction as generalizing s t with
  | nil =>
    rw [Machine.run_nil, Option.some.injEq] at hs
    exact ⟨[], t, rfl, rfl, hs ▸ hR⟩
  | cons a as ih =>
    rw [Machine.run_cons, Option.bind_eq_some_iff] at hs
    obtain ⟨m, hm, hs⟩ := hs
    obtain ⟨bs, u, hu, hb, hRu⟩ := h.step s t a m hR hm
    obtain ⟨cs, t', ht, hc, hRt⟩ := ih hRu hs
    refine ⟨bs ++ cs, t', ?_, ?_, hRt⟩
    · rw [Machine.run_append, hu, Option.bind_some, ht]
    · rw [history_append, hb, hc]
      cases a <;> rfl

/-- **Refinement**: every history of the first is one of the second. -/
theorem isHistory (h : Simulation C D R) {es : List ε} (hC : C.IsHistory es) :
    D.IsHistory es := by
  obtain ⟨s, as, s', h0, hrun, rfl⟩ := hC
  obtain ⟨t, ht, hR⟩ := h.init s h0
  obtain ⟨bs, t', hbs, hb, -⟩ := h.run hR hrun
  exact ⟨t, bs, t', ht, hbs, hb⟩

/-- What is reached is related to something reached. -/
theorem reachable (h : Simulation C D R) (hs : C.Reachable s) :
    ∃ t, D.Reachable t ∧ R s t := by
  refine hs.invariant (I := fun s => ∃ t, D.Reachable t ∧ R s t) ?_ ?_
  · intro s h0
    obtain ⟨t, ht, hR⟩ := h.init s h0
    exact ⟨t, .init ht, hR⟩
  · rintro s a s' - ⟨t, ht, hR⟩ - hs
    obtain ⟨bs, t', hbs, -, hR'⟩ := h.step s t a s' hR hs
    exact ⟨t', Machine.reachable_of_run ht bs hbs, hR'⟩

/-- An object simulates itself. -/
theorem refl (C : Object σ ε α) : Simulation C C Eq where
  init s h := ⟨s, h, rfl⟩
  step := by
    rintro s s a s' rfl h
    refine ⟨[a], s', Machine.run_singleton.trans h, ?_, rfl⟩
    cases a <;> rfl

/-- What can do no more than another is simulated where the other is. -/
theorem restrict {C' : Object σ ε α} (h : Simulation C D R) (h0 : ∀ s, C'.Init s → C.Init s)
    (hs : ∀ s a s', C'.step s a = some s' → C.step s a = some s') : Simulation C' D R where
  init s hinit := h.init s (h0 s hinit)
  step s t a s' hR hstep := h.step s t a s' hR (hs s a s' hstep)

/-- Simulations compose. -/
theorem trans (h : Simulation C D R) (h' : Simulation D E S) :
    Simulation C E fun s u => ∃ t, R s t ∧ S t u where
  init s h0 := by
    obtain ⟨t, ht, hR⟩ := h.init s h0
    obtain ⟨u, hu, hS⟩ := h'.init t ht
    exact ⟨u, hu, t, hR, hS⟩
  step s u a s' := by
    rintro ⟨t, hR, hS⟩ hs
    obtain ⟨bs, t', hbs, hb, hR'⟩ := h.step s t a s' hR hs
    obtain ⟨cs, u', hcs, hc, hS'⟩ := h'.run hS hbs
    exact ⟨cs, u', hcs, hc.trans hb, t', hR', hS'⟩

end Simulation

/-! ## Observers -/

/-- **An observer**: it follows the events by a function, which says what
may come next, and does nothing of its own. -/
def observer (next : τ → ε → Option τ) (t₀ : τ) : Object τ ε Empty where
  Init t := t = t₀
  step t a :=
    match a with
    | .event e => next t e

theorem observer_run (next : τ → ε → Option τ) (t₀ t : τ) (as : List (Act ε Empty)) :
    (observer next t₀).run t as = (history as).foldlM next t := by
  induction as generalizing t with
  | nil => rfl
  | cons a as ih =>
    cases a with
    | event e =>
      rw [Machine.run_cons, history_cons_event, List.foldlM_cons]
      exact congrArg _ (funext ih)
    | inner a => exact a.elim

/-- Its histories are those it follows to the end. -/
theorem observer_isHistory_iff {next : τ → ε → Option τ} {t₀ : τ} {es : List ε} :
    (observer next t₀).IsHistory es ↔ (es.foldlM next t₀).isSome := by
  constructor
  · rintro ⟨t, as, t', rfl, hrun, rfl⟩
    rw [observer_run] at hrun
    exact Option.isSome_of_mem hrun
  · intro h
    obtain ⟨t', ht⟩ := Option.isSome_iff_exists.mp h
    have hes : history (es.map fun e => (.event e : Act ε Empty)) = es := by
      simp [history, List.filterMap_map, Function.comp_def]
    exact ⟨t₀, es.map .event, t', rfl, by rw [observer_run, hes, ht], hes⟩

/-! ## Programs -/

/-- What a program on an object does that is nobody else's concern. -/
inductive Inside (ε γ α : Type*)
  /-- A step of the program's own. -/
  | program (c : γ)
  /-- A step of the object's own. -/
  | object (a : α)
  /-- An event between the two. -/
  | shared (e : ε)

/-- **A program on an object.** -/
def on (P : Object κ (ε ⊕ φ) γ) (C : Object σ ε α) : Object (κ × σ) φ (Inside ε γ α) where
  Init x := P.Init x.1 ∧ C.Init x.2
  step x a :=
    match a with
    | .event f => (P.step x.1 (.event (.inr f))).map fun k => (k, x.2)
    | .inner (.program c) => (P.step x.1 (.inner c)).map fun k => (k, x.2)
    | .inner (.object c) => (C.step x.2 (.inner c)).map fun s => (x.1, s)
    | .inner (.shared e) =>
      (P.step x.1 (.event (.inl e))).bind fun k => (C.step x.2 (.event e)).map fun s => (k, s)

section On

variable {P : Object κ (ε ⊕ φ) γ} {P' : Object κ' (ε ⊕ φ) γ'}
variable {C : Object σ ε α} {D : Object τ ε β} {k k' : κ} {s s' : σ}

/-- The program's own steps run in the whole. -/
theorem on_run_program {xs : List γ} (h : P.run k (xs.map .inner) = some k') :
    (P.on C).run (k, s) (xs.map fun c => .inner (.program c)) = some (k', s) := by
  induction xs generalizing k with
  | nil =>
    rw [List.map_nil, Machine.run_nil, Option.some.injEq] at h
    exact h ▸ rfl
  | cons c xs ih =>
    rw [List.map_cons, Machine.run_cons, Option.bind_eq_some_iff] at h
    obtain ⟨m, hm, h⟩ := h
    have hstep : (P.on C).step (k, s) (.inner (.program c)) = some (m, s) := by
      show (P.step k (.inner c)).map _ = _
      rw [hm, Option.map_some]
    rw [List.map_cons, Machine.run_cons, hstep, Option.bind_some]
    exact ih h

/-- The object's own steps run in the whole. -/
theorem on_run_object {xs : List α} (h : C.run s (xs.map .inner) = some s') :
    (P.on C).run (k, s) (xs.map fun c => .inner (.object c)) = some (k, s') := by
  induction xs generalizing s with
  | nil =>
    rw [List.map_nil, Machine.run_nil, Option.some.injEq] at h
    exact h ▸ rfl
  | cons c xs ih =>
    rw [List.map_cons, Machine.run_cons, Option.bind_eq_some_iff] at h
    obtain ⟨m, hm, h⟩ := h
    have hstep : (P.on C).step (k, s) (.inner (.object c)) = some (k, m) := by
      show (C.step s (.inner c)).map _ = _
      rw [hm, Option.map_some]
    rw [List.map_cons, Machine.run_cons, hstep, Option.bind_some]
    exact ih h

theorem history_map_inner {ε α β : Type*} (f : α → β) (xs : List α) :
    history (xs.map fun x => (.inner (f x) : Act ε β)) = [] := by
  induction xs with
  | nil => rfl
  | cons x xs ih => exact ih

/-- A run of the program with no events runs in the whole. -/
theorem on_run_of_history_eq_nil {as : List (Act (ε ⊕ φ) γ)} (h : P.run k as = some k')
    (hh : history as = []) :
    ∃ bs, (P.on C).run (k, s) bs = some (k', s) ∧ history bs = [] := by
  obtain ⟨xs, rfl⟩ := eq_map_inner_of_history_eq_nil hh
  exact ⟨_, on_run_program h, history_map_inner _ xs⟩

/-- A run of the program whose one event is its own runs in the whole. -/
theorem on_run_of_history_eq_inr {as : List (Act (ε ⊕ φ) γ)} {f : φ}
    (h : P.run k as = some k') (hh : history as = [.inr f]) :
    ∃ bs, (P.on C).run (k, s) bs = some (k', s) ∧ history bs = [f] := by
  obtain ⟨xs, ys, rfl⟩ := eq_of_history_eq_singleton hh
  rw [Machine.run_append, Option.bind_eq_some_iff] at h
  obtain ⟨m, hm, h⟩ := h
  rw [Machine.run_cons, Option.bind_eq_some_iff] at h
  obtain ⟨m', hm', h⟩ := h
  have hstep : (P.on C).step (m, s) (.event f) = some (m', s) := by
    show (P.step m (.event (.inr f))).map _ = _
    rw [hm', Option.map_some]
  refine ⟨(xs.map fun c => .inner (.program c)) ++
    .event f :: (ys.map fun c => .inner (.program c)), ?_, ?_⟩
  · rw [Machine.run_append, on_run_program hm, Option.bind_some, Machine.run_cons, hstep,
      Option.bind_some]
    exact on_run_program h
  · rw [history_append, history_cons_event, history_map_inner, history_map_inner]
    rfl

/-- Runs of the two whose one event is shared run together in the whole. -/
theorem on_run_of_history_eq_inl {as : List (Act (ε ⊕ φ) γ)} {bs : List (Act ε α)} {e : ε}
    (h : P.run k as = some k') (hh : history as = [.inl e])
    (h' : C.run s bs = some s') (hh' : history bs = [e]) :
    ∃ cs, (P.on C).run (k, s) cs = some (k', s') ∧ history cs = [] := by
  obtain ⟨xs, ys, rfl⟩ := eq_of_history_eq_singleton hh
  obtain ⟨zs, ws, rfl⟩ := eq_of_history_eq_singleton hh'
  rw [Machine.run_append, Option.bind_eq_some_iff] at h h'
  obtain ⟨m, hm, h⟩ := h
  obtain ⟨n, hn, h'⟩ := h'
  rw [Machine.run_cons, Option.bind_eq_some_iff] at h h'
  obtain ⟨m', hm', h⟩ := h
  obtain ⟨n', hn', h'⟩ := h'
  have hstep : (P.on C).step (m, n) (.inner (.shared e)) = some (m', n') := by
    show (P.step m (.event (.inl e))).bind _ = _
    rw [hm', Option.bind_some, hn', Option.map_some]
  refine ⟨(xs.map fun c => .inner (.program c)) ++ ((zs.map fun c => .inner (.object c)) ++
    .inner (.shared e) :: ((ys.map fun c => .inner (.program c)) ++
      (ws.map fun c => .inner (.object c)))), ?_, ?_⟩
  · rw [Machine.run_append, on_run_program hm, Option.bind_some, Machine.run_append,
      on_run_object hn, Option.bind_some, Machine.run_cons, hstep, Option.bind_some,
      Machine.run_append, on_run_program h, Option.bind_some]
    exact on_run_object h'
  · simp only [history_append, history_cons_inner, history_map_inner, List.append_nil]

/-- **A program may be run on what its object refines.** Where the program
and the object are each simulated, the whole is. -/
theorem Simulation.on {Q : κ → κ' → Prop} {R : σ → τ → Prop}
    (hP : Simulation P P' Q) (hC : Simulation C D R) :
    Simulation (P.on C) (P'.on D) fun x y => Q x.1 y.1 ∧ R x.2 y.2 where
  init := by
    rintro ⟨k, s⟩ ⟨hk, hs⟩
    obtain ⟨k', hk', hQ⟩ := hP.init k hk
    obtain ⟨t, ht, hR⟩ := hC.init s hs
    exact ⟨(k', t), ⟨hk', ht⟩, hQ, hR⟩
  step := by
    rintro ⟨k, s⟩ ⟨l, t⟩ a ⟨k', s'⟩ ⟨hQ, hR⟩ h
    rcases a with f | c | c | e
    · obtain ⟨m, hm, he⟩ := Option.map_eq_some_iff.mp h
      cases he
      obtain ⟨bs, l', hbs, hb, hQ'⟩ := hP.step _ _ _ _ hQ hm
      obtain ⟨cs, hcs, hc⟩ := on_run_of_history_eq_inr hbs hb
      exact ⟨cs, (l', t), hcs, hc, hQ', hR⟩
    · obtain ⟨m, hm, he⟩ := Option.map_eq_some_iff.mp h
      cases he
      obtain ⟨bs, l', hbs, hb, hQ'⟩ := hP.step _ _ _ _ hQ hm
      obtain ⟨cs, hcs, hc⟩ := on_run_of_history_eq_nil hbs hb
      exact ⟨cs, (l', t), hcs, hc, hQ', hR⟩
    · obtain ⟨m, hm, he⟩ := Option.map_eq_some_iff.mp h
      cases he
      obtain ⟨bs, t', hbs, hb, hR'⟩ := hC.step _ _ _ _ hR hm
      obtain ⟨xs, rfl⟩ := eq_map_inner_of_history_eq_nil hb
      exact ⟨_, (l, t'), on_run_object hbs, history_map_inner _ xs, hQ, hR'⟩
    · obtain ⟨m, hm, h⟩ := Option.bind_eq_some_iff.mp h
      obtain ⟨n, hn, he⟩ := Option.map_eq_some_iff.mp h
      cases he
      obtain ⟨bs, l', hbs, hb, hQ'⟩ := hP.step _ _ _ _ hQ hm
      obtain ⟨cs, t', hcs, hc, hR'⟩ := hC.step _ _ _ _ hR hn
      obtain ⟨ds, hds, hd⟩ := on_run_of_history_eq_inl hbs hb hcs hc
      exact ⟨ds, (l', t'), hds, hd, hQ', hR'⟩

end On

end Object

end TestBuffer
