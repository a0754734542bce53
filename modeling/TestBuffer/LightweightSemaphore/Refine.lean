import TestBuffer.LightweightSemaphore.Spec
/-!
# The semaphore is one

The count is the number of permits, but that a waiter who took it down
without finding one owes the difference until it is let through or puts it
back. While it owes and there are permits, one token is in the kernel
semaphore or about to be posted there, and otherwise none is
(`WaiterOk`). So the semaphore refines what it is for (`refines`), where
every signal is for at least one permit, there are never `2 ^ 63` permits,
and no deadline falls on a whole second: a signal for none would post a
token all the same, one too many would wrap the count, and a deadline on a
whole second is not cleaned up (`clean`).
-/

namespace TestBuffer

namespace LightweightSemaphore

/-! ## What the semaphore needs -/

/-- The waiter took the count down without finding a permit. -/
def Waiter.owes : Waiter → Bool
  | .block | .clock _ | .timedBlock _ | .restore | .tryBlock => true
  | .idle | .load _ | .take | .spin _ _ | .retry | .answer _ => false

/-- The permits it owes. -/
def Waiter.debt (w : Waiter) : ℕ := if w.owes = true then 1 else 0

theorem Waiter.debt_le (w : Waiter) : w.debt ≤ 1 := by
  unfold debt
  split <;> omega

/-- The permits there are. -/
def State.permits (s : State) : ℤ := s.m_count + s.waiter.debt

/-- **What the semaphore needs**: a signal for something, with which the
permits stay below `2 ^ 63`, and no deadline whose nanoseconds make a whole
second. -/
def clean (s : State) : Act Event Step → Bool
  | .event (.signal count) => 0 < count ∧ s.permits + count < 9223372036854775808
  | .inner (.clock nsec) =>
    match s.waiter with
    | .clock usecs => nsec + usecs % 1000000 * 1000 ≠ 1000000000
    | _ => true
  | _ => true

/-- The clean-up misses the whole second and nothing else. -/
theorem deadline_lt_iff {usecs nsec : ℕ} (h : nsec < 1000000000) :
    deadline usecs nsec < 1000000000 ↔ nsec + usecs % 1000000 * 1000 ≠ 1000000000 := by
  have := Nat.mod_lt usecs (show 1000000 > 0 by decide)
  unfold deadline normalize
  split <;> omega

/-! ## The relation -/

/-- The tokens the signaller is about to post. -/
def Signaller.posting : Signaller → ℕ
  | .post => 1
  | _ => 0

/-- Nothing is owed. -/
def Even (count : ℤ) (tokens value : ℕ) : Prop := count = value ∧ tokens = 0

/-- The waiter took the count down without finding a permit. -/
def Owing (count : ℤ) (tokens value : ℕ) : Prop :=
  count + 1 = value ∧ (value = 0 ∧ tokens = 0 ∨ 0 < value ∧ tokens = 1)

/-- The waiter has called, and may fail. -/
def Timed (q : Spec.Waiter) : Prop := ∃ op, q = .pending op ∧ op.mayFail = true

/-- **What holds where the waiter stands.** -/
def WaiterOk (count : ℤ) (tokens value : ℕ) (q : Spec.Waiter) : Waiter → Prop
  | .idle => q = .idle ∧ Even count tokens value
  | .load op => q = .pending op ∧ Even count tokens value
  | .take => (∃ op, q = .pending op) ∧ Even count tokens value ∧ 0 < value
  | .spin timeout_usecs _ => q = .pending (.wait timeout_usecs) ∧ Even count tokens value
  | .block => (∃ op, q = .pending op) ∧ Owing count tokens value
  | .clock _ => Timed q ∧ Owing count tokens value
  | .timedBlock tv_nsec => Timed q ∧ Owing count tokens value ∧ tv_nsec < 1000000000
  | .restore => Timed q ∧ Owing count tokens value
  | .retry => Timed q ∧ count = value ∧ 0 < value ∧ tokens = 1
  | .tryBlock => Timed q ∧ Owing count tokens value ∧ 0 < value
  | .answer ok => q = .answered ok ∧ Even count tokens value

/-- What holds where the signaller stands. -/
def SignallerOk (q : Spec.Signaller) : Signaller → Prop
  | .idle => q = .idle
  | .add count => q = .pending count ∧ 0 < count
  | .post | .answer => q = .answered

/-- **How the code stands to the specification.** -/
structure Rel (s : State) (t : Spec.State) : Prop where
  waiter : WaiterOk s.m_count (s.m_sema + s.signaller.posting) t.value t.waiter s.waiter
  signaller : SignallerOk t.signaller s.signaller
  /-- The count does not wrap. -/
  fits : t.value + t.signaller.coming < 9223372036854775808

variable {count : ℤ} {tokens value n : ℕ} {q : Spec.Waiter} {w : Waiter}

/-- A waiter the specification has outside stands outside. -/
theorem WaiterOk.eq_idle (h : WaiterOk count tokens value .idle w) : w = .idle := by
  cases w with
  | idle => rfl
  | load | spin | answer => cases h.1
  | take | block =>
    obtain ⟨⟨op, ⟨⟩⟩, -⟩ := h
  | clock | timedBlock | restore | retry | tryBlock =>
    obtain ⟨⟨op, ⟨⟩, -⟩, -⟩ := h

/-! ## The signaller -/

/-- **A signal** adds its permits wherever the waiter stands, posts a token
exactly if the waiter owes and had none coming, and finds the assertion
true. -/
theorem WaiterOk.add (h : WaiterOk count tokens value q w) (hn : 0 < n) :
    count ≥ -1 ∧
      WaiterOk (count + n) (tokens + if count < 0 then 1 else 0) (value + n) q w := by
  have heven : Even count tokens value → count ≥ -1 ∧
      Even (count + n) (tokens + if count < 0 then 1 else 0) (value + n) := by
    rintro ⟨rfl, rfl⟩
    refine ⟨by omega, by omega, ?_⟩
    rw [if_neg (by omega)]
  have howing : Owing count tokens value → count ≥ -1 ∧
      Owing (count + n) (tokens + if count < 0 then 1 else 0) (value + n) := by
    rintro ⟨hc, ⟨rfl, rfl⟩ | ⟨hv, rfl⟩⟩
    · refine ⟨by omega, by omega, Or.inr ⟨by omega, ?_⟩⟩
      rw [if_pos (by omega)]
    · refine ⟨by omega, by omega, Or.inr ⟨by omega, ?_⟩⟩
      rw [if_neg (by omega)]
  cases w with
  | idle | load | spin | answer => exact ⟨(heven h.2).1, h.1, (heven h.2).2⟩
  | take => exact ⟨(heven h.2.1).1, h.1, (heven h.2.1).2, by have := h.2.2; omega⟩
  | block | clock | restore => exact ⟨(howing h.2).1, h.1, (howing h.2).2⟩
  | timedBlock => exact ⟨(howing h.2.1).1, h.1, (howing h.2.1).2, h.2.2⟩
  | tryBlock => exact ⟨(howing h.2.1).1, h.1, (howing h.2.1).2, by have := h.2.2; omega⟩
  | retry =>
    obtain ⟨hq, rfl, hv, rfl⟩ := h
    refine ⟨by omega, hq, by omega, by omega, ?_⟩
    rw [if_neg (by omega)]

/-- The count is one below the permits at the least, and no more than they
are. -/
theorem WaiterOk.bounds (h : WaiterOk count tokens value q w) : -1 ≤ count ∧ count ≤ value := by
  have heven : Even count tokens value → -1 ≤ count ∧ count ≤ value := by
    rintro ⟨rfl, -⟩
    omega
  have howing : Owing count tokens value → -1 ≤ count ∧ count ≤ value := by
    rintro ⟨hc, -⟩
    omega
  cases w with
  | idle | load | spin | answer => exact heven h.2
  | take => exact heven h.2.1
  | block | clock | restore => exact howing h.2
  | timedBlock | tryBlock => exact howing h.2.1
  | retry =>
    obtain ⟨-, rfl, -⟩ := h
    omega

variable {s s' : State} {t t' : Spec.State} {initialCount : ℕ}

/-- The permits are those of the specification. -/
theorem Rel.permits_eq (h : Rel s t) : s.permits = t.value := by
  obtain ⟨m, k, w, l⟩ := s
  have hw := h.waiter
  cases w with
  | idle | load | spin | answer => exact (Int.add_zero m).trans hw.2.1
  | take => exact (Int.add_zero m).trans hw.2.1.1
  | block | clock | restore => exact hw.2.1
  | timedBlock | tryBlock => exact hw.2.1.1
  | retry => exact (Int.add_zero m).trans hw.2.1

/-- A state of the code that the specification gets to from `t` without an
event. -/
def Simulated (initialCount : ℕ) (t : Spec.State) (s' : State) : Prop :=
  ∃ bs t', (Spec.semaphore initialCount).run t bs = some t' ∧ Act.history bs = [] ∧ Rel s' t'

theorem Rel.stay (h : Rel s' t) : Simulated initialCount t s' := ⟨[], t, rfl, rfl, h⟩

theorem Rel.after (e : Spec.Effect) (t' : Spec.State)
    (hs : (Spec.semaphore initialCount).step t (.inner e) = some t') (h : Rel s' t') :
    Simulated initialCount t s' :=
  ⟨[.inner e], t', by rw [Machine.run_singleton, hs], rfl, h⟩

/-- The signaller's steps. -/
theorem Rel.signaller_step (h : Rel s t) (hs : signallerStep s = some s') :
    Simulated initialCount t s' := by
  obtain ⟨m, k, w, l⟩ := s
  obtain ⟨v, q, d⟩ := t
  obtain ⟨hw, hl, hfits⟩ := h
  cases l with
  | idle | answer => cases hs
  | post =>
    cases hs
    refine Rel.stay ⟨?_, hl, hfits⟩
    have hw : WaiterOk m (k + 1) v q w := hw
    exact hw
  | add n =>
    obtain ⟨rfl, hn⟩ := hl
    have hfits : v + n < 9223372036854775808 := hfits
    have hm : -1 ≤ m ∧ m ≤ v := hw.bounds
    have hwrap : wrap (m + n) = m + n := wrap_eq (by omega) (by omega)
    obtain ⟨hge, hw⟩ := WaiterOk.add hw hn
    obtain ⟨-, ⟨⟩⟩ := Option.ite_none_right_eq_some.mp hs
    refine Rel.after .add ⟨v + n, q, .answered⟩ rfl ⟨?_, ?_, hfits⟩
    · show WaiterOk (wrap (m + n)) (k + (if m < 0 then Signaller.post else .answer).posting) _ q w
      rw [hwrap]
      by_cases hm : m < 0
      · rw [if_pos hm] at hw ⊢
        exact hw
      · rw [if_neg hm] at hw ⊢
        exact hw
    · show SignallerOk _ (if m < 0 then .post else .answer)
      split <;> rfl

/-! ## The waiter -/

/-- The specification takes a permit. -/
theorem take_step {op : Op} {d : Spec.Signaller} (hv : 0 < value) :
    (Spec.semaphore initialCount).step ⟨value, .pending op, d⟩ (.inner .take) =
      some ⟨value - 1, .answered true, d⟩ := by
  obtain ⟨v, rfl⟩ := Nat.exists_eq_succ_of_ne_zero (Nat.ne_of_gt hv)
  rfl

/-- A waiter who owes takes the token. -/
theorem Rel.let_through {m : ℤ} {k : ℕ} {op : Op} {l : Signaller} {d : Spec.Signaller}
    (howing : Owing m (k + l.posting) value) (hk : k > 0) (hd : SignallerOk d l)
    (hfits : value + d.coming < 9223372036854775808) :
    Simulated initialCount ⟨value, .pending op, d⟩ ⟨m, k - 1, .answer true, l⟩ := by
  obtain ⟨hm, ⟨-, htok⟩ | ⟨hv, htok⟩⟩ := howing
  · omega
  · exact Rel.after .take _ (take_step hv) ⟨⟨rfl, by show m = ((value - 1 : ℕ) : ℤ); omega,
      show k - 1 + l.posting = 0 by omega⟩, hd,
      by show value - 1 + d.coming < _; omega⟩

theorem Rel.waiter_step (h : Rel s t) (hs : waiterStep s = some s') :
    Simulated initialCount t s' := by
  obtain ⟨m, k, w, l⟩ := s
  obtain ⟨v, q, d⟩ := t
  obtain ⟨hw, hl, hfits⟩ := h
  have hfits : v + d.coming < 9223372036854775808 := hfits
  have hfits' : v - 1 + d.coming < 9223372036854775808 := by omega
  have hm : -1 ≤ m ∧ m ≤ v := hw.bounds
  have hdown : wrap (m - 1) = m - 1 := wrap_eq (by omega) (by omega)
  cases w with
  | idle | clock | answer => cases hs
  | load op =>
    obtain ⟨rfl : q = _, heven⟩ := hw
    have hm : m = v := heven.1
    unfold waiterStep at hs
    dsimp only at hs
    split at hs
    · cases hs
      exact Rel.stay ⟨⟨⟨op, rfl⟩, heven, by show 0 < v; omega⟩, hl, hfits⟩
    · obtain rfl : v = 0 := by omega
      cases op with
      | tryWait =>
        cases hs
        exact Rel.after .fail ⟨0, .answered false, d⟩ rfl ⟨⟨rfl, heven⟩, hl, hfits⟩
      | wait timeout =>
        cases hs
        exact Rel.stay ⟨⟨rfl, heven⟩, hl, hfits⟩
  | take =>
    obtain ⟨⟨op, rfl : q = _⟩, ⟨hm : m = v, htok⟩, hv : 0 < v⟩ := hw
    cases hs
    show Simulated _ _ ⟨wrap (m - 1), k, .answer true, l⟩
    rw [hdown]
    exact Rel.after .take _ (take_step hv)
      ⟨⟨rfl, by show m - 1 = ((v - 1 : ℕ) : ℤ); omega, htok⟩, hl, hfits'⟩
  | spin timeout left =>
    obtain ⟨rfl : q = _, heven⟩ := hw
    have hm : m = v := heven.1
    cases left with
    | succ left =>
      unfold waiterStep at hs
      dsimp only at hs
      split at hs
      · cases hs
        exact Rel.stay ⟨⟨⟨_, rfl⟩, heven, by show 0 < v; omega⟩, hl, hfits⟩
      · cases hs
        exact Rel.stay ⟨⟨rfl, heven⟩, hl, hfits⟩
    | zero =>
      cases hs
      show Simulated _ _ ⟨wrap (m - 1), k, afterSpin m timeout, l⟩
      rw [hdown]
      by_cases hpos : m > 0
      · refine Rel.after .take _ (take_step (by omega)) ⟨?_, hl, hfits'⟩
        rw [afterSpin, if_pos hpos]
        exact ⟨rfl, by show m - 1 = ((v - 1 : ℕ) : ℤ); omega, heven.2⟩
      · have howing : Owing (m - 1) (k + l.posting) v :=
          ⟨by omega, Or.inl ⟨by omega, heven.2⟩⟩
        refine Rel.stay ⟨?_, hl, hfits⟩
        rw [afterSpin, if_neg hpos]
        split
        · exact ⟨⟨_, rfl⟩, howing⟩
        · exact ⟨⟨_, rfl, by simp only [Op.mayFail, decide_eq_true_eq]; omega⟩, howing⟩
  | block =>
    obtain ⟨⟨op, rfl : q = _⟩, howing⟩ := hw
    obtain ⟨hk, ⟨⟩⟩ := Option.ite_none_right_eq_some.mp hs
    exact Rel.let_through howing hk hl hfits
  | timedBlock tv_nsec =>
    obtain ⟨⟨op, rfl : q = _, -⟩, howing, -⟩ := hw
    obtain ⟨hk, ⟨⟩⟩ := Option.ite_none_right_eq_some.mp hs
    exact Rel.let_through howing hk hl hfits
  | restore =>
    obtain ⟨⟨op, rfl : q = _, hop⟩, hm, howing⟩ := hw
    have hm : m + 1 = v := hm
    have hup : wrap (m + 1) = m + 1 := wrap_eq (by omega) (by omega)
    unfold waiterStep at hs
    dsimp only at hs
    rw [hup] at hs
    split at hs
    · -- nobody signaled
      cases hs
      obtain ⟨rfl : v = 0, htok⟩ | ⟨hv : 0 < v, -⟩ := howing
      · exact Rel.after .fail ⟨0, .answered false, d⟩ (if_pos hop)
          ⟨⟨rfl, by show m + 1 = _; omega, htok⟩, hl, hfits⟩
      · omega
    · cases hs
      obtain ⟨rfl : v = 0, -⟩ | ⟨hv, htok⟩ := howing
      · omega
      · exact Rel.stay ⟨⟨⟨op, rfl, hop⟩, hm, hv, htok⟩, hl, hfits⟩
  | retry =>
    obtain ⟨htimed, rfl : m = v, hv : 0 < v, htok⟩ := hw
    unfold waiterStep at hs
    dsimp only at hs
    rw [hdown] at hs
    split at hs
    · cases hs
      exact Rel.stay
        ⟨⟨htimed, ⟨by show (v : ℤ) - 1 + 1 = v; omega, Or.inr ⟨hv, htok⟩⟩, hv⟩, hl, hfits⟩
    · omega
  | tryBlock =>
    obtain ⟨⟨op, rfl : q = _, hop⟩, howing, hv⟩ := hw
    unfold waiterStep at hs
    dsimp only at hs
    split at hs
    · rename_i hk
      cases hs
      exact Rel.let_through howing hk hl hfits
    · cases hs
      exact Rel.stay ⟨⟨⟨op, rfl, hop⟩, howing⟩, hl, hfits⟩

/-! ## The refinement -/

/-- **Every step of the semaphore is simulated.** -/
theorem Rel.step {a : Act Event Step} (h : Rel s t) (hc : clean s a = true)
    (hs : LightweightSemaphore.step s a = some s') :
    ∃ bs t', (Spec.semaphore initialCount).run t bs = some t' ∧
      Act.history bs = a.event?.toList ∧ Rel s' t' := by
  have hevent : ∀ {e : Event}, (∃ t', (Spec.semaphore initialCount).step t (.event e) = some t' ∧
      Rel s' t') → ∃ bs t', (Spec.semaphore initialCount).run t bs = some t' ∧
      Act.history bs = [e] ∧ Rel s' t' := by
    rintro e ⟨t', ht, hR⟩
    exact ⟨[.event e], t', Machine.run_singleton.trans ht, rfl, hR⟩
  obtain ⟨m, k, w, l⟩ := s
  obtain ⟨v, q, d⟩ := t
  rcases a with e | a
  · refine hevent ?_
    have hpermits := h.permits_eq
    obtain ⟨hw, hl, hfits⟩ := h
    cases e with
    | call op =>
      cases w <;> cases hs
      obtain ⟨rfl : q = _, heven⟩ := hw
      exact ⟨_, rfl, ⟨rfl, heven⟩, hl, hfits⟩
    | returned ok =>
      cases w with
      | answer ok' =>
        obtain ⟨rfl, ⟨⟩⟩ := Option.ite_none_right_eq_some.mp hs
        obtain ⟨rfl : q = _, heven⟩ := hw
        exact ⟨_, if_pos rfl, ⟨rfl, heven⟩, hl, hfits⟩
      | idle | load | take | spin | block | clock | timedBlock | restore | retry | tryBlock =>
        cases hs
    | signal n =>
      cases l <;> cases hs
      obtain rfl : d = _ := hl
      obtain ⟨hn, hle⟩ := of_decide_eq_true hc
      refine ⟨_, rfl, hw, ⟨rfl, hn⟩, ?_⟩
      have hpermits : State.permits _ = (v : ℤ) := hpermits
      show v + n < _
      omega
    | signaled =>
      cases l <;> cases hs
      obtain rfl : d = _ := hl
      exact ⟨_, rfl, hw, rfl, hfits⟩
  · show Simulated initialCount ⟨v, q, d⟩ s'
    cases a with
    | waiter => exact h.waiter_step hs
    | signaller => exact h.signaller_step hs
    | clock nsec =>
      obtain ⟨hw, hl, hfits⟩ := h
      cases w with
      | clock usecs =>
        obtain ⟨hlt, ⟨⟩⟩ := Option.ite_none_right_eq_some.mp hs
        have hne : nsec + usecs % 1000000 * 1000 ≠ 1000000000 := of_decide_eq_true hc
        exact Rel.stay ⟨⟨hw.1, hw.2, (deadline_lt_iff hlt).mpr hne⟩, hl, hfits⟩
      | idle | load | take | spin | block | timedBlock | restore | retry | tryBlock | answer =>
        cases hs
    | expire =>
      obtain ⟨hw, hl, hfits⟩ := h
      cases w <;> cases hs
      exact Rel.stay ⟨⟨hw.1, hw.2.1⟩, hl, hfits⟩
    | invalid =>
      obtain ⟨hw, hl, hfits⟩ := h
      cases w with
      | timedBlock tv_nsec =>
        obtain ⟨hge, -⟩ := Option.ite_none_right_eq_some.mp hs
        exact absurd hw.2.2 (Nat.not_lt.mpr hge)
      | idle | load | take | spin | block | clock | restore | retry | tryBlock | answer =>
        cases hs

/-- **The semaphore refines its specification.** -/
theorem refines (h : initialCount < 9223372036854775808) :
    Object.Simulation ((semaphore initialCount).guard clean) (Spec.semaphore initialCount) Rel where
  init := by
    rintro s rfl
    exact ⟨_, rfl, ⟨rfl, rfl, rfl⟩, rfl, h⟩
  step s t a s' hR hs := by
    obtain ⟨hc, hs⟩ := Machine.guard_step_eq_some.mp hs
    exact hR.step hc hs

/-- **Every history of the semaphore is one of the specification.** -/
theorem isHistory_permits (h : initialCount < 9223372036854775808) {es : List Event}
    (hh : Object.IsHistory ((semaphore initialCount).guard clean) es) :
    (Spec.semaphore initialCount).IsHistory es :=
  (refines h).isHistory hh

theorem isHistory_permits_one : (Spec.semaphore 0).IsHistory
    [.signal 1, .signaled, .call .tryWait, .returned true] :=
  isHistory_permits (by decide)
    ⟨_, [.event (.signal 1), .inner .signaller, .event .signaled, .event (.call .tryWait),
      .inner .waiter, .inner .waiter, .event (.returned true)], _, rfl, rfl, rfl⟩

end LightweightSemaphore

end TestBuffer
