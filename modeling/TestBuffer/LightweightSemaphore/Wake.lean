import TestBuffer.LightweightSemaphore.Refine
/-!
# Who is let through

A waiter inside a call, with a permit to be had, can get through by its
own steps and the rest of the signal under way: no wake-up is lost
(`no_lost_wakeup`). And a waiter is let through without any signal exactly
where its deadline falls on a whole second, which `timed_wait` means to
clean up and misses by one (`spurious_iff`).
-/

namespace TestBuffer

namespace LightweightSemaphore

variable {s s' : State} {t : Spec.State} {initialCount : ℕ}

/-! ## No wake-up is lost -/

/-- The waiter is inside a call that has not been decided. -/
def Waiter.undecided : Waiter → Bool
  | .idle | .answer _ => false
  | .load _ | .take | .spin _ _ | .block | .clock _ | .timedBlock _ | .restore | .retry
  | .tryBlock => true

/-- A waiter that is undecided is one of the specification's. -/
theorem Rel.pending_of_undecided (h : Rel s t) (hu : s.waiter.undecided = true) :
    ∃ op, t.waiter = .pending op := by
  obtain ⟨m, k, w, l⟩ := s
  have hw := h.waiter
  cases w with
  | idle | answer => cases hu
  | load | spin => exact ⟨_, hw.1⟩
  | take | block => exact hw.1
  | clock | timedBlock | restore | retry | tryBlock =>
    obtain ⟨⟨op, hq, -⟩, -⟩ := hw
    exact ⟨op, hq⟩

/-- One who owes is undecided. -/
theorem Waiter.undecided_of_owes {w : Waiter} (h : w.owes = true) : w.undecided = true := by
  cases w <;> first | rfl | cases h

/-- **What `availableApprox` shows**: the permits, or one less while a
waiter owes. -/
theorem Rel.availableApprox (h : Rel s t) :
    s.availableApprox ≤ t.value ∧
      (t.value : ℤ) ≤ s.availableApprox + s.waiter.debt := by
  have hp : s.m_count + s.waiter.debt = t.value := h.permits_eq
  have hdebt := s.waiter.debt_le
  unfold State.availableApprox
  split <;> omega

/-- How far the waiter is from being let through. -/
def Waiter.rank : Waiter → ℕ
  | .restore | .load _ => 3
  | .retry | .spin _ _ | .clock _ => 2
  | .take | .block | .timedBlock _ | .tryBlock => 1
  | .idle | .answer _ => 0

/-- How far the two threads are. -/
def State.rank (s : State) : ℕ := 4 * s.signaller.posting + s.waiter.rank

theorem State.rank_le (s : State) : s.rank ≤ 7 := by
  have hw : s.waiter.rank ≤ 3 := by
    unfold Waiter.rank
    split <;> omega
  have hl : s.signaller.posting ≤ 1 := by
    unfold Signaller.posting
    split <;> omega
  unfold State.rank
  omega

/-- The waiter is let through, or there is a permit for it. -/
def Coming (s : State) : Prop :=
  s.waiter = .answer true ∨ s.waiter.undecided = true ∧ ∃ t, Rel s t ∧ 0 < t.value

/-- The steps of the two threads, but for a time that is up. -/
def isOwn : Act Event Step → Bool
  | .inner .waiter | .inner .signaller | .inner (.clock _) => true
  | _ => false

/-- The token is posted already, where nobody is about to. -/
theorem Owing.pos {m : ℤ} {k v : ℕ} {l : Signaller} (h : Owing m (k + l.posting) v)
    (hv : 0 < v) (hl : l.posting = 0) : k > 0 := by
  obtain ⟨-, ⟨rfl, -⟩ | ⟨-, hk⟩⟩ := h
  · omega
  · omega

/-- **One step nearer.** -/
theorem Coming.step (h : Coming s) (hne : s.waiter ≠ .answer true) :
    ∃ a s', isOwn a = true ∧ clean s a = true ∧ LightweightSemaphore.step s a = some s' ∧
      Coming s' ∧ s'.rank < s.rank ∧ (s'.signaller = s.signaller ∨ s'.signaller = .answer) := by
  obtain ⟨m, k, w, l⟩ := s
  obtain he | ⟨hu, ⟨v, q, d⟩, ⟨hw, hl, hfits⟩, hv⟩ := h
  · exact absurd he hne
  have hv : 0 < v := hv
  have hlt : v + d.coming < 9223372036854775808 := hfits
  have hm : -1 ≤ m ∧ m ≤ v := hw.bounds
  have hdown : wrap (m - 1) = m - 1 := wrap_eq (by omega) (by omega)
  by_cases hpost : l.posting = 0
  · -- nothing is to be posted; the waiter goes on
    have hnext : ∀ m' k' w', waiterStep ⟨m, k, w, l⟩ = some ⟨m', k', w', l⟩ →
        Coming ⟨m', k', w', l⟩ → w'.rank < w.rank →
        ∃ a s', isOwn a = true ∧ clean ⟨m, k, w, l⟩ a = true ∧
          LightweightSemaphore.step ⟨m, k, w, l⟩ a = some s' ∧ Coming s' ∧
          s'.rank < (⟨m, k, w, l⟩ : State).rank ∧ (s'.signaller = l ∨ s'.signaller = .answer) :=
      fun m' k' w' hs hc hr =>
        ⟨.inner .waiter, _, rfl, rfl, hs, hc, Nat.add_lt_add_left hr _, Or.inl rfl⟩
    have hstay : ∀ m' w', WaiterOk m' (k + l.posting) v q w' → w'.undecided = true →
        Coming ⟨m', k, w', l⟩ := fun m' w' hw' hu' => Or.inr ⟨hu', ⟨v, q, d⟩, ⟨hw', hl, hfits⟩, hv⟩
    cases w with
    | idle | answer => cases hu
    | load op =>
      obtain ⟨rfl, hm : m = v, htok⟩ := hw
      have hpos : m > 0 := by omega
      exact hnext m k .take (if_pos hpos) (hstay _ _ ⟨⟨op, rfl⟩, ⟨hm, htok⟩, hv⟩ rfl)
        (Nat.lt_add_of_pos_right Nat.zero_lt_two)
    | take =>
      refine hnext (m - 1) k (.answer true) ?_ (Or.inl rfl) Nat.zero_lt_one
      show some (⟨wrap (m - 1), k, .answer true, l⟩ : State) = _
      rw [hdown]
    | spin timeout left =>
      obtain ⟨rfl, hm : m = v, htok⟩ := hw
      have hpos : m > 0 := by omega
      cases left with
      | zero =>
        refine hnext (m - 1) k (.answer true) ?_ (Or.inl rfl) Nat.zero_lt_two
        show some (⟨wrap (m - 1), k, afterSpin m timeout, l⟩ : State) = _
        rw [hdown, afterSpin, if_pos hpos]
      | succ left =>
        exact hnext m k .take (if_pos hpos) (hstay _ _ ⟨⟨_, rfl⟩, ⟨hm, htok⟩, hv⟩ rfl)
          (Nat.lt_succ_self 1)
    | block =>
      exact hnext m (k - 1) (.answer true) (if_pos (hw.2.pos hv hpost)) (Or.inl rfl) (by decide)
    | timedBlock tv_nsec =>
      exact hnext m (k - 1) (.answer true) (if_pos (hw.2.1.pos hv hpost)) (Or.inl rfl)
        Nat.zero_lt_one
    | tryBlock =>
      exact hnext m (k - 1) (.answer true) (if_pos (hw.2.1.pos hv hpost)) (Or.inl rfl) (by decide)
    | clock usecs =>
      have hmod := Nat.mod_lt usecs (show 1000000 > 0 by decide)
      have hne : 0 + usecs % 1000000 * 1000 ≠ 1000000000 := by omega
      have hlt : deadline usecs 0 < 1000000000 := (deadline_lt_iff (by decide)).mpr hne
      exact ⟨.inner (.clock 0), ⟨m, k, .timedBlock (deadline usecs 0), l⟩, rfl,
        decide_eq_true hne, rfl, hstay _ _ ⟨hw.1, hw.2, hlt⟩ rfl, Nat.lt_succ_self _, Or.inl rfl⟩
    | restore =>
      obtain ⟨htimed, hm : m + 1 = v, hor⟩ := hw
      have htok : k + l.posting = 1 := by
        obtain ⟨rfl, -⟩ | ⟨-, htok⟩ := hor
        · omega
        · exact htok
      have hneg : ¬m < 0 := by omega
      have hup : wrap (m + 1) = m + 1 := wrap_eq (by omega) (by omega)
      refine hnext (m + 1) k .retry ?_ (hstay _ _ ⟨htimed, hm, hv, htok⟩ rfl) (by decide)
      rw [← hup]
      exact if_neg hneg
    | retry =>
      obtain ⟨htimed, hm : m = v, -, htok⟩ := hw
      have hpos : m > 0 := by omega
      have howing : Owing (m - 1) (k + l.posting) v := ⟨by omega, Or.inr ⟨hv, htok⟩⟩
      refine hnext (m - 1) k .tryBlock ?_ (hstay _ _ ⟨htimed, howing, hv⟩ rfl) (by decide)
      rw [← hdown]
      exact if_pos hpos
  · cases l with
    | idle | add | answer => exact absurd rfl hpost
    | post =>
      refine ⟨.inner .signaller, ⟨m, k + 1, w, .answer⟩, rfl, rfl, rfl,
        Or.inr ⟨hu, ⟨v, q, d⟩, ⟨hw, hl, hfits⟩, hv⟩, ?_, Or.inr rfl⟩
      show 4 * 0 + w.rank < 4 * 1 + w.rank
      omega

/-- **No wake-up is lost.** The signaller never waits, its assertion holds,
and a waiter inside a call gets through where there is a permit, by what
the two threads have begun. -/
theorem no_lost_wakeup (h : initialCount < 9223372036854775808)
    (hs : ((semaphore initialCount).guard clean).Reachable s) :
    (s.signaller ≠ .idle → s.signaller ≠ .answer → (signallerStep s).isSome) ∧
    (s.waiter.undecided = true → 0 < s.permits → ∃ as s',
      ((semaphore initialCount).guard fun _ a => isOwn a).run s as = some s' ∧
        s'.waiter = .answer true) := by
  obtain ⟨t, -, hR⟩ := (refines h).reachable hs
  constructor
  · intro hidle hanswer
    obtain ⟨m, k, w, l⟩ := s
    cases l with
    | idle => exact absurd rfl hidle
    | answer => exact absurd rfl hanswer
    | post => rfl
    | add n =>
      obtain ⟨hge, -⟩ := hR.waiter.add hR.signaller.2
      exact Option.isSome_of_mem (if_pos hge)
  · intro hu hp
    rw [hR.permits_eq] at hp
    obtain ⟨as, s', hrun, -, hs'⟩ :=
      Machine.exists_run_of_decreasing (M := (semaphore initialCount).guard fun _ a => isOwn a)
        (I := Coming) (G := fun s => s.waiter = .answer true) State.rank
        (fun s hI hG => by
          obtain ⟨a, s', ha, -, hstep, hI', hlt, -⟩ := hI.step hG
          exact ⟨a, s', Machine.guard_step_eq_some.mpr ⟨ha, hstep⟩, hI', hlt⟩)
        (Or.inr ⟨hu, t, hR, by omega⟩)
    exact ⟨as, s', hrun, hs'⟩

/-- The waiter has called and the signal is under way. -/
theorem no_lost_wakeup_one : ∃ s as s',
    ((semaphore 0).guard clean).run ⟨0, 0, .idle, .idle⟩
      [.event (.call (.wait (-1))), .event (.signal 1), .inner .signaller] = some s ∧
    ((semaphore 0).guard fun _ a => isOwn a).run s as = some s' ∧ s'.waiter = .answer true := by
  obtain ⟨s, hs⟩ : ∃ s, ((semaphore 0).guard clean).run ⟨0, 0, .idle, .idle⟩
      [.event (.call (.wait (-1))), .event (.signal 1), .inner .signaller] = some s := ⟨_, rfl⟩
  have h := no_lost_wakeup (by decide) (Machine.reachable_of_run (.init rfl) _ hs)
  cases hs
  obtain ⟨as, s', hrun, hs'⟩ := h.2 rfl (by decide)
  exact ⟨_, as, s', rfl, hrun, hs'⟩

/-! ## A whole second -/

/-- Nobody signals, every wait is with this timeout, and the clock says
`nsec`. -/
def only (timeout_usecs : ℤ) (nsec : ℕ) (_ : State) : Act Event Step → Bool
  | .event (.call op) => op = .wait timeout_usecs
  | .event (.signal _) => false
  | .inner (.clock n) => n = nsec
  | _ => true

/-- What holds of the waiter then, with a deadline that is one. -/
def QuietWaiter (timeout_usecs m_count : ℤ) : Waiter → Prop
  | .idle => m_count = 0
  | .load op => op = .wait timeout_usecs ∧ m_count = 0
  | .spin timeout _ => timeout = timeout_usecs ∧ m_count = 0
  | .clock usecs => usecs = timeout_usecs.toNat ∧ m_count = -1
  | .timedBlock tv_nsec => tv_nsec < 1000000000 ∧ m_count = -1
  | .restore => m_count = -1
  | .answer ok => ok = false ∧ m_count = 0
  | .take | .block | .retry | .tryBlock => False

/-- Nobody has signaled. -/
structure Quiet (timeout_usecs : ℤ) (s : State) : Prop where
  waiter : QuietWaiter timeout_usecs s.m_count s.waiter
  m_sema : s.m_sema = 0
  signaller : s.signaller = .idle

variable {timeout_usecs : ℤ} {nsec : ℕ}

/-- It stays so, and no wait succeeds. -/
theorem Quiet.step (h : Quiet timeout_usecs s) (ht : 0 ≤ timeout_usecs)
    (hn : nsec + timeout_usecs.toNat % 1000000 * 1000 ≠ 1000000000) {a : Act Event Step}
    (ho : only timeout_usecs nsec s a = true) (hs : LightweightSemaphore.step s a = some s') :
    Quiet timeout_usecs s' ∧ a ≠ .event (.returned true) := by
  obtain ⟨m, k, w, l⟩ := s
  obtain ⟨hw, rfl : k = 0, rfl : l = .idle⟩ := h
  rcases a with e | a
  · cases e with
    | call op =>
      obtain rfl : op = _ := of_decide_eq_true ho
      cases w <;> cases hs
      exact ⟨⟨⟨rfl, hw⟩, rfl, rfl⟩, nofun⟩
    | returned ok =>
      cases w with
      | answer ok' =>
        obtain ⟨rfl, ⟨⟩⟩ := Option.ite_none_right_eq_some.mp hs
        obtain ⟨rfl, hm⟩ := hw
        exact ⟨⟨hm, rfl, rfl⟩, nofun⟩
      | idle | load | take | spin | block | clock | timedBlock | restore | retry | tryBlock =>
        cases hs
    | signal n => cases ho
    | signaled => cases hs
  · refine ⟨?_, nofun⟩
    cases a with
    | signaller => cases hs
    | expire =>
      cases w <;> cases hs
      exact ⟨hw.2, rfl, rfl⟩
    | invalid =>
      cases w with
      | timedBlock tv_nsec =>
        obtain ⟨hge, -⟩ := Option.ite_none_right_eq_some.mp hs
        exact absurd hw.1 (Nat.not_lt.mpr hge)
      | idle | load | take | spin | block | clock | restore | retry | tryBlock | answer => cases hs
    | clock n =>
      obtain rfl : n = nsec := of_decide_eq_true ho
      cases w with
      | clock usecs =>
        obtain ⟨hlt, ⟨⟩⟩ := Option.ite_none_right_eq_some.mp hs
        obtain ⟨rfl, hm⟩ := hw
        exact ⟨⟨(deadline_lt_iff hlt).mpr hn, hm⟩, rfl, rfl⟩
      | idle | load | take | spin | block | timedBlock | restore | retry | tryBlock | answer =>
        cases hs
    | waiter =>
      cases w with
      | idle | clock | answer | block | timedBlock => cases hs
      | take | retry | tryBlock => exact hw.elim
      | load op =>
        obtain ⟨rfl, rfl : m = 0⟩ := hw
        cases hs
        exact ⟨⟨rfl, rfl⟩, rfl, rfl⟩
      | spin timeout left =>
        obtain ⟨rfl, rfl : m = 0⟩ := hw
        cases left with
        | succ left =>
          cases hs
          exact ⟨⟨rfl, rfl⟩, rfl, rfl⟩
        | zero =>
          have hafter : afterSpin 0 timeout = .clock timeout.toNat := by
            rw [afterSpin, if_neg (by decide), if_neg (by omega)]
          cases hs
          refine ⟨?_, rfl, rfl⟩
          rw [hafter]
          exact ⟨rfl, rfl⟩
      | restore =>
        obtain rfl : m = -1 := hw
        cases hs
        exact ⟨⟨rfl, rfl⟩, rfl, rfl⟩

theorem Quiet.run (h : Quiet timeout_usecs s) (ht : 0 ≤ timeout_usecs)
    (hn : nsec + timeout_usecs.toNat % 1000000 * 1000 ≠ 1000000000) {as : List (Act Event Step)}
    (hs : ((semaphore initialCount).guard (only timeout_usecs nsec)).run s as = some s') :
    .returned true ∉ Act.history as := by
  induction as generalizing s with
  | nil => exact List.not_mem_nil
  | cons a as ih =>
    rw [Machine.run_cons, Option.bind_eq_some_iff] at hs
    obtain ⟨m, hm, hs⟩ := hs
    obtain ⟨ho, hm⟩ := Machine.guard_step_eq_some.mp hm
    obtain ⟨hq, hne⟩ := h.step ht hn ho hm
    have hrest := ih hq hs
    cases a with
    | event e =>
      rw [Act.history_cons_event, List.mem_cons, not_or]
      exact ⟨fun he => hne (congrArg Act.event he.symm), hrest⟩
    | inner a => exact hrest

/-- The rounds of the loop, with no permit. -/
theorem run_spin (n : ℕ) :
    ((semaphore 0).guard (only timeout_usecs nsec)).run ⟨0, 0, .spin timeout_usecs n, .idle⟩
      (List.replicate n (.inner .waiter)) = some ⟨0, 0, .spin timeout_usecs 0, .idle⟩ := by
  induction n with
  | zero => rfl
  | succ n ih =>
    rw [List.replicate_succ, Machine.run_cons]
    exact ih

/-- **`timed_wait` takes a whole second for an answer.** With a timeout and
nobody to signal, a wait succeeds exactly if the clock's nanoseconds and
the timeout's make up one second. -/
theorem spurious_iff (ht : 0 ≤ timeout_usecs) (hn : nsec < 1000000000) :
    (∃ es, Object.IsHistory ((semaphore 0).guard (only timeout_usecs nsec)) es ∧
      .returned true ∈ es) ↔ nsec + timeout_usecs.toNat % 1000000 * 1000 = 1000000000 := by
  constructor
  · rintro ⟨es, ⟨s, as, s', rfl, hrun, rfl⟩, hmem⟩
    by_contra hne
    have hquiet : Quiet timeout_usecs ⟨0, 0, .idle, .idle⟩ := ⟨rfl, rfl, rfl⟩
    exact hquiet.run ht hne hrun hmem
  · intro he
    have hafter : afterSpin 0 timeout_usecs = .clock timeout_usecs.toNat := by
      rw [afterSpin, if_neg (by decide), if_neg (by omega)]
    have hdeadline : deadline timeout_usecs.toNat nsec = 1000000000 := by
      rw [deadline, he]
      rfl
    let M := (semaphore 0).guard (only timeout_usecs nsec)
    have hcall : M.step ⟨0, 0, .idle, .idle⟩ (.event (.call (.wait timeout_usecs))) =
        some ⟨0, 0, .load (.wait timeout_usecs), .idle⟩ :=
      Machine.guard_step_eq_some.mpr ⟨decide_eq_true rfl, rfl⟩
    have hload : M.step ⟨0, 0, .load (.wait timeout_usecs), .idle⟩ (.inner .waiter) =
        some ⟨0, 0, .spin timeout_usecs spins, .idle⟩ := rfl
    have hspin : M.run ⟨0, 0, .spin timeout_usecs spins, .idle⟩
        (List.replicate spins (.inner .waiter)) = some ⟨0, 0, .spin timeout_usecs 0, .idle⟩ :=
      run_spin spins
    have hdec : M.step ⟨0, 0, .spin timeout_usecs 0, .idle⟩ (.inner .waiter) =
        some ⟨-1, 0, .clock timeout_usecs.toNat, .idle⟩ := by
      rw [← hafter]
      rfl
    have hclock : M.step ⟨-1, 0, .clock timeout_usecs.toNat, .idle⟩ (.inner (.clock nsec)) =
        some ⟨-1, 0, .timedBlock 1000000000, .idle⟩ := by
      rw [← hdeadline]
      exact Machine.guard_step_eq_some.mpr ⟨decide_eq_true rfl, if_pos hn⟩
    have hlast : M.run ⟨-1, 0, .timedBlock 1000000000, .idle⟩
        [.inner .invalid, .event (.returned true)] = some ⟨-1, 0, .idle, .idle⟩ := rfl
    refine ⟨_, ⟨_, .event (.call (.wait timeout_usecs)) :: .inner .waiter ::
      (List.replicate spins (.inner .waiter) ++ .inner .waiter :: .inner (.clock nsec) ::
        [.inner .invalid, .event (.returned true)]), ⟨-1, 0, .idle, .idle⟩, rfl, ?_, rfl⟩, ?_⟩
    · show M.run ⟨0, 0, .idle, .idle⟩ _ = _
      rw [Machine.run_cons, hcall, Option.bind_some, Machine.run_cons, hload, Option.bind_some,
        Machine.run_append, hspin, Option.bind_some, Machine.run_cons, hdec, Option.bind_some,
        Machine.run_cons, hclock, Option.bind_some, hlast]
    · rw [Act.history_cons_event, Act.history_cons_inner, Act.history_append]
      exact List.mem_cons_of_mem _ (List.mem_append_right _ List.mem_cons_self)

theorem spurious_iff_usec : ∃ es,
    Object.IsHistory ((semaphore 0).guard (only 1 999999000)) es ∧ .returned true ∈ es :=
  (spurious_iff (by decide) (by decide)).mpr rfl

end LightweightSemaphore

end TestBuffer
