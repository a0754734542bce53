import TestBuffer.Common.Token
/-!
# One turn, one sequential program

Where main begins with one turn, whoever holds it is alone with what the
turn protects, and the steps taken with it are one sequential program,
handed from main to a task, to a thread, to a receive and to the next
task. An `Outline` is a proof outline of that program: for each place the
turn can be, what is true of the world while it is there. A step taken
with the turn has to carry the outline to the turn's next place; any other
step must not disturb it anywhere.
-/

namespace TestBuffer

namespace Pool

variable {words : ℕ} {Tid Task Loc MainLoc Shared Record : Type*}

/-- **Where a turn can be.** -/
inductive Place (Task Loc MainLoc : Type*)
  /-- With main. -/
  | main (m : MainLoc)
  /-- With a task that is ready. -/
  | job (j : Job Task)
  /-- With an outstanding receive. -/
  | receiving
  /-- With a thread at a location. -/
  | loc (l : Loc) (cause : Option ℕ)
  /-- Nowhere: whoever had it did not pass it on. -/
  | spent

variable {P : Program words Task Loc MainLoc Shared Record} (W : Weight P)

namespace Weight

/-- Where a turn goes by a step of a handler. -/
def placeAfter (o : Outcome Loc Shared Record) (cause : Option ℕ) : Place Task Loc MainLoc :=
  if 0 < W.receive * o.receive.toNat then .receiving
  else match o.next with
    | some l => if 0 < W.loc l then .loc l cause else .spent
    | none => .spent

/-- Where a turn goes by a step of main. -/
def placeAfterMain (o : MainOutcome Task MainLoc Shared) : Place Task Loc MainLoc :=
  if 0 < W.main o.next then .main o.next
  else match o.post with
    | some τ => if 0 < W.task τ then .job ⟨τ, none⟩ else .spent
    | none => .spent

section placeAfter

variable {o : Outcome Loc Shared Record} {cause : Option ℕ} {l : Loc}
variable {om : MainOutcome Task MainLoc Shared} {τ : Task}

/-- A step that issues a receive passes the turn to it. -/
theorem placeAfter_receive (ho : o.receive = true) (hW : 0 < W.receive) :
    W.placeAfter o cause = .receiving := by
  rw [placeAfter, ho, Bool.toNat_true, Nat.mul_one, if_pos hW]

/-- A step that does not, and goes on with the turn, keeps it. -/
theorem placeAfter_next (ho : o.receive = false) (hnext : o.next = some l) (hW : 0 < W.loc l) :
    W.placeAfter o cause = .loc l cause := by
  rw [placeAfter, ho, Bool.toNat_false, Nat.mul_zero, if_neg (lt_irrefl 0), hnext]
  exact if_pos hW

/-- A handler that returns with the turn has spent it. -/
theorem placeAfter_return (ho : o.receive = false) (hnext : o.next = none) :
    W.placeAfter o cause = .spent := by
  rw [placeAfter, ho, Bool.toNat_false, Nat.mul_zero, if_neg (lt_irrefl 0), hnext]

theorem placeAfterMain_next (hW : 0 < W.main om.next) :
    W.placeAfterMain om = .main om.next := by
  rw [placeAfterMain, if_pos hW]

/-- Main passes the turn to the task it posts. -/
theorem placeAfterMain_post (hnext : W.main om.next = 0) (hpost : om.post = some τ)
    (hW : 0 < W.task τ) : W.placeAfterMain om = .job ⟨τ, none⟩ := by
  rw [placeAfterMain, hnext, if_neg (lt_irrefl 0), hpost]
  exact if_pos hW

end placeAfter

variable [Fintype Tid]

/-- A turn is there. -/
def Occupied (s : State words Tid Task Loc MainLoc Shared Record) : Place Task Loc MainLoc → Prop
  | .main m => s.main = m ∧ 0 < W.main m
  | .job j => j ∈ s.ready ∧ 0 < W.task j.task
  | .receiving => 0 < W.receive * s.outstanding
  | .loc l cause => (∃ t, s.worker t = .busy l cause) ∧ 0 < W.loc l
  | .spent => W.total s = 0

/-- What is held in places of one kind. -/
def held (s : State words Tid Task Loc MainLoc Shared Record) : Place Task Loc MainLoc → ℕ
  | .main _ => W.main s.main
  | .job _ => W.readySum s.ready
  | .receiving => W.receive * s.outstanding
  | .loc _ _ => Threads.total (Worker.weight W.loc) s.worker
  | .spent => 1 - W.total s

variable {W} {s : State words Tid Task Loc MainLoc Shared Record} {p q : Place Task Loc MainLoc}

/-- A place that has a turn holds it. -/
theorem Occupied.held_pos (hp : W.Occupied s p) : 0 < W.held s p := by
  cases p with
  | main m =>
    obtain ⟨rfl, hpos⟩ := hp
    exact hpos
  | job j => exact hp.2.trans_le (W.le_readySum hp.1)
  | receiving => exact hp
  | loc l cause =>
    obtain ⟨⟨t, ht⟩, hpos⟩ := hp
    have := Threads.le_total (Worker.weight W.loc) s.worker t
    rw [ht, Worker.weight_busy] at this
    exact hpos.trans_le this
  | spent =>
    have hzero : W.total s = 0 := hp
    rw [held, hzero]
    exact Nat.one_pos

/-- **One turn is at one place**: places of different kinds hold
different turns, and so do two tasks, or two threads. -/
theorem Occupied.unique [DecidableEq Tid] (hone : W.total s ≤ 1) (hp : W.Occupied s p)
    (hq : W.Occupied s q) : p = q := by
  have htotal := hone
  have hp' := hp.held_pos
  have hq' := hq.held_pos
  unfold total at hone
  -- places of two kinds would hold two turns; of one kind, only one task or thread has it
  cases p with
  | main m =>
    cases q with
    | main m' => rw [← hp.1, ← hq.1]
    | _ => simp only [held, total] at hp' hq'; omega
  | job j =>
    cases q with
    | job j' =>
      by_contra hne
      have := W.add_le_readySum hp.1 hq.1 fun h => hne (by rw [h])
      have := hp.2
      have := hq.2
      omega
    | _ => simp only [held, total] at hp' hq'; omega
  | receiving =>
    cases q with
    | receiving => rfl
    | _ => simp only [held, total] at hp' hq'; omega
  | loc l cause =>
    cases q with
    | loc l' cause' =>
      obtain ⟨⟨t, ht⟩, hl⟩ := hp
      obtain ⟨⟨u, hu⟩, hl'⟩ := hq
      rw [W.eq_of_pos htotal ht hl hu hl', hu, Worker.busy.injEq] at ht
      rw [ht.1, ht.2]
    | _ => simp only [held, total] at hp' hq'; omega
  | spent =>
    cases q with
    | spent => rfl
    | _ => simp only [held, total] at hp' hq'; omega

/-- And it is somewhere. -/
theorem exists_occupied (W : Weight P) (s : State words Tid Task Loc MainLoc Shared Record) :
    ∃ p, W.Occupied s p := by
  by_cases hmain : 0 < W.main s.main
  · exact ⟨.main s.main, rfl, hmain⟩
  by_cases hready : 0 < W.readySum s.ready
  · obtain ⟨n, hn, hpos⟩ := List.exists_mem_ne_zero_of_sum_ne_zero hready.ne'
    obtain ⟨j, hj, rfl⟩ := List.mem_map.mp hn
    exact ⟨.job j, hj, Nat.pos_of_ne_zero hpos⟩
  by_cases hreceive : 0 < W.receive * s.outstanding
  · exact ⟨.receiving, hreceive⟩
  by_cases hworker : 0 < Threads.total (Worker.weight W.loc) s.worker
  · obtain ⟨t, ht⟩ := Threads.total_pos_iff.mp hworker
    cases hx : s.worker t with
    | busy l cause =>
      rw [hx] at ht
      exact ⟨.loc l cause, ⟨t, hx⟩, ht⟩
    | idle | exited =>
      rw [hx] at ht
      exact absurd ht (lt_irrefl 0)
  · refine ⟨.spent, ?_⟩
    show W.total s = 0
    unfold total
    omega

end Weight

/-- **A proof outline** of what is done with the turn. -/
structure Outline (W : Weight P) (A : Place Task Loc MainLoc → World words Shared Record → Prop) :
    Prop where
  /-- A thread picks the task that has the turn. -/
  start : ∀ {w j}, 0 < W.task j.task → A (.job j) w → A (.loc (P.entry j.task) j.cause) w
  /-- The receive that has the turn completes. -/
  complete : ∀ {w c}, 0 < W.receive → A .receiving w →
    A (.job ⟨P.queued c, some w.completions.length⟩) (w.complete c)
  /-- The thread that has the turn takes a step. -/
  exec : ∀ {w l cause o}, 0 < W.loc l → P.exec l w.shared w.stopped w.buffer = some o →
    A (.loc l cause) w → A (W.placeAfter o cause) (w.after o cause)
  /-- Main has the turn and takes a step. -/
  mainStep : ∀ {w m joined o}, 0 < W.main m → P.main m w.shared w.stopped joined = some o →
    A (.main m) w → A (W.placeAfterMain o) (w.afterMain o)
  /-- The thread that has the turn is woken. -/
  wake : ∀ {w l l' cause}, P.wake l = some l' → A (.loc l cause) w → A (.loc l' cause) w
  /-- A receive without the turn completes. -/
  complete_stable : ∀ {w c p}, W.receive = 0 → A p w → A p (w.complete c)
  /-- A thread without the turn takes a step. -/
  exec_stable : ∀ {w l cause o p}, W.loc l = 0 →
    P.exec l w.shared w.stopped w.buffer = some o → A p w → A p (w.after o cause)
  /-- Main takes a step without the turn. -/
  main_stable : ∀ {w m joined o p}, W.main m = 0 →
    P.main m w.shared w.stopped joined = some o → A p w → A p (w.afterMain o)

variable {W} [Fintype Tid] [DecidableEq Tid] {b : Buffer words}
variable {s s' : State words Tid Task Loc MainLoc Shared Record}
variable {A : Place Task Loc MainLoc → World words Shared Record → Prop}

/-- **The outline is met**: it holds at the place the turn is. -/
def Meets (W : Weight P) (A : Place Task Loc MainLoc → World words Shared Record → Prop)
    (s : State words Tid Task Loc MainLoc Shared Record) : Prop :=
  W.total s ≤ 1 ∧ ∀ p, W.Occupied s p → A p s.world

/-- **Moving the turn.** The one turn there is has reached `p`, so the
outline need only hold there. -/
theorem Meets.moved {p : Place Task Loc MainLoc} (hone : W.total s' ≤ 1)
    (hp : W.Occupied s' p) (hA : A p s'.world) : Meets W A s' :=
  ⟨hone, fun _ hq => hp.unique hone hq ▸ hA⟩

omit [DecidableEq Tid] in
/-- **Leaving the turn alone.** It is where it was, and the outline still
holds there. -/
theorem Meets.kept (hm : Meets W A s) (hone : W.total s' ≤ 1)
    (hocc : ∀ p, W.Occupied s' p → W.Occupied s p)
    (hA : ∀ p, A p s.world → A p s'.world) : Meets W A s' :=
  ⟨hone, fun p hp => hA p (hm.2 p (hocc p hp))⟩

omit [Fintype Tid] in
/-- A thread at a location after one thread moved moved there, or was
there. -/
theorem busy_update {t : Tid} {x : Worker Loc} {l : Loc} {cause : Option ℕ}
    (h : ∃ u, Function.update s.worker t x u = .busy l cause) :
    x = .busy l cause ∨ ∃ u, s.worker u = .busy l cause := by
  obtain ⟨u, hu⟩ := h
  by_cases hut : u = t
  · rw [hut, Function.update_self] at hu
    exact Or.inl hu
  · rw [Function.update_of_ne hut] at hu
    exact Or.inr ⟨u, hu⟩

theorem Meets.complete (O : Outline W A) (hm : Meets W A s) (c : Completion)
    (hpos : 0 < s.outstanding) : Meets W A (s.complete P c) := by
  have hone := (W.total_complete c hpos).trans_le hm.1
  by_cases hreceive : W.receive = 0
  · refine hm.kept hone (fun p hp => ?_) fun p => O.complete_stable hreceive
    cases p with
    | main m => exact hp
    | job j =>
      obtain ⟨hj, hpos⟩ := hp
      rcases List.mem_append.mp hj with hj | hj
      · exact ⟨hj, hpos⟩
      · rw [List.mem_singleton.mp hj, W.queued_eq, hreceive] at hpos
        exact absurd hpos (lt_irrefl 0)
    | receiving =>
      have hzero : 0 < W.receive * (s.outstanding - 1) := hp
      rw [hreceive, Nat.zero_mul] at hzero
      exact absurd hzero (lt_irrefl 0)
    | loc l cause => exact hp
    | spent => exact (W.total_complete c hpos).symm.trans hp
  · have hreceive := Nat.pos_of_ne_zero hreceive
    refine Meets.moved hone (p := .job _) ⟨List.mem_append_right _ List.mem_cons_self, ?_⟩
      (O.complete hreceive (hm.2 .receiving (Nat.mul_pos hreceive hpos)))
    rw [W.queued_eq]
    exact hreceive

theorem Meets.start (O : Outline W A) (hm : Meets W A s) {t : Tid} {k : ℕ} {j : Job Task}
    (ht : s.worker t = .idle) (hk : s.ready[k]? = some j) : Meets W A (s.start P t k j) := by
  have hone := (W.total_start ht hk).trans_le hm.1
  by_cases hj : W.task j.task = 0
  · refine hm.kept hone (fun p hp => ?_) fun p => id
    cases p with
    | main m => exact hp
    | job j' => exact ⟨List.mem_of_mem_eraseIdx hp.1, hp.2⟩
    | receiving => exact hp
    | loc l cause =>
      obtain ⟨hbusy, hpos⟩ := hp
      rcases busy_update hbusy with hl | hbusy
      · rw [Worker.busy.injEq] at hl
        rw [← hl.1, W.entry_eq, hj] at hpos
        exact absurd hpos (lt_irrefl 0)
      · exact ⟨hbusy, hpos⟩
    | spent => exact (W.total_start ht hk).symm.trans hp
  · have hj := Nat.pos_of_ne_zero hj
    refine Meets.moved hone (p := .loc _ _) ⟨⟨t, Function.update_self ..⟩, ?_⟩
      (O.start hj (hm.2 (.job j) ⟨List.mem_of_getElem? hk, hj⟩))
    rw [W.entry_eq]
    exact hj

/-- Where a step leaves the turn it was taken with. -/
theorem occupied_placeAfter {t : Tid} {l : Loc} {cause : Option ℕ}
    {o : Outcome Loc Shared Record} (hone : W.total s ≤ 1) (ht : s.worker t = .busy l cause)
    (hl : 0 < W.loc l) : W.Occupied (s.exec t cause o) (W.placeAfter o cause) := by
  have htotal := W.total_exec o ht
  unfold Weight.placeAfter
  by_cases hreceive : 0 < W.receive * o.receive.toNat
  · rw [if_pos hreceive]
    show 0 < W.receive * (s.outstanding + o.receive.toNat)
    rw [Nat.mul_add]
    omega
  rw [if_neg hreceive]
  cases hnext : o.next with
  | none =>
    rw [hnext, Option.elim_none] at htotal
    show W.total (s.exec t cause o) = 0
    omega
  | some l' =>
    rw [hnext, Option.elim_some] at htotal
    by_cases hl' : 0 < W.loc l'
    · simp only [if_pos hl']
      refine ⟨⟨t, ?_⟩, hl'⟩
      show Function.update s.worker t (o.worker cause) t = .busy l' cause
      rw [Function.update_self, Outcome.worker, hnext]
    · simp only [if_neg hl']
      show W.total (s.exec t cause o) = 0
      omega

theorem Meets.exec (O : Outline W A) (hm : Meets W A s) {t : Tid} {l : Loc} {cause : Option ℕ}
    {o : Outcome Loc Shared Record} (ht : s.worker t = .busy l cause)
    (ho : P.exec l s.world.shared s.world.stopped s.world.buffer = some o) :
    Meets W A (s.exec t cause o) := by
  have htotal := W.total_exec o ht
  have hle := W.exec_le ho
  have hone : W.total (s.exec t cause o) ≤ 1 := by
    have := hm.1
    omega
  -- a step without the turn leaves it where it was, one with it says where it goes
  by_cases hl : W.loc l = 0
  · refine hm.kept hone (fun p hp => ?_) fun p => O.exec_stable hl ho
    cases p with
    | main m => exact hp
    | job j => exact hp
    | receiving =>
      have hpos : 0 < W.receive * (s.outstanding + o.receive.toNat) := hp
      show 0 < W.receive * s.outstanding
      rw [Nat.mul_add] at hpos
      omega
    | loc l' cause' =>
      obtain ⟨hbusy, hpos⟩ := hp
      rcases busy_update hbusy with hl' | hbusy
      · cases hnext : o.next with
        | none => rw [Outcome.worker, hnext] at hl'; cases hl'
        | some l₁ =>
          rw [Outcome.worker, hnext, Worker.busy.injEq] at hl'
          rw [hnext, Option.elim_some, hl'.1] at hle
          omega
      · exact ⟨hbusy, hpos⟩
    | spent =>
      have hzero : W.total (s.exec t cause o) = 0 := hp
      show W.total s = 0
      omega
  · have hl := Nat.pos_of_ne_zero hl
    exact Meets.moved hone (occupied_placeAfter hm.1 ht hl)
      (O.exec hl ho (hm.2 (.loc l cause) ⟨⟨t, ht⟩, hl⟩))

/-- A thread that moves, and takes no turn up or puts one down. -/
theorem Meets.update (hm : Meets W A s) {t : Tid} {x : Worker Loc}
    (hx : x.weight W.loc = (s.worker t).weight W.loc)
    (hA : ∀ l cause, x = .busy l cause → 0 < W.loc l → A (.loc l cause) s.world) :
    Meets W A { s with worker := Function.update s.worker t x } := by
  have htotal := W.total_update hx
  refine ⟨htotal.trans_le hm.1, fun p hp => ?_⟩
  cases p with
  | main m => exact hm.2 _ hp
  | job j => exact hm.2 _ hp
  | receiving => exact hm.2 .receiving hp
  | loc l cause =>
    obtain ⟨hbusy, hpos⟩ := hp
    rcases busy_update hbusy with hl | hbusy
    · exact hA l cause hl hpos
    · exact hm.2 (.loc l cause) ⟨hbusy, hpos⟩
  | spent => exact hm.2 .spent (htotal.symm.trans hp)

theorem Meets.mainStep (O : Outline W A) (hm : Meets W A s) {joined : Bool}
    {o : MainOutcome Task MainLoc Shared}
    (ho : P.main s.main s.world.shared s.world.stopped joined = some o) :
    Meets W A (s.mainStep o) := by
  have htotal := W.total_mainStep (s := s) o
  have hle := W.main_le ho
  have hone : W.total (s.mainStep o) ≤ 1 := by
    have := hm.1
    omega
  by_cases hmain : W.main s.main = 0
  · refine hm.kept hone (fun p hp => ?_) fun p => O.main_stable hmain ho
    cases p with
    | main m =>
      obtain ⟨hnext, hpos⟩ := hp
      rw [← hnext] at hpos
      have hpos' : 0 < W.main o.next := hpos
      omega
    | job j =>
      obtain ⟨hj, hpos⟩ := hp
      rcases List.mem_append.mp hj with hj | hj
      · exact ⟨hj, hpos⟩
      · cases hpost : o.post with
        | none => rw [hpost] at hj; cases hj
        | some τ =>
          rw [hpost] at hj
          rw [List.mem_singleton.mp hj] at hpos
          rw [hpost, Option.elim_some] at hle
          have hpos' : 0 < W.task τ := hpos
          omega
    | receiving => exact hp
    | loc l cause => exact hp
    | spent =>
      have hzero : W.total (s.mainStep o) = 0 := hp
      show W.total s = 0
      omega
  · have hmain := Nat.pos_of_ne_zero hmain
    refine Meets.moved hone ?_ (O.mainStep hmain ho (hm.2 (.main s.main) ⟨rfl, hmain⟩))
    unfold Weight.placeAfterMain
    by_cases hnext : 0 < W.main o.next
    · rw [if_pos hnext]
      exact ⟨rfl, hnext⟩
    rw [if_neg hnext]
    have := hm.1
    cases hpost : o.post with
    | none =>
      rw [hpost, Option.elim_none] at htotal
      show W.total (s.mainStep o) = 0
      omega
    | some τ =>
      rw [hpost, Option.elim_some] at htotal
      by_cases hτ : 0 < W.task τ
      · simp only [if_pos hτ]
        refine ⟨List.mem_append_right _ ?_, hτ⟩
        rw [hpost]
        exact List.mem_cons_self
      · simp only [if_neg hτ]
        show W.total (s.mainStep o) = 0
        omega

/-- **The steps of a pool keep to the outline.** -/
theorem Outline.invariant (O : Outline W A) :
    Invariant P (Meets W A : State words Tid Task Loc MainLoc Shared Record → Prop) where
  complete hm hpos := hm.complete O _ hpos
  start hm ht hk := hm.start O ht hk
  exec hm ht ho := hm.exec O ht ho
  wake {s t l l' cause} hm ht hl := by
    refine hm.update (by rw [ht]; exact W.wake_eq hl) fun l₁ cause₁ hx hpos => ?_
    rw [Worker.busy.injEq] at hx
    rw [← hx.1, W.wake_eq hl] at hpos
    rw [← hx.1, ← hx.2]
    exact O.wake hl (hm.2 (.loc l cause) ⟨⟨t, ht⟩, hpos⟩)
  leave hm ht _ := hm.update (by rw [ht]; rfl) nofun
  main hm ho := hm.mainStep O ho

/-- **So it is met in every state a run reaches.** -/
theorem Outline.meets (O : Outline W A) (hmain : W.main P.mainInit = 1)
    (h0 : A (.main P.mainInit) ⟨P.sharedInit, false, b, [], []⟩)
    (hs : (machine Tid P b).Reachable s) : Meets W A s := by
  refine O.invariant.of_reachable ?_ hs
  have htotal : W.total (State.new P b : State words Tid Task Loc MainLoc Shared Record) = 1 := by
    simp [Weight.total, State.new, Weight.readySum, Threads.total, hmain]
  exact Meets.moved htotal.le (p := .main P.mainInit) ⟨rfl, by omega⟩ h0

end Pool

end TestBuffer
