import TestBuffer.Common.Outline
import TestBuffer.Sync.Model
/-!
# `buf-sync` — the one `client_reader`

Main posts `client_reader` once, and it never returns: whoever picks it is
the only thread ever to call `Dequeue`. So no other thread holds
`m_mutex`, and it is held exactly while the reader is past its lock
(`assertion_of_reads`). Nothing here depends on how many `client_writer`s are
posted or with which numbers, so main is taken with any list of them.
-/

namespace TestBuffer

namespace Sync

/-! ## Any list of `client_writer` posts -/

/-- The steps of main, which posts a `client_writer` for each of `ids`. -/
def mainPosting (ids : List (BitVec 32)) (m : MainLoc) (sh : Shared) (stopped joined : Bool) :
    Option (Pool.MainOutcome Task MainLoc Shared) :=
  match m with
  | .loop i =>
    if i < ids.length then some { next := .get i, shared := sh }
    else some { next := .stop, shared := sh }
  | .postClientWriter i =>
    some { next := .loop (i + 1), shared := sh, post := some (.clientWriter (ids.getD i 1)) }
  | m => main m sh stopped joined

/-- **`buf-sync` with any posts.** -/
def posting (ids : List (BitVec 32)) : Pool.Program bufLen Task Loc MainLoc Shared (BitVec 32) :=
  { program with main := mainPosting ids }

/-- `buf-sync` posts ten, each with the number 1. -/
theorem posting_eq_program : posting (List.replicate 10 1) = program := by
  have hmain : mainPosting (List.replicate 10 1) = main := by
    funext m sh stopped joined
    cases m with
    | postClientWriter i =>
      have hone : (List.replicate 10 (1 : BitVec 32)).getD i 1 = 1 := by
        rw [List.getD_eq_getElem?_getD, List.getElem?_replicate]
        split <;> rfl
      rw [mainPosting, hone]
      rfl
    | _ => rfl
  rw [posting, hmain]
  rfl

/-- **The steps of main**, one constructor for each. -/
inductive MainStep (ids : List (BitVec 32)) (sh : Shared) (joined : Bool) :
    MainLoc → Pool.MainOutcome Task MainLoc Shared → Prop
  | start : MainStep ids sh joined .start { next := .postClientReader, shared := sh }
  | postClientReader : MainStep ids sh joined .postClientReader
      { next := .postHandleData, shared := sh, post := some .clientReader }
  | postHandleData : MainStep ids sh joined .postHandleData
      { next := .loop 0, shared := sh, post := some .handleData }
  | more {i : ℕ} (h : i < ids.length) :
      MainStep ids sh joined (.loop i) { next := .get i, shared := sh }
  | enough {i : ℕ} (h : ¬ i < ids.length) :
      MainStep ids sh joined (.loop i) { next := .stop, shared := sh }
  | get {i : ℕ} : MainStep ids sh joined (.get i) { next := .postClientWriter i, shared := sh }
  | postClientWriter {i : ℕ} : MainStep ids sh joined (.postClientWriter i)
      { next := .loop (i + 1), shared := sh, post := some (.clientWriter (ids.getD i 1)) }
  | stop : MainStep ids sh joined .stop { next := .join, shared := sh, stop := true }
  | join (h : joined = true) : MainStep ids sh joined .join { next := .done, shared := sh }

/-- **Every step of main is one of them.** -/
theorem mainStep_of_main {ids : List (BitVec 32)} {m : MainLoc} {sh : Shared} {st joined : Bool}
    {o : Pool.MainOutcome Task MainLoc Shared} (h : (posting ids).main m sh st joined = some o) :
    MainStep ids sh joined m o := by
  change mainPosting ids m sh st joined = some o at h
  cases m with
  | start => cases h; exact .start
  | postClientReader => cases h; exact .postClientReader
  | postHandleData => cases h; exact .postHandleData
  | loop i =>
    by_cases hi : i < ids.length
    · rw [mainPosting, if_pos hi] at h
      cases h
      exact .more hi
    · rw [mainPosting, if_neg hi] at h
      cases h
      exact .enough hi
  | get i => cases h; exact .get
  | postClientWriter i => cases h; exact .postClientWriter
  | stop => cases h; exact .stop
  | join =>
    obtain ⟨hjoined, ho⟩ := Option.ite_none_right_eq_some.mp h
    cases ho
    exact .join hjoined
  | done => cases h

theorem MainStep.shared_eq {ids : List (BitVec 32)} {m : MainLoc} {sh : Shared} {joined : Bool}
    {o : Pool.MainOutcome Task MainLoc Shared} (h : MainStep ids sh joined m o) : o.shared = sh := by
  cases h <;> rfl

/-! ## The reader's turn -/

/-- In `client_reader`. A `Dequeue` called by another handler would count
too, and there is none. -/
def Loc.reads : Loc → Bool
  | clientReader => true
  | reading _ => true
  | print _ => true
  | receiving l => !l.enqueues
  | writing _ _ l => !l.enqueues
  | _ => false

variable {l l' : Loc} {sh : Shared} {b : Buffer bufLen} {o : Pool.Outcome Loc Shared (BitVec 32)}

/-- The handlers are those of `buf-sync`. -/
theorem step_of_posting {ids : List (BitVec 32)} {st : Bool}
    (ho : (posting ids).exec l sh st b = some o) : Step sh b l o :=
  step_of_exec (show program.exec l sh st b = some o from ho)

/-- A handler that is not `client_reader` leaves the mutex alone. -/
theorem Step.mLocked_eq (ho : Step sh b l o) (hl : l.reads = false) :
    o.shared.queue.mLocked = sh.queue.mLocked := by
  cases ho with
  | receiving hq | writing hq =>
    exact (SynchronisedQueue.step_of_exec hq).mLocked_eq (Bool.not_eq_eq_eq_not.mp hl)
  | dequeue | reading _ | print => cases hl
  | _ => rfl

/-- No handler stops the service. -/
theorem Step.stop_eq (ho : Step sh b l o) : o.stop = false := by
  cases ho <;> rfl

/-- A call that `Enqueue` is stays one, and returns to its handler. -/
theorem reads_inQueue (go : SynchronisedQueue.Loc (BitVec 32) → Loc)
    (back : Option (BitVec 32) → Loc) {lq : SynchronisedQueue.Loc (BitVec 32)}
    {oq : SynchronisedQueue.Outcome (BitVec 32)} (hgo : ∀ l, (go l).reads = !l.enqueues)
    (hback : ∀ x, (back x).reads = false) (hq : SynchronisedQueue.exec lq sh.queue = some oq)
    (hnext : some (oq.next.elim (back oq.result) go) = some l') (hl : (go lq).reads = false) :
    l'.reads = false := by
  cases hn : oq.next with
  | none =>
    rw [hn, Option.elim_none, Option.some.injEq] at hnext
    rw [← hnext, hback]
  | some l₁ =>
    rw [hn, Option.elim_some, Option.some.injEq] at hnext
    rw [← hnext, hgo, (SynchronisedQueue.step_of_exec hq).enqueues_next hn, ← hgo, hl]

/-- So no other handler becomes `client_reader`. -/
theorem Step.reads_next (ho : Step sh b l o) (hnext : o.next = some l') (hl : l.reads = false) :
    l'.reads = false := by
  cases ho with
  | receiving hq =>
    exact reads_inQueue .receiving (fun _ => .count) (fun _ => rfl) (fun _ => rfl) hq hnext hl
  | @writing myid i _ _ hq =>
    exact reads_inQueue (.writing myid i) (fun _ => .clientWriter myid i) (fun _ => rfl)
      (fun _ => rfl) hq hnext hl
  | dequeue | reading _ | print => cases hl
  | written _ | «return» => cases hnext
  | receive | read | count | write _ =>
    cases hnext
    rfl

/-- **The turn of `client_reader`**: main until it has posted it, the task,
and the thread that runs it. -/
def reader (ids : List (BitVec 32)) : Pool.Weight (posting ids) where
  loc l := l.reads.toNat
  task
    | .clientReader => 1
    | _ => 0
  main
    | .start | .postClientReader => 1
    | _ => 0
  receive := 0
  entry_eq τ := by cases τ <;> rfl
  completion_eq _ _ := rfl
  wake_eq h := by
    rw [(wake_eq_some h).1, (wake_eq_some h).2]
    rfl
  exec_le {l sh st b o} ho := by
    cases hnext : o.next with
    | none =>
      rw [Option.elim_none, Nat.zero_mul]
      exact Nat.zero_le _
    | some l' =>
      rw [Option.elim_some, Nat.zero_mul, Nat.add_zero]
      cases hl : l.reads with
      | false => exact (congrArg Bool.toNat ((step_of_posting ho).reads_next hnext hl)).le
      | true => exact Bool.toNat_le _
  main_le h := by
    cases mainStep_of_main h <;> exact le_rfl

/-- **What is true of the mutex** while the reader is at a place: it is
held where the reader is past its lock. -/
def assertion (p : Pool.Place Task Loc MainLoc) (w : Pool.World bufLen Shared (BitVec 32)) : Prop :=
  match p with
  | .loc (.reading l) _ => l.enqueues = false ∧ w.shared.queue.mLocked = l.holding
  | .loc (.receiving _) _ => False
  | .loc (.writing _ _ _) _ => False
  | _ => w.shared.queue.mLocked = false

/-- The outline is about the mutex. -/
theorem assertion_congr {p : Pool.Place Task Loc MainLoc}
    (w w' : Pool.World bufLen Shared (BitVec 32))
    (hlocked : w'.shared.queue.mLocked = w.shared.queue.mLocked) (hA : assertion p w) :
    assertion p w' := by
  unfold assertion at hA ⊢
  rw [hlocked]
  exact hA

/-- **The proof outline of `client_reader`.** -/
theorem outline (ids : List (BitVec 32)) : Pool.Outline (reader ids) assertion where
  start {w j} hpos hA := by
    obtain ⟨τ, cause⟩ := j
    cases τ with
    | clientReader => exact hA
    | _ => exact absurd hpos (lt_irrefl 0)
  complete hpos := absurd hpos (lt_irrefl 0)
  exec {w l cause o} hl ho hA := by
    cases step_of_posting ho with
    | dequeue =>
      rw [Pool.Weight.placeAfter_next _ rfl rfl Nat.one_pos]
      exact ⟨rfl, hA⟩
    | @reading l o' hq =>
      have hstep := SynchronisedQueue.step_of_exec hq
      have hlocked := hstep.mLocked_eq_holding hA.1 hA.2
      cases hnext : o'.next with
      | none =>
        rw [hnext, Option.elim_none] at hlocked
        rw [Pool.Weight.placeAfter_next (l := .print o'.result) _ rfl
          (by rw [inQueue, hnext, Option.elim_none]) Nat.one_pos]
        exact hlocked
      | some l' =>
        rw [hnext, Option.elim_some] at hlocked
        rw [Pool.Weight.placeAfter_next (l := .reading l') _ rfl
          (by rw [inQueue, hnext, Option.elim_some]) Nat.one_pos]
        exact ⟨(hstep.enqueues_next hnext).trans hA.1, hlocked⟩
    | print =>
      rw [Pool.Weight.placeAfter_next _ rfl rfl Nat.one_pos]
      exact hA
    | receiving _ | writing _ => exact hA.elim
    | _ => exact absurd hl (lt_irrefl 0)
  mainStep {w m joined o} hm ho hA := by
    cases mainStep_of_main ho with
    | start =>
      rw [Pool.Weight.placeAfterMain_next _ Nat.one_pos]
      exact hA
    | postClientReader =>
      rw [Pool.Weight.placeAfterMain_post _ rfl rfl Nat.one_pos]
      exact hA
    | _ => exact absurd hm (lt_irrefl 0)
  wake h hA := by
    rw [(wake_eq_some h).1] at hA
    rw [(wake_eq_some h).2]
    exact hA
  complete_stable _ hA := hA
  exec_stable {w l cause o p} hl ho hA :=
    assertion_congr w _ ((step_of_posting ho).mLocked_eq (Bool.toNat_eq_zero.mp hl)) hA
  main_stable {w m joined o p} _ ho hA :=
    assertion_congr w _ (congrArg (·.queue.mLocked) (mainStep_of_main ho).shared_eq) hA

/-- And `client_reader` does not return. -/
theorem Step.exists_reads_next (ho : Step sh b l o) (hl : l.reads = true) {cause : Option ℕ}
    {w : Pool.World bufLen Shared (BitVec 32)} (hA : assertion (.loc l cause) w) :
    ∃ l', o.next = some l' ∧ l'.reads = true := by
  cases ho with
  | dequeue | print => exact ⟨_, rfl, rfl⟩
  | @reading _ oq _ =>
    obtain ⟨l', hnext, ⟨_, rfl⟩ | ⟨_, rfl⟩⟩ := inQueue_next sh .reading .print oq
    · exact ⟨_, hnext, rfl⟩
    · exact ⟨_, hnext, rfl⟩
  | receiving _ | writing _ => exact hA.elim
  | _ => cases hl

variable {ids : List (BitVec 32)} {Tid : Type*} [Fintype Tid] [DecidableEq Tid]
variable {s : Pool.State bufLen Tid Task Loc MainLoc Shared (BitVec 32)}
variable {t u : Tid} {cause cause' : Option ℕ}

/-- Who is in `client_reader` has its turn. -/
theorem reader_pos (hl : l.reads = true) : 0 < (reader ids).loc l :=
  Nat.one_pos.trans_eq (Bool.toNat_eq_one.mpr hl).symm

/-- **One thread at most is in `client_reader`**, -/
theorem reads_unique (hs : (Pool.machine Tid (posting ids) fun _ => 0).Reachable s)
    (ht : s.worker t = .busy l cause) (hl : l.reads = true) (hu : s.worker u = .busy l' cause')
    (hl' : l'.reads = true) : t = u :=
  (reader ids).eq_of_pos ((reader ids).total_le hs) ht (reader_pos hl) hu (reader_pos hl')

/-- and the mutex is held where that thread is past its lock. -/
theorem assertion_of_reads (hs : (Pool.machine Tid (posting ids) fun _ => 0).Reachable s)
    (ht : s.worker t = .busy l cause) (hl : l.reads = true) : assertion (.loc l cause) s.world :=
  ((outline ids).meets rfl rfl hs).2 (.loc l cause) ⟨⟨t, ht⟩, reader_pos hl⟩

end Sync

end TestBuffer
