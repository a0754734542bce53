import TestBuffer.Common.Handover
import TestBuffer.Server.Model
/-!
# `Server` — one receive after another

No lock and no strand keeps two `decode_data` apart: each passes its turn
on by the one receive it issues, as the last thing it does. The turn is
all there is (`chain`), so `n_count` and `m_data_buffer`, which nothing
protects, are used by one handler at a time, and what the handlers do is
one sequential program (`outline`): it counts to 10001, stops the service
and issues no receive again.
-/

namespace TestBuffer

namespace Server

variable {capacity : ℕ}

/-- **The turn**: the first `handle_data` until it has issued its receive,
an outstanding receive, and a `decode_data` until it has issued one or
returned. -/
def chain (capacity : ℕ) : Pool.Weight (program capacity) where
  loc
    | .returning => 0
    | _ => 1
  task _ := 1
  main
    | .run => 0
    | _ => 1
  receive := 1
  entry_eq τ := by cases τ <;> rfl
  completion_eq _ _ := rfl
  wake_eq := nofun
  exec_le {l sh st b o} h := by
    cases step_of_exec h <;> simp
  main_le {m sh st j o} h := by
    cases m <;> cases h <;> simp

/-- **One `push_front` for each completion**, whatever its error and its
size. -/
def handover (capacity : ℕ) : Pool.Handover (chain capacity) first where
  before
    | .decodeData _ _ | .addToBuffer _ => true
    | _ => false
  carries
    | .addToBuffer counter => some counter
    | _ => none
  receive_pos := Nat.one_pos
  main_one := rfl
  entry_carries τ := by cases τ <;> rfl
  completion_before _ _ := rfl
  exec_before {l sh st b o} _ ho hb hc := by
    cases step_of_exec ho with
    | read => exact Or.inr ⟨rfl, rfl, _, rfl, Nat.one_pos, rfl, fun r hr => (Option.some.inj hr).symm⟩
    | push =>
      refine Or.inl ⟨congrArg some (hc _ rfl), fun l' hl' => ?_⟩
      cases hl'
      rfl
    | _ => cases hb
  exec_after {l sh st b o} ho hb := by
    cases step_of_exec ho with
    | read | push => cases hb
    | _ =>
      refine ⟨rfl, fun l' hl' => ?_⟩
      cases hl' <;> rfl
  before_pos {l} hl := by
    cases l <;> first | exact Nat.one_pos | cases hl
  main_post {m sh st j o τ} h hpost := by
    cases m with
    | start | run => cases h <;> cases hpost
    | listen =>
      cases h
      cases hpost
      rfl
  wake_eq := nofun

/-- **What is true while the turn is at a place.** -/
def assertion (p : Pool.Place Task Loc MainLoc) (w : Pool.World maxBufLen Shared (BitVec 32)) :
    Prop :=
  match p with
  | .loc (.test took) _ => took = w.shared.nCount ∧ w.shared.nCount ≤ 10001 ∧ w.shared.stops = []
  | .loc (.stop took) _ => took = w.shared.nCount ∧ w.shared.nCount = 10001 ∧ w.shared.stops = []
  | .loc .stopped _ => w.shared.nCount = 10001 ∧ w.shared.stops = [10001]
  | .spent => w.shared.nCount = 10001 ∧ w.shared.stops = [10001]
  | _ => w.shared.nCount ≤ 10000 ∧ w.shared.stops = []

/-- **The handlers' proof outline.** -/
theorem outline (capacity : ℕ) : Pool.Outline (chain capacity) assertion where
  start {w j} _ hA := by
    obtain ⟨τ, cause⟩ := j
    cases τ <;> exact hA
  complete _ hA := hA
  exec {w l cause o} hl ho hA := by
    cases step_of_exec ho with
    | receive _ =>
      rw [Pool.Weight.placeAfter_receive _ rfl Nat.one_pos]
      exact hA
    | «return» => exact absurd hl (lt_irrefl 0)
    | read | push =>
      rw [Pool.Weight.placeAfter_next _ rfl rfl Nat.one_pos]
      exact hA
    | count =>
      rw [Pool.Weight.placeAfter_next _ rfl rfl Nat.one_pos]
      exact ⟨rfl, Nat.succ_le_succ hA.1, hA.2⟩
    | limit h =>
      -- past 10000 and not past 10001, so at 10001, and stopped for the first time
      rw [Pool.Weight.placeAfter_next _ rfl rfl Nat.one_pos]
      exact ⟨hA.1, le_antisymm hA.2.1 h, hA.2.2⟩
    | rearm h =>
      rw [Pool.Weight.placeAfter_next _ rfl rfl Nat.one_pos]
      exact ⟨not_lt.mp h, hA.2.2⟩
    | stop =>
      rw [Pool.Weight.placeAfter_next _ rfl rfl Nat.one_pos]
      refine ⟨hA.2.1, ?_⟩
      show w.shared.stops ++ [_] = [10001]
      rw [hA.2.2, hA.1, hA.2.1]
      rfl
    | finish =>
      rw [Pool.Weight.placeAfter_return _ rfl rfl]
      exact hA
  mainStep {w m joined o} hm ho hA := by
    cases m with
    | start =>
      cases ho
      rw [Pool.Weight.placeAfterMain_next _ Nat.one_pos]
      exact hA
    | listen =>
      cases ho
      rw [Pool.Weight.placeAfterMain_post _ rfl rfl Nat.one_pos]
      exact hA
    | run => cases ho
  wake := nofun
  complete_stable h := absurd h Nat.one_ne_zero
  exec_stable {w l cause o p} hl ho hA := by
    cases step_of_exec ho with
    | «return» => exact hA
    | _ => exact absurd hl Nat.one_ne_zero
  main_stable {w m joined o p} hm ho hA := by
    cases m with
    | start | listen => exact absurd hm Nat.one_ne_zero
    | run => cases ho

variable {Tid : Type*} [Fintype Tid] [DecidableEq Tid] {b : Buffer maxBufLen}
variable {s : Pool.State maxBufLen Tid Task Loc MainLoc Shared (BitVec 32)}

/-- While the service has not been told to stop there is nothing to say of
a place but that no more than 10001 were counted; afterwards the turn is
spent, or with the `decode_data` that told it. -/
theorem assertion_cases {p : Pool.Place Task Loc MainLoc}
    {w : Pool.World maxBufLen Shared (BitVec 32)} (hA : assertion p w) :
    (w.shared.nCount ≤ 10001 ∧ w.shared.stops = []) ∨
      (w.shared.nCount = 10001 ∧ w.shared.stops = [10001] ∧
        (p = .spent ∨ ∃ cause, p = .loc .stopped cause)) := by
  unfold assertion at hA
  split at hA
  · exact Or.inl hA.2
  · exact Or.inl ⟨hA.2.1.le, hA.2.2⟩
  · exact Or.inr ⟨hA.1, hA.2, Or.inr ⟨_, rfl⟩⟩
  · exact Or.inr ⟨hA.1, hA.2, Or.inl rfl⟩
  · exact Or.inl ⟨by omega, hA.2⟩

/-- **Once the service has been told to stop no receive is outstanding.** -/
theorem outstanding_eq_zero (hm : Pool.Meets (chain capacity) assertion s)
    (hstops : s.world.shared.stops ≠ []) : s.outstanding = 0 := by
  obtain ⟨p, hp⟩ := (chain capacity).exists_occupied s
  obtain ⟨_, hnil⟩ | ⟨_, _, hplace⟩ := assertion_cases (hm.2 p hp)
  · exact absurd hnil hstops
  by_contra hne
  have hreceiving : (chain capacity).Occupied s .receiving := by
    show 0 < 1 * s.outstanding
    omega
  have hq := hp.unique hm.1 hreceiving
  rcases hplace with rfl | ⟨cause, rfl⟩ <;> cases hq

/-- What holds from the call of `stop` on, after a sequence of receives. -/
structure Quiet (capacity : ℕ) (cs : List Completion)
    (s : Pool.State maxBufLen Tid Task Loc MainLoc Shared (BitVec 32)) : Prop where
  meets : Pool.Meets (chain capacity) assertion s
  stopped : s.world.shared.stops ≠ []
  completions_eq : s.world.completions = cs

/-- **It stays so**: no receive is there to complete. -/
theorem quiet (cs : List Completion) : Pool.Invariant (program capacity)
    (Quiet capacity cs : Pool.State maxBufLen Tid Task Loc MainLoc Shared (BitVec 32) → Prop) where
  complete {s c} Q hpos := by
    have := outstanding_eq_zero Q.meets Q.stopped
    omega
  start Q ht hk := ⟨(outline capacity).invariant.start Q.meets ht hk, Q.stopped, Q.completions_eq⟩
  exec {s t l cause o} Q ht ho := by
    refine ⟨(outline capacity).invariant.exec Q.meets ht ho, ?_, Q.completions_eq⟩
    have hstopped := Q.stopped
    show o.shared.stops ≠ []
    cases step_of_exec ho with
    | stop => simp
    | _ => exact hstopped
  wake Q ht hl := ⟨(outline capacity).invariant.wake Q.meets ht hl, Q.stopped, Q.completions_eq⟩
  leave Q ht hst := ⟨(outline capacity).invariant.leave Q.meets ht hst, Q.stopped, Q.completions_eq⟩
  main {s joined o} Q ho := by
    refine ⟨(outline capacity).invariant.main Q.meets ho, ?_, Q.completions_eq⟩
    show o.shared.stops ≠ []
    obtain ⟨-, socket, hsh⟩ := main_shared ho
    rw [hsh]
    exact Q.stopped

/-- A `decode_data` between its push and its `counter++`. -/
def Loc.isCount : Loc → Bool
  | .count => true
  | _ => false

/-- A push is owed its `counter++` until the step that makes it. -/
theorem exec_count {w : Pool.World maxBufLen Shared (BitVec 32)} {l : Loc}
    {o : Pool.Outcome Loc Shared (BitVec 32)} (cause : Option ℕ)
    (h : (program capacity).exec l w.shared w.stopped w.buffer = some o) :
    (w.after o cause).offers.length + w.shared.nCount + l.isCount.toNat =
      w.offers.length + (w.after o cause).shared.nCount + o.next.elim 0 (·.isCount.toNat) := by
  cases step_of_exec h <;>
    simp [Pool.World.after, declareNbytes, storeBytes, addToBuffer, Loc.isCount]
  all_goals omega

/-- **The pushes, and the `counter++` still to come.** -/
def account (capacity : ℕ) : Pool.Account (program capacity) where
  credit w := w.offers.length
  debit w := w.shared.nCount
  loc l := l.isCount.toNat
  entry_eq τ := by cases τ <;> rfl
  wake_eq := nofun
  complete_eq _ _ := ⟨rfl, rfl⟩
  exec_eq := exec_count
  main_eq h := by
    obtain ⟨-, socket, hsh⟩ := main_shared h
    rw [Pool.World.afterMain, hsh]
    exact ⟨rfl, rfl⟩

/-- **What is handed over is what is pushed**: the buffer is what the calls
of `push_front` make of a new one, in their order. -/
theorem buffer_eq (hs : (machine Tid capacity b).Reachable s) :
    s.world.shared.mBoundedBuffer =
      (s.world.offers.map Pool.Offer.record).foldl BoundedBuffer.pushFront (.new capacity) := by
  refine Pool.records_of_reachable
    (I := fun sh rs => sh.mBoundedBuffer = rs.foldl BoundedBuffer.pushFront (.new capacity))
    rfl ?_ ?_ hs
  · intro sh l st b o rs ih ho
    cases step_of_exec ho with
    | push =>
      rw [Option.toList_some, List.foldl_concat, ← ih]
      rfl
    | _ =>
      rw [Option.toList_none, List.append_nil]
      exact ih
  · intro sh m st joined o rs ih ho
    obtain ⟨-, socket, hsh⟩ := main_shared ho
    rw [hsh]
    exact ih

/-- **The service has been told to stop** where `stop` has been called. -/
theorem stopped_iff (hs : (machine Tid capacity b).Reachable s) :
    s.world.stopped = true ↔ s.world.shared.stops ≠ [] := by
  refine Pool.world_of_reachable
    (I := fun w => w.stopped = true ↔ w.shared.stops ≠ []) ?_ id ?_ ?_ hs
  · exact ⟨nofun, fun h => absurd rfl h⟩
  · intro w l cause o ih ho
    show (w.stopped || o.stop) = true ↔ o.shared.stops ≠ []
    cases step_of_exec ho with
    | stop => simp
    | _ =>
      rw [Bool.or_false]
      exact ih
  · intro w m joined o ih ho
    obtain ⟨hstop, socket, hsh⟩ := main_shared ho
    show (w.stopped || o.stop) = true ↔ o.shared.stops ≠ []
    rw [hstop, Bool.or_false, hsh]
    exact ih

/-- **The receive chain is serial**, counts every push, and stops the
service once. -/
structure Serial (capacity : ℕ) (b : Buffer maxBufLen)
    (s : Pool.State maxBufLen Tid Task Loc MainLoc Shared (BitVec 32)) :
    Prop where
  /-- There is one turn at most. -/
  one : (chain capacity).total s ≤ 1
  /-- The calls of `push_front` are those counted and the one whose
  `counter++` is still to come. -/
  pushes_eq : s.world.offers.length =
    s.world.shared.nCount + Threads.count (Pool.Worker.at? Loc.isCount) s.worker
  /-- They are the calls that made `m_bounded_buffer` what it is, -/
  buffer_eq : s.world.shared.mBoundedBuffer =
    (s.world.offers.map Pool.Offer.record).foldl BoundedBuffer.pushFront (.new capacity)
  /-- which holds the last of the words they pushed, newest first. -/
  items_eq : s.world.shared.mBoundedBuffer.mContainer.items =
    (s.world.offers.map Pool.Offer.record).reverse.take capacity
  pushing_le : Threads.count (Pool.Worker.at? Loc.isCount) s.worker ≤ 1
  count_le : s.world.shared.nCount ≤ 10001
  /-- `stop` has not been called, or once, by the `decode_data` that took
  `n_count` to 10001. -/
  stops_eq : s.world.shared.stops = [] ∨ s.world.shared.stops = [10001]
  stopped_iff : s.world.stopped = true ↔ s.world.shared.stops ≠ []
  /-- After it no receive is outstanding, in this state or any later one. -/
  quiet : s.world.shared.stops ≠ [] → ∀ as s',
    (machine Tid capacity b).run s as = some s' →
      s'.outstanding = 0 ∧ s'.world.completions = s.world.completions

/-- **`Server`'s receive chain is serial in every reachable state.** -/
theorem serial (hs : (machine Tid capacity b).Reachable s) : Serial capacity b s := by
  have hm := (outline capacity).meets rfl ⟨Nat.zero_le _, rfl⟩ hs
  have hbalance := (account capacity).balance hs rfl
  have hcount := Pool.Worker.count_at? Loc.isCount s.worker
  obtain ⟨p, hp⟩ := (chain capacity).exists_occupied s
  have hcases := assertion_cases (hm.2 p hp)
  have hbuffer := buffer_eq hs
  refine ⟨hm.1, ?_, hbuffer, ?_, ?_, ?_, ?_, stopped_iff hs, ?_⟩
  · rw [hcount]
    exact hbalance
  · rw [hbuffer, BoundedBuffer.foldl_pushFront]
    exact (Ring.foldl_pushFront capacity _).2
  · refine le_trans ((chain capacity).count_le_total fun l => ?_) hm.1
    cases l <;> simp [Loc.isCount, chain]
  · exact hcases.elim (fun h => h.1) fun h => h.1.le
  · exact hcases.imp (fun h => h.2) fun h => h.2.1
  · intro hstops as s' hrun
    have Q := (quiet s.world.completions).of_run ⟨hm, hstops, rfl⟩ as hrun
    exact ⟨outstanding_eq_zero Q.meets Q.stopped, Q.completions_eq⟩

/-- A completion picked up before the `handle_data` that issued its receive
has returned, its word pushed and not yet counted. -/
theorem serial_of_push :
    ∃ s, (machine (Fin 2) 1000 fun _ => 0).Reachable s ∧ s.worker 0 = .busy .returning none ∧
      s.worker 1 = .busy .count (some 0) ∧ s.world.offers = [⟨some 0, 7⟩] ∧
      s.world.shared.mBoundedBuffer.mContainer.items = [7] ∧
      Serial 1000 (fun _ => 0) s := by
  have hrun : (machine (Fin 2) 1000 fun _ => 0).Reachable _ :=
    Machine.reachable_of_run (.init rfl)
      [.main, .main, .start 0 0, .exec 0 none, .complete (.success [7, 0, 0, 0]), .start 1 0,
        .exec 1 none, .exec 1 none] rfl
  exact ⟨_, hrun, rfl, rfl, rfl, rfl, serial hrun⟩

end Server

end TestBuffer
