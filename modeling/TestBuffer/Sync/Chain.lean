import TestBuffer.Common.Handover
import TestBuffer.Sync.Model
import TestBuffer.SynchronisedQueue.Delivery
/-!
# `buf-sync` — one receive after another

`receive_data` issues the next receive once its `Enqueue` has returned, so
the words it enqueues are one for each completion, whatever
`client_writer` and `client_reader` do with the queue beside it
(`handover`), and they are in `m_queue` as they were handed over
(`offered`).
-/

namespace TestBuffer

namespace Sync

/-- **The turn of the receive chain**: the first `handle_data` until it has
issued its receive, an outstanding receive, and a `receive_data` until it
has issued one. -/
def chain : Pool.Weight program where
  loc
    | .handleData | .receiveData | .receiving _ | .count => 1
    | _ => 0
  task
    | .handleData | .receiveData => 1
    | _ => 0
  main
    | .start | .postClientReader | .postHandleData => 1
    | _ => 0
  receive := 1
  entry_eq τ := by cases τ <;> rfl
  completion_eq _ _ := rfl
  wake_eq h := by
    rw [(wake_eq_some h).1, (wake_eq_some h).2]
  exec_le {l sh st b o} h := by
    cases step_of_exec h with
    | @receiving _ o' _ =>
      obtain ⟨l', hnext, ⟨_, rfl⟩ | ⟨_, rfl⟩⟩ := inQueue_next sh .receiving (fun _ => .count) o'
      all_goals rw [hnext]
      all_goals exact le_rfl
    | @writing myid i _ o' _ =>
      obtain ⟨l', hnext, ⟨_, rfl⟩ | ⟨_, rfl⟩⟩ :=
        inQueue_next sh (.writing myid i) (fun _ => .clientWriter myid i) o'
      all_goals rw [hnext]
      all_goals exact le_rfl
    | @reading _ o' _ =>
      obtain ⟨l', hnext, ⟨_, rfl⟩ | ⟨_, rfl⟩⟩ := inQueue_next sh .reading .print o'
      all_goals rw [hnext]
      all_goals exact le_rfl
    | _ => exact le_rfl
  main_le {m sh st j o} h := by
    change main m sh st j = some o at h
    revert h
    fun_cases main m sh st j
    all_goals intro h
    all_goals cases h
    all_goals exact le_rfl

/-- **One push for each completion**, by its `receive_data`. -/
def handover : Pool.Handover chain first where
  before
    | .receiveData => true
    | .receiving l => (pushing l).isSome
    | _ => false
  carries
    | .receiving l => pushing l
    | _ => none
  receive_pos := Nat.one_pos
  main_one := rfl
  entry_carries τ := by cases τ <;> rfl
  completion_before _ _ := rfl
  exec_before {l sh st b o} _ ho hb hc := by
    cases step_of_exec ho with
    | read =>
      exact Or.inr ⟨rfl, rfl, _, rfl, Nat.one_pos, rfl, fun r hr => (Option.some.inj hr).symm⟩
    | @receiving l o' hq =>
      obtain ⟨data, hdata⟩ := Option.isSome_iff_exists.mp hb
      refine Or.inl ⟨hdata.trans (congrArg some (hc _ hdata)), fun l' hl' => ?_⟩
      -- a call that is about to push goes on past the push
      cases l with
      | enqueue data =>
        cases hq
        cases hl'
        rfl
      | _ => cases hdata
    | _ => cases hb
  exec_after {l sh st b o} ho hb := by
    cases step_of_exec ho with
    | read => cases hb
    | @receiving l o' hq =>
      refine ⟨Option.isNone_iff_eq_none.mp (Option.isSome_eq_false_iff.mp hb), fun l' hl' => ?_⟩
      cases SynchronisedQueue.step_of_exec hq with
      | push => cases hb
      | _ => cases hl'; rfl
    | @writing myid i _ o' _ =>
      obtain ⟨l₁, hnext, hl₁⟩ :=
        inQueue_next sh (.writing myid i) (fun _ => .clientWriter myid i) o'
      refine ⟨rfl, fun l' hl' => ?_⟩
      cases hnext.symm.trans hl'
      obtain ⟨_, rfl⟩ | ⟨_, rfl⟩ := hl₁ <;> rfl
    | @reading _ o' _ =>
      obtain ⟨l₁, hnext, hl₁⟩ := inQueue_next sh .reading .print o'
      refine ⟨rfl, fun l' hl' => ?_⟩
      cases hnext.symm.trans hl'
      obtain ⟨_, rfl⟩ | ⟨_, rfl⟩ := hl₁ <;> rfl
    | _ =>
      refine ⟨rfl, fun l' hl' => ?_⟩
      cases hl' <;> rfl
  before_pos {l} hl := by
    cases l <;> first | exact Nat.one_pos | cases hl
  main_post {m sh st j o τ} h hpost := by
    change main m sh st j = some o at h
    revert h
    fun_cases main m sh st j
    all_goals intro h
    all_goals cases h
    all_goals cases hpost
    all_goals rfl
  wake_eq h := by
    rw [(wake_eq_some h).1, (wake_eq_some h).2]
    exact ⟨rfl, rfl⟩

/-- A step of a call pushes the value the call was about to push. -/
theorem pushes_eq {l : SynchronisedQueue.Loc (BitVec 32)} {q : SynchronisedQueue (BitVec 32)}
    {o : SynchronisedQueue.Outcome (BitVec 32)} (h : SynchronisedQueue.exec l q = some o) :
    o.queue.pushes = q.pushes ++ (pushing l).toList := by
  cases SynchronisedQueue.step_of_exec h with
  | push => rfl
  | _ => exact (List.append_nil _).symm

/-- Main leaves the queue to the handlers. -/
theorem main_queue {m : MainLoc} {sh : Shared} {st j : Bool}
    {o : Pool.MainOutcome Task MainLoc Shared} (h : program.main m sh st j = some o) :
    o.shared.queue = sh.queue := by
  change main m sh st j = some o at h
  revert h
  fun_cases main m sh st j
  all_goals intro h
  all_goals cases h
  all_goals rfl

/-- **The words `receive_data` hands over are pushed**, in their order,
among those of `client_writer`, and what was pushed is what was popped and
what is in `m_queue`. -/
theorem offered {Tid : Type*} [Fintype Tid] [DecidableEq Tid]
    {s : Pool.State bufLen Tid Task Loc MainLoc Shared (BitVec 32)}
    (hs : (machine Tid).Reachable s) :
    (s.world.offers.map Pool.Offer.record).Sublist s.world.shared.queue.pushes ∧
      s.world.shared.queue.pops ++ s.world.shared.queue.mQueue = s.world.shared.queue.pushes := by
  refine Pool.records_of_reachable
    (I := fun sh rs => rs.Sublist sh.queue.pushes ∧
      sh.queue.pops ++ sh.queue.mQueue = sh.queue.pushes)
    ⟨.slnil, rfl⟩ ?_ ?_ hs
  · intro sh l st b o rs ih ho
    obtain ⟨hsub, hfifo⟩ := ih
    -- whoever makes it, a step of a call keeps to the queue
    have hcall : ∀ {lq oq}, SynchronisedQueue.exec lq sh.queue = some oq →
        (rs ++ (pushing lq).toList).Sublist oq.queue.pushes ∧
          oq.queue.pops ++ oq.queue.mQueue = oq.queue.pushes := fun hq => by
      rw [pushes_eq hq]
      exact ⟨hsub.append_right _, (SynchronisedQueue.step_of_exec hq).fifo hfifo |>.trans
        (pushes_eq hq)⟩
    cases step_of_exec ho with
    | receiving hq => exact hcall hq
    | writing hq | reading hq =>
      refine ⟨?_, (hcall hq).2⟩
      rw [inQueue, Option.toList_none, List.append_nil]
      exact (List.sublist_append_left _ _).trans (hcall hq).1
    | _ =>
      rw [Option.toList_none, List.append_nil]
      exact ⟨hsub, hfifo⟩
  · intro sh m st joined o rs ih ho
    rw [main_queue ho]
    exact ih

end Sync

end TestBuffer
