import TestBuffer.Common.Handover
import TestBuffer.Moody.Model
/-!
# `buf-moody` — the queue between the handlers

The arrays enqueued are those dequeued and those in `inner`
(`dequeued_append_inner`), and each is the whole of `data_buffer` after one
receive (`handover`). `sema` is behind `inner` by the signals still to come
and the dequeues still to be made (`account`), so a dequeue never fails
once `sema` was taken, and the vendored `assert` holds (`inner_ne_nil`). That the two
are the members of a `BlockingReaderWriterQueue` is in `Moody.Calls`.
-/

namespace TestBuffer

namespace Moody

/-- **The turn of the receive chain**: the first `handle_data` until it has
issued its receive, an outstanding receive, and a `receive_data` until it
has issued one or returned. -/
def chain : Pool.Weight program where
  loc
    | .returning | .readData | .peek | .tryDequeue | .dequeue | .scan _ => 0
    | _ => 1
  task := Task.receives
  main := Pool.due MainLoc.left Task.receives
  receive := 1
  entry_eq τ := by cases τ <;> rfl
  completion_eq _ _ := rfl
  wake_eq := nofun
  exec_le {l sh st b o} h := by
    cases step_of_exec h
    all_goals first | exact le_rfl | exact Nat.zero_le _
  main_le h := Pool.due_le (main_left h) _

/-- **The turn of `read_data`**, which no receive has. -/
def reading : Pool.Weight program where
  loc
    | .readData | .peek | .tryDequeue | .dequeue | .scan _ => 1
    | _ => 0
  task := Task.reads
  main := Pool.due MainLoc.left Task.reads
  receive := 0
  entry_eq τ := by cases τ <;> rfl
  completion_eq _ _ := rfl
  wake_eq := nofun
  exec_le {l sh st b o} h := by
    cases step_of_exec h
    all_goals first | exact le_rfl | exact Nat.zero_le _
  main_le h := Pool.due_le (main_left h) _

/-- **One enqueue for each completion**, of the whole buffer. -/
def handover : Pool.Handover chain word where
  before
    | .receiveData | .enqueue _ => true
    | _ => false
  carries
    | .enqueue data => some data
    | _ => none
  receive_pos := Nat.one_pos
  main_one := rfl
  entry_carries τ := by cases τ <;> rfl
  completion_before _ _ := rfl
  exec_before {l sh st b o} _ ho hb hc := by
    cases step_of_exec ho with
    | copy => exact Or.inr ⟨rfl, rfl, _, rfl, Nat.one_pos, rfl, fun r hr => (Option.some.inj hr).symm⟩
    | enqueue =>
      refine Or.inl ⟨congrArg some (hc _ rfl), fun l' hl' => ?_⟩
      cases hl'
      rfl
    | _ => cases hb
  exec_after {l sh st b o} ho hb := by
    cases step_of_exec ho with
    | copy | enqueue => cases hb
    | _ =>
      refine ⟨rfl, fun l' hl' => ?_⟩
      cases hl' <;> rfl
  before_pos {l} hl := by
    cases l <;> first | exact Nat.one_pos | cases hl
  main_post {m sh st j o τ} h hpost := by
    obtain ⟨rfl, rfl⟩ | ⟨rfl, rfl⟩ | ⟨_, _, hnone, _⟩ := main_cases h
    · cases hpost
      rfl
    · cases hpost
      rfl
    · rw [hnone] at hpost
      cases hpost
  wake_eq := nofun

/-- Main changes nothing the handlers share. -/
theorem main_shared {m : MainLoc} {sh : Shared} {st joined : Bool}
    {o : Pool.MainOutcome Task MainLoc Shared} (h : program.main m sh st joined = some o) :
    o.shared = sh := by
  obtain ⟨_, rfl⟩ | ⟨_, rfl⟩ | ⟨_, _, _, hsh⟩ := main_cases h
  · rfl
  · rfl
  · exact hsh

/-- `enqueue` between its write to `inner` and its `sema.signal()`, or
`try_dequeue` between its `sema.tryWait()` and its read of `inner`. -/
def Loc.behind : Loc → Bool
  | .signal | .dequeue => true
  | .handleData | .returning | .receiveData | .enqueue _ | .check | .shutDown | .closed => false
  | .readData | .peek | .tryDequeue | .scan _ => false

/-- **The arrays in `inner`**, against the semaphore and what the two
handlers have in hand. -/
def account : Pool.Account program where
  credit w := w.shared.inner.length
  debit w := w.shared.sema
  loc l := l.behind.toNat
  entry_eq τ := by cases τ <;> rfl
  wake_eq := nofun
  complete_eq _ _ := ⟨rfl, rfl⟩
  exec_eq {w l o} cause h := by
    cases step_of_exec h with
    | dequeue hinner =>
      simp only [Pool.World.after, Loc.behind, hinner, List.length_cons, Option.elim_some,
        Bool.toNat_true, Bool.toNat_false]
      omega
    | enqueue =>
      simp only [Pool.World.after, Loc.behind, List.length_append, List.length_singleton,
        Option.elim_some, Bool.toNat_true, Bool.toNat_false]
      omega
    | signal | take _ =>
      simp only [Pool.World.after, Loc.behind, Option.elim_some, Bool.toNat_true, Bool.toNat_false]
      omega
    | _ => rfl
  main_eq {w m joined o} h := by
    unfold Pool.World.afterMain
    rw [main_shared h]
    exact ⟨rfl, rfl⟩

variable {Tid : Type*} [Fintype Tid] [DecidableEq Tid]
variable {s : Pool.State udpLen Tid Task Loc MainLoc Shared Data}

/-- **A dequeue finds an array** once `sema` was taken. -/
theorem inner_ne_nil (hs : (machine Tid).Reachable s) {t : Tid} {cause : Option ℕ}
    (ht : s.worker t = .busy .dequeue cause) : s.world.shared.inner ≠ [] := by
  have hbalance : s.world.shared.inner.length = s.world.shared.sema +
      Threads.total (Pool.Worker.weight fun l => l.behind.toNat) s.worker := account.balance hs rfl
  have hbehind := Threads.le_total (Pool.Worker.weight fun l : Loc => l.behind.toNat) s.worker t
  rw [ht, Pool.Worker.weight_busy] at hbehind
  have hone : (Loc.behind .dequeue).toNat = 1 := rfl
  intro hnil
  rw [hnil, List.length_nil] at hbalance
  omega

/-- **The queue is a FIFO**: what was enqueued is what was dequeued, and
what is in `inner`. -/
theorem dequeued_append_inner (hs : (machine Tid).Reachable s) :
    s.world.shared.dequeued ++ s.world.shared.inner = s.world.offers.map Pool.Offer.record := by
  refine Pool.records_of_reachable (I := fun sh rs => sh.dequeued ++ sh.inner = rs) rfl ?_ ?_ hs
  · intro sh l st b o rs ih ho
    rw [← ih]
    cases step_of_exec ho with
    | enqueue => exact (List.append_assoc _ _ _).symm
    | dequeue hinner => rw [hinner, List.append_assoc]; exact (List.append_nil _).symm
    | _ => exact (List.append_nil _).symm
  · intro sh m st joined o rs ih ho
    rw [main_shared ho]
    exact ih

end Moody

end TestBuffer
