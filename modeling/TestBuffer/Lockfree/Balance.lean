import TestBuffer.Common.Handover
import TestBuffer.Lockfree.Model
/-!
# `buf-lockfree` — nothing is lost or made up

Two counters and a queue are updated by separate steps of two handlers. A
step on the queue is atomic, so what was pushed is what was popped and what
is queued (`conserved`), and every word handed over was pushed or failed
(`offered`). The counters are off by what the two handlers have
done and not yet counted, or counted and not yet done (`account`). And
`read_data` is one handler, which prints what it popped before it pops
again (`outline`).
-/

namespace TestBuffer

namespace Lockfree

/-- **The turn of the receive chain**: the first `handle_data` until it has
issued its receive, an outstanding receive, and a `receive_data` until it
has issued one or returned. -/
def chain : Pool.Weight program where
  loc
    | .returning | .readData | .pop | .print _ | .printed => 0
    | _ => 1
  task := Task.receives
  main := Pool.due MainLoc.left Task.receives
  receive := 1
  entry_eq τ := by cases τ <;> rfl
  completion_eq _ _ := rfl
  wake_eq := nofun
  exec_le {l sh st b o} h := by
    cases step_of_exec h
    all_goals first | exact le_rfl | exact Nat.zero_le _
  main_le h := Pool.due_le (main_left h) _

/-- **The turn of `read_data`**, which no receive has. -/
def reading : Pool.Weight program where
  loc
    | .readData | .pop | .print _ | .printed => 1
    | _ => 0
  task := Task.reads
  main := Pool.due MainLoc.left Task.reads
  receive := 0
  entry_eq τ := by cases τ <;> rfl
  completion_eq _ _ := rfl
  wake_eq := nofun
  exec_le {l sh st b o} h := by
    cases step_of_exec h
    all_goals first | exact le_rfl | exact Nat.zero_le _
  main_le h := Pool.due_le (main_left h) _

/-- **One push for each completion.** -/
def handover : Pool.Handover chain first where
  before
    | .receiveData | .counted | .push _ => true
    | _ => false
  carries
    | .push value => some value
    | _ => none
  receive_pos := Nat.one_pos
  main_one := rfl
  entry_carries τ := by cases τ <;> rfl
  completion_before _ _ := rfl
  exec_before {l sh st b o} _ ho hb hc := by
    cases step_of_exec ho with
    | count => exact Or.inr ⟨rfl, rfl, _, rfl, Nat.one_pos, rfl, nofun⟩
    | read => exact Or.inr ⟨rfl, rfl, _, rfl, Nat.one_pos, rfl, fun r hr => (Option.some.inj hr).symm⟩
    | push _ | fail _ =>
      refine Or.inl ⟨congrArg some (hc _ rfl), fun l' hl' => ?_⟩
      cases hl'
      rfl
    | _ => cases hb
  exec_after {l sh st b o} ho hb := by
    cases step_of_exec ho with
    | count | read | push _ | fail _ => cases hb
    | _ =>
      refine ⟨rfl, fun l' hl' => ?_⟩
      cases hl' <;> rfl
  before_pos {l} hl := by
    cases l <;> first | exact Nat.one_pos | cases hl
  main_post {m sh st j o τ} h hpost := by
    obtain ⟨rfl, rfl⟩ | ⟨rfl, rfl⟩ | ⟨_, _, hnone, _⟩ := main_cases h
    · cases hpost
      rfl
    · cases hpost
      rfl
    · rw [hnone] at hpost
      cases hpost
  wake_eq := nofun

/-- `receive_data` between its `++producer_count` and its push. -/
def Loc.pushing : Loc → Bool
  | .counted | .push _ => true
  | .handleData | .returning | .receiveData | .unable | .check | .shutDown | .closed => false
  | .readData | .pop | .print _ | .printed => false

/-- `read_data` between a successful pop and its `++consumer_count`. -/
def Loc.popping : Loc → Bool
  | .print _ | .printed => true
  | .handleData | .returning | .receiveData | .counted | .push _ | .unable => false
  | .check | .shutDown | .closed | .readData | .pop => false

/-- **What was produced**, against what was consumed, is queued or failed,
and what the two handlers have in hand. -/
def account : Pool.Account program where
  credit w := w.shared.producerCount
  debit w := w.shared.consumerCount + w.shared.queue.length + w.shared.failed
  loc l := l.pushing.toNat + l.popping.toNat
  entry_eq τ := by cases τ <;> rfl
  wake_eq := nofun
  complete_eq _ _ := ⟨rfl, rfl⟩
  exec_eq {w l o} cause h := by
    cases step_of_exec h with
    | pop hq =>
      -- the value leaves the queue, and is in the reader's hand until it is counted
      simp only [Pool.World.after, Loc.pushing, Loc.popping, hq, List.length_cons,
        Option.elim_some, Bool.toNat_true, Bool.toNat_false]
      omega
    | push _ =>
      simp only [Pool.World.after, Loc.pushing, Loc.popping, List.length_append,
        List.length_singleton, Option.elim_some, Bool.toNat_true, Bool.toNat_false]
      omega
    | count | fail _ | consume =>
      simp only [Pool.World.after, Loc.pushing, Loc.popping, Option.elim_some, Bool.toNat_true,
        Bool.toNat_false]
      omega
    | _ => rfl
  main_eq {w m joined o} h := by
    have hshared : o.shared = w.shared ∨ o.shared = { w.shared with done := true } := by
      obtain ⟨_, rfl⟩ | ⟨_, rfl⟩ | ⟨_, _, _, hsh⟩ := main_cases h
      · exact Or.inl rfl
      · exact Or.inl rfl
      · exact hsh
    unfold Pool.World.afterMain
    rcases hshared with hsh | hsh <;> simp only [hsh, and_self]

/-- **The queue is a FIFO**: what was pushed is what was popped, and what
is queued. -/
theorem conserved {Tid : Type*} [Fintype Tid] [DecidableEq Tid]
    {s : Pool.State udpLen Tid Task Loc MainLoc Shared (BitVec 32)}
    (hs : (machine Tid).Reachable s) :
    s.world.shared.popped ++ s.world.shared.queue = s.world.shared.succeeded := by
  refine Pool.world_of_reachable
    (I := fun w => w.shared.popped ++ w.shared.queue = w.shared.succeeded) rfl id ?_ ?_ hs
  · intro w l cause o ih ho
    show o.shared.popped ++ o.shared.queue = o.shared.succeeded
    cases step_of_exec ho with
    | push _ => rw [← ih, List.append_assoc]
    | pop hq => rw [← ih, hq, List.append_assoc]; rfl
    | _ => exact ih
  · intro w m joined o ih ho
    show o.shared.popped ++ o.shared.queue = o.shared.succeeded
    obtain ⟨_, rfl⟩ | ⟨_, rfl⟩ | ⟨_, _, _, hsh | hsh⟩ := main_cases ho
    · exact ih
    · exact ih
    · rw [hsh]
      exact ih
    · rw [hsh]
      exact ih

/-- **The pushes are those of `receive_data`**: of the words it hands over,
one for each completion, some are pushed and the others fail. -/
theorem offered {Tid : Type*} [Fintype Tid] [DecidableEq Tid]
    {s : Pool.State udpLen Tid Task Loc MainLoc Shared (BitVec 32)}
    (hs : (machine Tid).Reachable s) :
    s.world.shared.succeeded.Sublist (s.world.offers.map Pool.Offer.record) ∧
      s.world.offers.length = s.world.shared.succeeded.length + s.world.shared.failed := by
  have h : s.world.shared.succeeded.Sublist (s.world.offers.map Pool.Offer.record) ∧
      (s.world.offers.map Pool.Offer.record).length =
        s.world.shared.succeeded.length + s.world.shared.failed := by
    refine Pool.records_of_reachable
      (I := fun sh rs => sh.succeeded.Sublist rs ∧ rs.length = sh.succeeded.length + sh.failed)
      ⟨.slnil, rfl⟩ ?_ ?_ hs
    · intro sh l st b o rs ih ho
      obtain ⟨hsub, hlen⟩ := ih
      rw [List.length_append]
      cases step_of_exec ho with
      | push _ =>
        refine ⟨hsub.append_right _, ?_⟩
        show rs.length + 1 = (sh.succeeded ++ [_]).length + sh.failed
        rw [List.length_append, List.length_singleton, hlen]
        exact Nat.add_right_comm _ _ _
      | fail _ =>
        refine ⟨hsub.trans (List.sublist_append_left _ _), ?_⟩
        show rs.length + 1 = sh.succeeded.length + (sh.failed + 1)
        rw [hlen, Nat.add_assoc]
      | _ => exact ⟨hsub.trans (List.sublist_append_left _ _), hlen⟩
    · intro sh m st joined o rs ih ho
      obtain ⟨_, rfl⟩ | ⟨_, rfl⟩ | ⟨_, _, _, hsh | hsh⟩ := main_cases ho
      · exact ih
      · exact ih
      · rw [hsh]
        exact ih
      · rw [hsh]
        exact ih
  rwa [List.length_map] at h

/-- **What is true while `read_data` is at a place**: what it popped is
what it printed, and the value it is about to print. -/
def assertion (p : Pool.Place Task Loc MainLoc) (w : Pool.World udpLen Shared (BitVec 32)) : Prop :=
  match p with
  | .loc (.print value) _ => w.shared.popped = w.shared.output ++ [value]
  | _ => w.shared.popped = w.shared.output

/-- The outline is about what was popped and printed. -/
theorem assertion_congr {p : Pool.Place Task Loc MainLoc}
    (w w' : Pool.World udpLen Shared (BitVec 32)) (hpopped : w'.shared.popped = w.shared.popped)
    (houtput : w'.shared.output = w.shared.output) (hA : assertion p w) : assertion p w' := by
  unfold assertion at hA ⊢
  rw [hpopped, houtput]
  exact hA

/-- **The proof outline of `read_data`.** -/
theorem outline : Pool.Outline reading assertion where
  start {w j} hpos hA := by
    obtain ⟨τ, cause⟩ := j
    cases τ with
    | readData => exact hA
    | handleData | receiveData => exact absurd hpos (lt_irrefl 0)
  complete hpos := absurd hpos (lt_irrefl 0)
  exec {w l cause o} hl ho hA := by
    cases step_of_exec ho with
    | leave _ =>
      rw [Pool.Weight.placeAfter_return _ rfl rfl]
      exact hA
    | loop _ | popNone _ | consume =>
      rw [Pool.Weight.placeAfter_next _ rfl rfl Nat.one_pos]
      exact hA
    | pop hq =>
      rw [Pool.Weight.placeAfter_next _ rfl rfl Nat.one_pos]
      have hpopped : w.shared.popped = w.shared.output := hA
      show w.shared.popped ++ [_] = w.shared.output ++ [_]
      rw [hpopped]
    | print =>
      rw [Pool.Weight.placeAfter_next _ rfl rfl Nat.one_pos]
      exact hA
    | _ => exact absurd hl (lt_irrefl 0)
  mainStep {w m joined o} hm ho hA := by
    obtain ⟨rfl, rfl⟩ | ⟨rfl, rfl⟩ | ⟨hleft, _⟩ := main_cases ho
    · rw [Pool.Weight.placeAfterMain_next _ Nat.one_pos]
      exact hA
    · rw [Pool.Weight.placeAfterMain_post _ rfl rfl Nat.one_pos]
      exact hA
    · cases m with
      | postHandleData | postReadData => cases hleft
      | _ => exact absurd hm (lt_irrefl 0)
  wake := nofun
  complete_stable _ hA := hA
  exec_stable {w l cause o p} hl ho hA := by
    cases step_of_exec ho with
    | leave _ | loop _ | popNone _ | pop _ | print | consume => exact absurd hl Nat.one_ne_zero
    | _ => exact assertion_congr w _ rfl rfl hA
  main_stable {w m joined o p} _ ho hA := by
    obtain ⟨_, rfl⟩ | ⟨_, rfl⟩ | ⟨_, _, _, hsh | hsh⟩ := main_cases ho
    · exact hA
    · exact hA
    · exact assertion_congr w _ (by rw [Pool.World.afterMain, hsh])
        (by rw [Pool.World.afterMain, hsh]) hA
    · exact assertion_congr w _ (by rw [Pool.World.afterMain, hsh])
        (by rw [Pool.World.afterMain, hsh]) hA

variable {Tid : Type*} [Fintype Tid] [DecidableEq Tid]
variable {s : Pool.State udpLen Tid Task Loc MainLoc Shared (BitVec 32)}

/-- **Nothing is printed that was not popped**, or out of order. -/
theorem output_prefix_popped (hs : (machine Tid).Reachable s) :
    s.world.shared.output <+: s.world.shared.popped := by
  have hm := outline.meets rfl rfl hs
  obtain ⟨p, hp⟩ := reading.exists_occupied s
  have hA := hm.2 p hp
  unfold assertion at hA
  split at hA
  · rw [hA]
    exact List.prefix_append _ _
  · rw [hA]

/-- **Items are conserved.** -/
structure Balanced (s : Pool.State udpLen Tid Task Loc MainLoc Shared (BitVec 32)) : Prop where
  /-- The values popped and those queued are those pushed, in order. -/
  conserved : s.world.shared.popped ++ s.world.shared.queue = s.world.shared.succeeded
  /-- They are of the words `receive_data` handed over, in order, -/
  offered : s.world.shared.succeeded.Sublist (s.world.offers.map Pool.Offer.record)
  /-- and the others are the pushes that failed. -/
  offers_eq : s.world.offers.length = s.world.shared.succeeded.length + s.world.shared.failed
  balance : s.world.shared.producerCount =
    s.world.shared.consumerCount + s.world.shared.queue.length + s.world.shared.failed +
      Threads.count (Pool.Worker.at? Loc.pushing) s.worker +
      Threads.count (Pool.Worker.at? Loc.popping) s.worker
  pushing_le : Threads.count (Pool.Worker.at? Loc.pushing) s.worker ≤ 1
  popping_le : Threads.count (Pool.Worker.at? Loc.popping) s.worker ≤ 1
  consumed_le : s.world.shared.consumerCount ≤ s.world.shared.producerCount
  /-- What was printed are the first values pushed, each once. -/
  printed : s.world.shared.output <+: s.world.shared.succeeded

/-- **`buf-lockfree` conserves items in every reachable state.** -/
theorem balanced (hs : (machine Tid).Reachable s) : Balanced s := by
  have hbalance : s.world.shared.producerCount =
      s.world.shared.consumerCount + s.world.shared.queue.length + s.world.shared.failed +
        Threads.total (Pool.Worker.weight fun l => l.pushing.toNat + l.popping.toNat) s.worker :=
    account.balance hs rfl
  have hsplit : Threads.total (Pool.Worker.weight fun l : Loc => l.pushing.toNat + l.popping.toNat)
      s.worker = Threads.count (Pool.Worker.at? Loc.pushing) s.worker +
        Threads.count (Pool.Worker.at? Loc.popping) s.worker := by
    rw [Pool.Worker.count_at?, Pool.Worker.count_at?, ← Threads.total_add]
    congr 1
    funext x
    cases x <;> rfl
  refine ⟨conserved hs, (offered hs).1, (offered hs).2, by omega, ?_, ?_, by omega, ?_⟩
  · refine (chain.count_le_total fun l => ?_).trans (chain.total_le hs)
    cases l <;> first | exact le_rfl | exact Nat.zero_le _
  · refine (reading.count_le_total fun l => ?_).trans (reading.total_le hs)
    cases l <;> first | exact le_rfl | exact Nat.zero_le _
  · rw [← conserved hs]
    exact (output_prefix_popped hs).trans (List.prefix_append _ _)

/-- One value pushed, and popped by the other thread while the first is
about to receive again. -/
theorem balanced_of_pop :
    ∃ s, (machine (Fin 2)).Reachable s ∧ s.world.shared.producerCount = 1 ∧
      s.world.shared.consumerCount = 0 ∧ s.worker 1 = .busy (.print 7) none ∧ Balanced s := by
  have hrun : (machine (Fin 2)).Reachable _ :=
    Machine.reachable_of_run (.init rfl)
      [.main, .main, .start 0 0, .exec 0 none, .exec 0 none, .start 1 0,
        .complete (.success [7, 0, 0, 0]), .start 0 0, .exec 0 none, .exec 0 none, .exec 0 none,
        .exec 1 none, .exec 1 none] rfl
  exact ⟨_, hrun, rfl, rfl, rfl, balanced hrun⟩

end Lockfree

end TestBuffer
