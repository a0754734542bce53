import TestBuffer.BlockingReaderWriterQueue.Calls
import TestBuffer.Moody.Queue
/-!
# `buf-moody` — the queue is the blocking queue

`inner` and `sema` are here the elements and the permits that the members
of a `BlockingReaderWriterQueue` refine, and a step of a handler does what
a call does until its next place between the members: so every run of
`buf-moody` is one of the program on what the members are for, with one
enqueue for each record handed over and one dequeue for each array
(`does_of_reachable`). The code's queue refines that program too, at the
type and the sizes it has here (`refines_queue`).
-/

namespace TestBuffer

namespace Moody

open BlockingReaderWriterQueue (Does Middle between arrivals departures)

/-- `MC_CAPACITY`. -/
def mcCapacity : ℕ := 1023

/-- Blocks of arrays of `UDP_LEN` words, where pointers have 64 bits. -/
def sizes : ReaderWriterQueue.Sizes := ⟨160, 8, 4 * udpLen, 4⟩

theorem config : ReaderWriterQueue.Config sizes 512 mcCapacity := by
  refine ⟨⟨8, rfl⟩, ?_, ?_, ?_, ?_⟩ <;> decide

/-- In `enqueue`, before `sema.signal()`. -/
def Loc.signals : Loc → Bool
  | .signal => true
  | _ => false

/-- In `try_dequeue`, before `inner.try_dequeue`. -/
def Loc.dequeues : Loc → Bool
  | .dequeue => true
  | _ => false

variable {Tid : Type*} [Fintype Tid] [DecidableEq Tid]

/-- The handlers at a kind of location. -/
def standing (p : Loc → Bool) (s : Pool.State udpLen Tid Task Loc MainLoc Shared Data) : ℕ :=
  Threads.total (Pool.Worker.weight fun l => (p l).toNat) s.worker

/-- **The queue**, with the two handlers where they stand. -/
def queue (s : Pool.State udpLen Tid Task Loc MainLoc Shared Data) : Middle Data :=
  between s.world.shared.inner s.world.shared.sema
    (decide (0 < standing Loc.signals s)) (decide (0 < standing Loc.dequeues s))

variable {s s' : Pool.State udpLen Tid Task Loc MainLoc Shared Data} {t : Tid} {l : Loc}
variable {cause : Option ℕ} {o : Pool.Outcome Loc Shared Data}

/-- A handler of the receive chain has the only signal there is to give. -/
theorem standing_signals (hs : (machine Tid).Reachable s) (ht : s.worker t = .busy l cause)
    (hl : 0 < chain.loc l) : standing Loc.signals s = l.signals.toNat :=
  chain.total_eq_of_pos (chain.total_le hs) ht hl fun l => by
    cases l <;> first | exact le_rfl | exact Nat.zero_le _

/-- And `read_data` the only array there is to take. -/
theorem standing_dequeues (hs : (machine Tid).Reachable s) (ht : s.worker t = .busy l cause)
    (hl : 0 < reading.loc l) : standing Loc.dequeues s = l.dequeues.toNat :=
  reading.total_eq_of_pos (reading.total_le hs) ht hl fun l => by
    cases l <;> first | exact le_rfl | exact Nat.zero_le _

/-- **What a step of a handler does to the queue**: what a call does until
its next place between the members. -/
theorem does_exec {capacity : ℕ} (hs : (machine Tid).Reachable s)
    (ht : s.worker t = .busy l cause)
    (ho : program.exec l s.world.shared s.world.stopped s.world.buffer = some o) :
    ∃ es, Does capacity (queue s) (queue (s.exec t cause o)) es ∧ arrivals es = o.offer.toList ∧
      o.shared.dequeued = s.world.shared.dequeued ++ departures es := by
  have hsignals : standing Loc.signals (s.exec t cause o) + _ = standing Loc.signals s + _ :=
    Pool.total_worker_exec _ o ht
  have hdequeues : standing Loc.dequeues (s.exec t cause o) + _ = standing Loc.dequeues s + _ :=
    Pool.total_worker_exec _ o ht
  have hdoes : ∀ {es : List (BlockingReaderWriterQueue.Event Data)} (p p' d d' : ℕ),
      standing Loc.signals s = p → standing Loc.signals (s.exec t cause o) = p' →
      standing Loc.dequeues s = d → standing Loc.dequeues (s.exec t cause o) = d' →
      Does capacity
        (between s.world.shared.inner s.world.shared.sema (decide (0 < p)) (decide (0 < d)))
        (between o.shared.inner o.shared.sema (decide (0 < p')) (decide (0 < d'))) es →
      Does capacity (queue s) (queue (s.exec t cause o)) es := by
    rintro es p p' d d' rfl rfl rfl rfl h
    exact h
  cases step_of_exec ho with
  | @enqueue data =>
    have hp : standing Loc.signals s = 0 := standing_signals hs ht Nat.one_pos
    refine ⟨[.enqueue .canAlloc data], ?_, rfl, (List.append_nil _).symm⟩
    exact hdoes 0 1 _ _ hp (hsignals.trans (congrArg (· + 1) hp)) rfl hdequeues
      (BlockingReaderWriterQueue.does_insert data)
  | signal =>
    have hp : standing Loc.signals s = 1 := standing_signals hs ht Nat.one_pos
    refine ⟨[.enqueued true], ?_, rfl, (List.append_nil _).symm⟩
    exact hdoes 1 0 _ _ hp (Nat.succ.inj (hsignals.trans hp)) rfl hdequeues
      BlockingReaderWriterQueue.does_signal
  | peekNone _ | peek _ =>
    have hd : standing Loc.dequeues s = 0 := standing_dequeues hs ht Nat.one_pos
    refine ⟨[.call .peek, .returned (.peeked s.world.shared.inner.head?)], ?_, rfl,
      (List.append_nil _).symm⟩
    exact hdoes _ _ 0 0 rfl hsignals hd (hdequeues.trans hd) BlockingReaderWriterQueue.does_peek
  | take h =>
    have hd : standing Loc.dequeues s = 0 := standing_dequeues hs ht Nat.one_pos
    obtain ⟨n, hn⟩ := Nat.exists_eq_add_of_lt h
    rw [Nat.zero_add] at hn
    refine ⟨[.call .tryDequeue], hdoes _ _ 0 1 rfl hsignals hd
      (hdequeues.trans (congrArg (· + 1) hd)) ?_, rfl, (List.append_nil _).symm⟩
    rw [hn]
    exact BlockingReaderWriterQueue.does_take
  | takeNone h =>
    have hd : standing Loc.dequeues s = 0 := standing_dequeues hs ht Nat.one_pos
    refine ⟨[.call .tryDequeue, .returned (.dequeued none)], hdoes _ _ 0 0 rfl hsignals hd
      (hdequeues.trans hd) ?_, rfl, (List.append_nil _).symm⟩
    rw [Nat.eq_zero_of_not_pos h]
    exact BlockingReaderWriterQueue.does_fail
  | @dequeue data inner h =>
    have hd : standing Loc.dequeues s = 1 := standing_dequeues hs ht Nat.one_pos
    refine ⟨[.returned (.dequeued (some data))], hdoes _ _ 1 0 rfl hsignals hd
      (Nat.succ.inj (hdequeues.trans hd)) ?_, rfl, rfl⟩
    rw [h]
    exact BlockingReaderWriterQueue.does_remove data
  | _ =>
    exact ⟨[], hdoes _ _ _ _ rfl hsignals rfl hdequeues (.refl _ _), rfl,
      (List.append_nil _).symm⟩

/-- **Every run of `buf-moody` is one of the blocking queue's program**,
with one enqueue for each record handed over and one dequeue for each
array. -/
theorem does_of_reachable (capacity : ℕ) (hs : (machine Tid).Reachable s) :
    ∃ es, Does capacity (between [] 0 false false) (queue s) es ∧
      arrivals es = s.world.offers.map Pool.Offer.record ∧
      departures es = s.world.shared.dequeued := by
  -- a thread that moves outside the queue leaves it as it is
  have hmove : ∀ {s : Pool.State udpLen Tid Task Loc MainLoc Shared Data} {t : Tid}
      {x : Pool.Worker Loc}, (∀ p : Loc → Bool, (p = Loc.signals ∨ p = Loc.dequeues) →
        x.weight (fun l => (p l).toNat) = (s.worker t).weight fun l => (p l).toNat) →
      queue { s with worker := Function.update s.worker t x } = queue s := by
    intro s t x hx
    unfold queue standing
    rw [Threads.total_update_eq (hx _ (Or.inl rfl)), Threads.total_update_eq (hx _ (Or.inr rfl))]
  refine hs.invariant (I := fun s => ∃ es, Does capacity (between [] 0 false false) (queue s) es ∧
    arrivals es = s.world.offers.map Pool.Offer.record ∧
    departures es = s.world.shared.dequeued) ?_ ?_
  · rintro _ rfl
    have hnone : ∀ p : Loc → Bool, standing p (.new program fun _ => 0 :
        Pool.State udpLen Tid Task Loc MainLoc Shared Data) = 0 := fun p =>
      Finset.sum_eq_zero fun _ _ => rfl
    refine ⟨[], ?_, rfl, rfl⟩
    rw [queue, hnone, hnone]
    exact .refl _ _
  · rintro s a s' hr ⟨es, hdoes, harrivals, hdepartures⟩ - hstep
    cases Pool.moves_of_step hstep with
    | complete _ => exact ⟨es, hdoes, harrivals, hdepartures⟩
    | @start t k j ht _ =>
      refine ⟨es, ?_, harrivals, hdepartures⟩
      have hqueue : queue (s.start program t k j) = queue s := hmove fun p hp => by
        rw [ht]
        obtain ⟨τ, cause⟩ := j
        rcases hp with rfl | rfl <;> cases τ <;> rfl
      rwa [hqueue]
    | @exec t w l cause o ht ho _ =>
      obtain ⟨es', hdoes', harrivals', hdepartures'⟩ := does_exec hr ht ho
      refine ⟨es ++ es', hdoes.trans hdoes', ?_, ?_⟩
      · show arrivals (es ++ es') =
          (s.world.offers ++ (o.offer.map (Pool.Offer.mk cause)).toList).map Pool.Offer.record
        rw [arrivals, List.filterMap_append, ← arrivals, ← arrivals, harrivals, harrivals',
          List.map_append]
        cases o.offer <;> rfl
      · show departures (es ++ es') = o.shared.dequeued
        rw [departures, List.filterMap_append, ← departures, ← departures, hdepartures,
          hdepartures']
    | wake _ _ _ _ hl => cases hl
    | spurious _ hl => cases hl
    | leave ht _ =>
      refine ⟨es, ?_, harrivals, hdepartures⟩
      rwa [hmove fun p _ => by rw [ht]; rfl]
    | main ho =>
      have hsh := main_shared ho
      refine ⟨es, ?_, harrivals, ?_⟩
      · rw [queue, Pool.State.mainStep, Pool.World.afterMain, hsh]
        exact hdoes
      · rw [Pool.State.mainStep, Pool.World.afterMain, hsh]
        exact hdepartures

/-- **So what its handlers call is a history of the specification.** -/
theorem isHistory_of_reachable (hs : (machine Tid).Reachable s) :
    ∃ es, (BlockingReaderWriterQueue.Spec.queue Data mcCapacity).IsHistory es ∧
      arrivals es = s.world.offers.map Pool.Offer.record ∧
      departures es = s.world.shared.dequeued := by
  obtain ⟨es, ⟨bs, hbs, hes⟩, harrivals, hdepartures⟩ := does_of_reachable mcCapacity hs
  exact ⟨es, (BlockingReaderWriterQueue.middle_refines mcCapacity).isHistory
    ⟨between [] 0 false false, bs, _, ⟨⟨rfl, rfl⟩, rfl⟩, hbs, hes⟩, harrivals, hdepartures⟩

/-- **And the code's queue refines the same program**, as it is constructed
here. -/
theorem refines_queue :
    Object.Simulation
      ((BlockingReaderWriterQueue.queue Data 512 mcCapacity).guard BlockingReaderWriterQueue.timely)
      (BlockingReaderWriterQueue.middle Data mcCapacity)
      (BlockingReaderWriterQueue.Members 512 mcCapacity) :=
  BlockingReaderWriterQueue.members_refine config

end Moody

end TestBuffer
