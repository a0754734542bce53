import TestBuffer.Common.Tally
import TestBuffer.Common.Token
/-!
# One producer and one consumer

A queue for one producer thread and one consumer thread may be used from
any threads of a pool, if its calls never overlap. Where the producing
calls are made by handlers of one receive chain and the consuming calls by
one other handler, one turn for each is enough (`Spsc.contract`); and
whoever has the turn of the chain has the buffer too, since no receive is
outstanding that could write to it.
-/

namespace TestBuffer

namespace Pool

variable {words : ℕ} {Tid Task Loc MainLoc Shared Record : Type*}

/-- **Who does what** to the queue and the buffer. -/
structure Roles (Task Loc : Type*) where
  /-- A task of the receive chain. -/
  receiveTask : Task → Bool
  /-- In a handler of the receive chain that has neither issued a receive
  nor returned. -/
  receiveLoc : Loc → Bool
  /-- A task that consumes. -/
  readTask : Task → Bool
  /-- In a handler that consumes. -/
  readLoc : Loc → Bool
  /-- In a call of the producer's, or about to make it. -/
  producing : Loc → Bool
  /-- In a call of the consumer's, or about to make it. -/
  consuming : Loc → Bool
  /-- With the buffer still to be copied into the queue. -/
  copying : Loc → Bool

/-- **The contract of the queue**, kept. -/
structure Contract [Fintype Tid] (R : Roles Task Loc)
    (s : State words Tid Task Loc MainLoc Shared Record) : Prop where
  /-- There is one handler of the receive chain to run or running, or one
  receive outstanding. -/
  receives : s.ready.countP (fun j => R.receiveTask j.task) + s.outstanding +
    Threads.count (Worker.at? R.receiveLoc) s.worker ≤ 1
  /-- There is one consuming handler to run or running. -/
  reads : s.ready.countP (fun j => R.readTask j.task) +
    Threads.count (Worker.at? R.readLoc) s.worker ≤ 1
  /-- No two calls of the producer's overlap. -/
  producing_le : Threads.count (Worker.at? R.producing) s.worker ≤ 1
  /-- No two calls of the consumer's overlap. -/
  consuming_le : Threads.count (Worker.at? R.consuming) s.worker ≤ 1
  /-- While a handler copies the buffer no receive is outstanding, so none
  can complete and write to it. -/
  undisturbed : 0 < Threads.count (Worker.at? R.copying) s.worker → s.outstanding = 0

/-- **A program that keeps it**, by one turn for each side. -/
structure Spsc (P : Program words Task Loc MainLoc Shared Record) (R : Roles Task Loc) where
  chain : Weight P
  reading : Weight P
  chain_main : chain.main P.mainInit = 1
  chain_receive : chain.receive = 1
  chain_task : ∀ τ, chain.task τ = (R.receiveTask τ).toNat
  chain_loc : ∀ l, chain.loc l = (R.receiveLoc l).toNat
  reading_main : reading.main P.mainInit = 1
  reading_task : ∀ τ, reading.task τ = (R.readTask τ).toNat
  reading_loc : ∀ l, reading.loc l = (R.readLoc l).toNat
  producing_imp : ∀ l, R.producing l = true → R.receiveLoc l = true
  consuming_imp : ∀ l, R.consuming l = true → R.readLoc l = true
  copying_imp : ∀ l, R.copying l = true → R.receiveLoc l = true

variable [Fintype Tid] {P : Program words Task Loc MainLoc Shared Record}

/-- The turns there are are at least those of tasks, receives and threads. -/
theorem Weight.counts_le_total (W : Weight P) {p : Task → Bool} {q : Loc → Bool}
    (hp : ∀ τ, W.task τ = (p τ).toNat) (hq : ∀ l, W.loc l = (q l).toNat)
    (s : State words Tid Task Loc MainLoc Shared Record) :
    s.ready.countP (fun j => p j.task) + W.receive * s.outstanding +
      Threads.count (Worker.at? q) s.worker ≤ W.total s := by
  have hready : W.readySum s.ready = s.ready.countP fun j => p j.task := by
    rw [countP_eq_sum, Weight.readySum]
    exact congrArg List.sum (List.map_congr_left fun j _ => hp j.task)
  have hworker : Threads.total (Worker.weight W.loc) s.worker =
      Threads.count (Worker.at? q) s.worker := by
    rw [Worker.count_at?, funext hq]
  unfold Weight.total
  omega

/-- Threads at a kind of location are no more than those at a wider kind. -/
theorem Worker.count_at?_le {p q : Loc → Bool} (h : ∀ l, p l = true → q l = true)
    (pc : Tid → Worker Loc) : Threads.count (at? p) pc ≤ Threads.count (at? q) pc := by
  refine Threads.count_mono fun t ht => ?_
  cases hx : pc t with
  | busy l cause =>
    rw [hx] at ht
    exact h l ht
  | idle | exited =>
    rw [hx] at ht
    cases ht

variable [DecidableEq Tid] {R : Roles Task Loc} {b : Buffer words}
variable {s : State words Tid Task Loc MainLoc Shared Record}

/-- **The contract holds in every reachable state.** -/
theorem Spsc.contract (S : Spsc P R) (hs : (machine Tid P b).Reachable s) : Contract R s := by
  have hchain := (S.chain.counts_le_total S.chain_task S.chain_loc s).trans (S.chain.total_le hs)
  have hreading :=
    (S.reading.counts_le_total S.reading_task S.reading_loc s).trans (S.reading.total_le hs)
  have hproducing := Worker.count_at?_le S.producing_imp s.worker
  have hconsuming := Worker.count_at?_le S.consuming_imp s.worker
  have hcopying := Worker.count_at?_le S.copying_imp s.worker
  rw [S.chain_receive, S.chain_main, Nat.one_mul] at hchain
  rw [S.reading_main] at hreading
  refine ⟨hchain, ?_, ?_, ?_, ?_⟩
  · omega
  · omega
  · omega
  · intro hpos
    omega

end Pool

end TestBuffer
