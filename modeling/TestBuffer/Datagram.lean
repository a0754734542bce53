import TestBuffer.Common.OwnRecord
import TestBuffer.Lockfree.Balance
import TestBuffer.Moody.Queue
import TestBuffer.Server.Chain
import TestBuffer.Sync.Chain
/-!
# Records and their datagrams

None of the four programs looks at the error or the size of a completed
receive: each queues what is in its buffer. So a record is its datagram's
own exactly where the datagram is as long as what is queued: one word, or
for `buf-moody` the whole buffer (`ownRecord_iff_covers`).
-/

namespace TestBuffer

variable {n words : ℕ}

/-- One thread receives a datagram as long as the buffer: main takes some
steps, the thread picks the `k`-th task, and the handler of the receive
takes some steps. -/
def firstReceive (mains k steps : ℕ) (b₀ : Buffer words) : List (Pool.Act (Fin (n + 1))) :=
  List.replicate mains .main ++ [.start 0 k, .exec 0 none, .exec 0 none] ++
    [.complete (.success (List.ofFn b₀)), .start 0 k] ++ List.replicate steps (.exec 0 none)

/-- And then, some steps on, a receive completes as `c`. -/
def secondReceive (steps k steps' : ℕ) (c : Completion) : List (Pool.Act (Fin (n + 1))) :=
  List.replicate steps (.exec 0 none) ++ [.complete c, .start 0 k] ++
    List.replicate steps' (.exec 0 none)

/-- Where two receives, run from a reachable state, lead. -/
theorem exists_of_run {Task Loc MainLoc Shared Record : Type*}
    {P : Pool.Program words Task Loc MainLoc Shared Record} {b b₀ : Buffer words} {c : Completion}
    {s s' : Pool.State words (Fin (n + 1)) Task Loc MainLoc Shared Record}
    (hs : (Pool.machine (Fin (n + 1)) P b).Reachable s) (as : List (Pool.Act (Fin (n + 1))))
    (hrun : (Pool.machine (Fin (n + 1)) P b).run s as = some s')
    (hcs : s'.world.completions = [.success (List.ofFn b₀), c])
    (hlength : s'.world.offers.length = 2) :
    ∃ s, (Pool.machine (Fin (n + 1)) P b).Reachable s ∧
      s.world.completions = [.success (List.ofFn b₀), c] ∧ s.world.offers.length = 2 :=
  ⟨s', Machine.reachable_of_run hs as hrun, hcs, hlength⟩

theorem Server.follows (capacity : ℕ) (b : Buffer Server.maxBufLen) :
    Pool.Follows (Fin (n + 1)) (Server.program capacity) b := by
  intro b₀ c
  cases c with
  | success payload =>
    exact exists_of_run (.init rfl)
      (firstReceive 2 0 6 b₀ ++ secondReceive 0 0 2 (.success payload)) rfl rfl rfl
  | failure =>
    exact exists_of_run (.init rfl) (firstReceive 2 0 6 b₀ ++ secondReceive 0 0 2 .failure)
      rfl rfl rfl

theorem Lockfree.follows : Pool.Follows (Fin (n + 1)) Lockfree.program fun _ => 0 := by
  intro b₀ c
  cases c with
  | success payload =>
    exact exists_of_run (.init rfl)
      (firstReceive 1 0 6 b₀ ++ secondReceive 0 0 3 (.success payload)) rfl rfl rfl
  | failure =>
    exact exists_of_run (.init rfl) (firstReceive 1 0 6 b₀ ++ secondReceive 0 0 3 .failure)
      rfl rfl rfl

theorem Moody.follows : Pool.Follows (Fin (n + 1)) Moody.program fun _ => 0 := by
  intro b₀ c
  cases c with
  | success payload =>
    exact exists_of_run (.init rfl)
      (firstReceive 1 0 6 b₀ ++ secondReceive 0 0 2 (.success payload)) rfl rfl rfl
  | failure =>
    exact exists_of_run (.init rfl) (firstReceive 1 0 6 b₀ ++ secondReceive 0 0 2 .failure)
      rfl rfl rfl

theorem Sync.follows : Pool.Follows (Fin (n + 1)) Sync.program fun _ => 0 := by
  intro b₀ c
  have hcounted : (Sync.machine (Fin (n + 1))).Reachable _ :=
    Machine.reachable_of_run (.init rfl) (firstReceive 3 1 3 b₀) rfl
  -- nobody is blocked in the queue, so the notification wakes nobody
  have hnotified := hcounted.step (Pool.step_notify (t := 0) rfl rfl (Fin.cases rfl fun i => rfl))
  cases c with
  | success payload =>
    exact exists_of_run hnotified (secondReceive 3 1 2 (.success payload)) rfl rfl rfl
  | failure => exact exists_of_run hnotified (secondReceive 3 1 2 .failure) rfl rfl rfl

/-- **A record is its datagram's own** exactly where the receive succeeded
and the datagram is at least as long as what is queued, in all four. -/
theorem ownRecord_iff_covers (n capacity : ℕ) (b : Buffer Server.maxBufLen) (c : Completion) :
    (Pool.OwnRecord (Fin (n + 1)) (Server.program capacity) b c ↔ c.Covers 4) ∧
      (Pool.OwnRecord (Fin (n + 1)) Lockfree.program (fun _ => 0) c ↔ c.Covers 4) ∧
      (Pool.OwnRecord (Fin (n + 1)) Sync.program (fun _ => 0) c ↔ c.Covers 4) ∧
      (Pool.OwnRecord (Fin (n + 1)) Moody.program (fun _ => 0) c ↔ c.Covers (4 * Moody.udpLen)) := by
  refine ⟨?_, ?_, ?_, ?_⟩
  · exact (Server.handover capacity).ownRecord_iff (reads_word_zero (by decide)) (by decide)
      (Server.follows capacity b)
  · exact Lockfree.handover.ownRecord_iff (reads_word_zero (by decide)) (by decide) Lockfree.follows
  · exact Sync.handover.ownRecord_iff (reads_word_zero (by decide)) (by decide) Sync.follows
  · exact Moody.handover.ownRecord_iff reads_word le_rfl Moody.follows

/-- A datagram of one word, and then one with no bytes. -/
theorem Lockfree.exists_empty (x : BitVec 8) :
    ∃ s, (Lockfree.machine (Fin 2)).Reachable s ∧
      s.world.completions = [.success [x, 0, 0, 0], .success []] ∧
      s.world.offers = [⟨some 0, Lockfree.first (fill [x, 0, 0, 0] fun _ => 0)⟩,
        ⟨some 1, Lockfree.first (fill [x, 0, 0, 0] fun _ => 0)⟩] := by
  have hrun : (Lockfree.machine (Fin 2)).Reachable _ :=
    Machine.reachable_of_run (.init rfl)
      [.main, .start 0 0, .exec 0 none, .exec 0 none, .complete (.success [x, 0, 0, 0]), .start 0 0,
        .exec 0 none, .exec 0 none, .exec 0 none, .exec 0 none, .exec 0 none, .exec 0 none,
        .complete (.success []), .start 0 0, .exec 0 none, .exec 0 none, .exec 0 none] rfl
  exact ⟨_, hrun, rfl, rfl⟩

/-- `buf-lockfree` queues the word of an earlier datagram for one with no
bytes, and a word for a receive that failed. -/
theorem ownRecord_empty :
    (∃ s s', (Lockfree.machine (Fin 2)).Reachable s ∧ (Lockfree.machine (Fin 2)).Reachable s' ∧
        s.world.completions = [.success [7, 0, 0, 0], .success []] ∧
        s'.world.completions = [.success [8, 0, 0, 0], .success []] ∧
        s.world.offers = [⟨some 0, 7⟩, ⟨some 1, 7⟩] ∧
        s'.world.offers = [⟨some 0, 8⟩, ⟨some 1, 8⟩]) ∧
      ¬ Pool.OwnRecord (Fin 2) Lockfree.program (fun _ => 0) (.success []) ∧
      ¬ Pool.OwnRecord (Fin 2) Lockfree.program (fun _ => 0) .failure := by
  obtain ⟨s, hs, hcs, hoffers⟩ := Lockfree.exists_empty 7
  obtain ⟨s', hs', hcs', hoffers'⟩ := Lockfree.exists_empty 8
  have hseven : s.world.offers = [⟨some 0, 7⟩, ⟨some 1, 7⟩] := hoffers.trans (by decide)
  have height : s'.world.offers = [⟨some 0, 8⟩, ⟨some 1, 8⟩] := hoffers'.trans (by decide)
  have hfailed : (Lockfree.machine (Fin 2)).Reachable _ :=
    Machine.reachable_of_run (.init rfl)
      [.main, .start 0 0, .exec 0 none, .exec 0 none, .complete .failure, .start 0 0,
        .exec 0 none, .exec 0 none, .exec 0 none] rfl
  refine ⟨⟨s, s', hs, hs', hcs, hcs', hseven, height⟩, fun h => ?_, fun h => ?_⟩
  · have heq : (7 : BitVec 32) = 8 := h.same [] rfl s s' 7 8 hs hs'
      ⟨[.success [7, 0, 0, 0]], hcs, by rw [hseven]; decide⟩
      ⟨[.success [8, 0, 0, 0]], hcs', by rw [height]; decide⟩
    exact absurd heq (by decide)
  · exact h.error rfl _ 0 hfailed ⟨[], rfl, List.mem_cons_self⟩

end TestBuffer
