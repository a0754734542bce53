import TestBuffer.Common.Spsc
import TestBuffer.Lockfree.Balance
import TestBuffer.Moody.Queue
/-!
# The two single-producer single-consumer queues

`buf-moody` and `buf-lockfree` use their queues from a pool of threads,
with no lock and no strand. Both keep the queues' contract all the same
(`contract_kept`): `receive_data` issues the next receive as the last thing it
does, and `read_data` is posted once.
-/

namespace TestBuffer

namespace Moody

/-- Who does what in `buf-moody`. -/
def roles : Pool.Roles Task Loc where
  receiveTask
    | .handleData | .receiveData => true
    | .readData => false
  receiveLoc
    | .handleData | .receiveData | .enqueue _ | .signal | .check | .shutDown | .closed => true
    | _ => false
  readTask
    | .readData => true
    | _ => false
  readLoc
    | .readData | .peek | .tryDequeue | .dequeue | .scan _ => true
    | _ => false
  producing
    | .receiveData | .enqueue _ | .signal => true
    | _ => false
  consuming
    | .peek | .tryDequeue | .dequeue => true
    | _ => false
  copying
    | .receiveData | .enqueue _ => true
    | _ => false

/-- One turn for `receive_data`, one for `read_data`. -/
def spsc : Pool.Spsc program roles where
  chain := chain
  reading := reading
  chain_main := handover.main_one
  chain_receive := rfl
  chain_task τ := by cases τ <;> rfl
  chain_loc l := by cases l <;> rfl
  reading_main := rfl
  reading_task τ := by cases τ <;> rfl
  reading_loc l := by cases l <;> rfl
  producing_imp l h := by cases l <;> first | rfl | cases h
  consuming_imp l h := by cases l <;> first | rfl | cases h
  copying_imp l h := by cases l <;> first | rfl | cases h

end Moody

namespace Lockfree

/-- Who does what in `buf-lockfree`. -/
def roles : Pool.Roles Task Loc where
  receiveTask
    | .handleData | .receiveData => true
    | .readData => false
  receiveLoc
    | .handleData | .receiveData | .counted | .push _ => true
    | .unable | .check | .shutDown | .closed => true
    | _ => false
  readTask
    | .readData => true
    | _ => false
  readLoc
    | .readData | .pop | .print _ | .printed => true
    | _ => false
  producing
    | .push _ => true
    | _ => false
  consuming
    | .pop => true
    | _ => false
  copying
    | .receiveData | .counted | .push _ => true
    | _ => false

/-- One turn for `receive_data`, one for `read_data`. -/
def spsc : Pool.Spsc program roles where
  chain := chain
  reading := reading
  chain_main := handover.main_one
  chain_receive := rfl
  chain_task τ := by cases τ <;> rfl
  chain_loc l := by cases l <;> rfl
  reading_main := rfl
  reading_task τ := by cases τ <;> rfl
  reading_loc l := by cases l <;> rfl
  producing_imp l h := by cases l <;> first | rfl | cases h
  consuming_imp l h := by cases l <;> first | rfl | cases h
  copying_imp l h := by cases l <;> first | rfl | cases h

end Lockfree

/-- **Both programs keep the contract**, in a pool of any number of
threads. -/
theorem contract_kept (Tid : Type*) [Fintype Tid] [DecidableEq Tid] :
    (∀ s, (Moody.machine Tid).Reachable s → Pool.Contract Moody.roles s) ∧
      ∀ s, (Lockfree.machine Tid).Reachable s → Pool.Contract Lockfree.roles s :=
  ⟨fun _ hs => Moody.spsc.contract hs, fun _ hs => Lockfree.spsc.contract hs⟩

/-- One thread copies a datagram into the queue while the other looks for
one. -/
theorem contract_kept_of_enqueue :
    (∃ s, (Moody.machine (Fin 2)).Reachable s ∧ s.worker 0 = .busy .signal (some 0) ∧
        s.worker 1 = .busy .tryDequeue none ∧ Pool.Contract Moody.roles s) ∧
      ∃ s, (Lockfree.machine (Fin 2)).Reachable s ∧ s.worker 0 = .busy (.push 7) (some 0) ∧
        s.worker 1 = .busy .pop none ∧ Pool.Contract Lockfree.roles s := by
  have hmoody : (Moody.machine (Fin 2)).Reachable _ :=
    Machine.reachable_of_run (.init rfl)
      [.main, .main, .start 0 0, .exec 0 none, .exec 0 none, .start 1 0,
        .complete (.success [7, 0, 0, 0]), .start 0 0, .exec 0 none, .exec 0 none, .exec 1 none,
        .exec 1 none] rfl
  have hlockfree : (Lockfree.machine (Fin 2)).Reachable _ :=
    Machine.reachable_of_run (.init rfl)
      [.main, .main, .start 0 0, .exec 0 none, .exec 0 none, .start 1 0,
        .complete (.success [7, 0, 0, 0]), .start 0 0, .exec 0 none, .exec 0 none, .exec 1 none]
      rfl
  exact ⟨⟨_, hmoody, rfl, rfl, (contract_kept (Fin 2)).1 _ hmoody⟩,
    ⟨_, hlockfree, rfl, rfl, (contract_kept (Fin 2)).2 _ hlockfree⟩⟩

end TestBuffer
