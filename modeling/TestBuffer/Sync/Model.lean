import TestBuffer.Common.Pool
import TestBuffer.SynchronisedQueue.Model
/-!
# `buf-sync`

A `SynchronisedQueue<int>` between three kinds of handler on one pool:
`receive_data` enqueues the first word of each datagram, `client_writer`
enqueues four numbers of its own, and `client_reader` dequeues and prints
for ever. Main posts them, one `client_writer` for each of ten keys, and
then stops the service and waits for the pool.
-/

namespace TestBuffer

namespace Sync

/-- The words of `data_buffer`. -/
abbrev bufLen : ℕ := 65507

/-- What is posted to the service or queued by a receive. -/
inductive Task
  | clientReader
  | clientWriter (myid : BitVec 32)
  | handleData
  | receiveData
  deriving DecidableEq

/-- Where a thread stands; in a call of the queue, where the call stands. -/
inductive Loc
  /-- `handle_data`, posted or called by `receive_data`. -/
  | handleData
  /-- `handle_data`, its receive issued. -/
  | returning
  /-- `receive_data`, before it reads `data_buffer.at(0)`. -/
  | receiveData
  /-- `receive_data`, in `Enqueue`. -/
  | receiving (l : SynchronisedQueue.Loc (BitVec 32))
  /-- `receive_data`, before `packet_count++`. -/
  | count
  /-- `client_writer`, before `++i < 5`. -/
  | clientWriter (myid : BitVec 32) (i : ℕ)
  /-- `client_writer`, in `Enqueue`. -/
  | writing (myid : BitVec 32) (i : ℕ) (l : SynchronisedQueue.Loc (BitVec 32))
  /-- `client_reader`, before `Dequeue`. -/
  | clientReader
  /-- `client_reader`, in `Dequeue`. -/
  | reading (l : SynchronisedQueue.Loc (BitVec 32))
  /-- `client_reader`, before it prints what `Dequeue` returned. -/
  | print (x : Option (BitVec 32))
  deriving DecidableEq

/-- Where main stands. -/
inductive MainLoc
  /-- Before the first `cin.get()`. -/
  | start
  | postClientReader
  | postHandleData
  /-- Before the test `i < 10`. -/
  | loop (i : ℕ)
  /-- Before the `cin.get()` of the loop. -/
  | get (i : ℕ)
  | postClientWriter (i : ℕ)
  /-- Before `service->stop()`. -/
  | stop
  /-- In `group.join_all()`. -/
  | join
  | done
  deriving DecidableEq

/-- What the threads share. The last field is what has been done so far,
which the code does not keep. -/
structure Shared where
  /-- `m_queue`. -/
  queue : SynchronisedQueue (BitVec 32)
  packetCount : ℕ
  /-- What `client_reader` printed. -/
  output : List (Option (BitVec 32))

/-- `data_buffer.at(0)`. -/
def first (b : Buffer bufLen) : BitVec 32 := word b ⟨0, by decide⟩

/-- A step inside a call of the queue, from which the handler goes on to
`back` where the call returns. -/
def inQueue (sh : Shared) (go : SynchronisedQueue.Loc (BitVec 32) → Loc)
    (back : Option (BitVec 32) → Loc) (o : SynchronisedQueue.Outcome (BitVec 32)) :
    Pool.Outcome Loc Shared (BitVec 32) where
  next := some (o.next.elim (back o.result) go)
  shared := { sh with queue := o.queue }
  notify := o.notify

/-- Inside a call a handler stays, or goes on where the call returned. -/
theorem inQueue_next (sh : Shared) (go : SynchronisedQueue.Loc (BitVec 32) → Loc)
    (back : Option (BitVec 32) → Loc) (o : SynchronisedQueue.Outcome (BitVec 32)) :
    ∃ l', (inQueue sh go back o).next = some l' ∧ ((∃ l, l' = go l) ∨ ∃ x, l' = back x) := by
  refine ⟨_, rfl, ?_⟩
  cases o.next with
  | none => exact Or.inr ⟨o.result, rfl⟩
  | some l => exact Or.inl ⟨l, rfl⟩

/-- The value a call is about to push. -/
def pushing : SynchronisedQueue.Loc (BitVec 32) → Option (BitVec 32)
  | .enqueue data => some data
  | _ => none

/-- The steps of the handlers. What `receive_data` pushes is the record
of its completion. -/
def exec (l : Loc) (sh : Shared) (_ : Bool) (b : Buffer bufLen) :
    Option (Pool.Outcome Loc Shared (BitVec 32)) :=
  match l with
  | .handleData => some { next := some .returning, shared := sh, receive := true }
  | .returning => some { next := none, shared := sh }
  | .receiveData => some { next := some (.receiving (.enqueue (first b))), shared := sh }
  | .receiving l => (SynchronisedQueue.exec l sh.queue).map fun o =>
    { inQueue sh .receiving (fun _ => .count) o with offer := pushing l }
  | .count => some
    { next := some .handleData, shared := { sh with packetCount := sh.packetCount + 1 } }
  | .clientWriter myid i =>
    if i + 1 < 5 then some
      { next := some (.writing myid (i + 1) (.enqueue (BitVec.ofNat 32 (i + 1) * myid)))
        shared := sh }
    else some { next := none, shared := sh }
  | .writing myid i l => (SynchronisedQueue.exec l sh.queue).map
    (inQueue sh (.writing myid i) fun _ => .clientWriter myid i)
  | .clientReader => some { next := some (.reading .dequeue), shared := sh }
  | .reading l => (SynchronisedQueue.exec l sh.queue).map (inQueue sh .reading .print)
  -- `client_reader` ends by calling itself
  | .print x => some
    { next := some .clientReader, shared := { sh with output := sh.output ++ [x] } }

/-- The steps of main. -/
def main (m : MainLoc) (sh : Shared) (_ joined : Bool) :
    Option (Pool.MainOutcome Task MainLoc Shared) :=
  match m with
  | .start => some { next := .postClientReader, shared := sh }
  | .postClientReader => some { next := .postHandleData, shared := sh, post := some .clientReader }
  | .postHandleData => some { next := .loop 0, shared := sh, post := some .handleData }
  | .loop i =>
    if i < 10 then some { next := .get i, shared := sh } else some { next := .stop, shared := sh }
  | .get i => some { next := .postClientWriter i, shared := sh }
  | .postClientWriter i =>
    some { next := .loop (i + 1), shared := sh, post := some (.clientWriter 1) }
  | .stop => some { next := .join, shared := sh, stop := true }
  | .join => if joined = true then some { next := .done, shared := sh } else none
  | .done => none

/-- **`buf-sync` on its service.** -/
def program : Pool.Program bufLen Task Loc MainLoc Shared (BitVec 32) where
  entry
    | .clientReader => .clientReader
    | .clientWriter myid => .clientWriter myid 0
    | .handleData => .handleData
    | .receiveData => .receiveData
  exec := exec
  completion _ _ := .receiveData
  wake
    | .reading l => l.wake.map .reading
    | _ => none
  main := main
  mainInit := .start
  sharedInit := ⟨.new, 0, []⟩

/-- Only a `Dequeue` of `client_reader` is ever blocked. -/
theorem wake_eq_some {l l' : Loc} (h : program.wake l = some l') :
    l = .reading .blocked ∧ l' = .reading .woken := by
  cases l with
  | reading l =>
    obtain ⟨l₁, hl, rfl⟩ := Option.map_eq_some_iff.mp h
    obtain ⟨rfl, rfl⟩ := SynchronisedQueue.Loc.wake_eq_some hl
    exact ⟨rfl, rfl⟩
  | _ => cases h

/-- **The steps**, one constructor for each kind. -/
inductive Step (sh : Shared) (b : Buffer bufLen) : Loc → Pool.Outcome Loc Shared (BitVec 32) → Prop
  | receive : Step sh b .handleData { next := some .returning, shared := sh, receive := true }
  | return : Step sh b .returning { next := none, shared := sh }
  | read : Step sh b .receiveData { next := some (.receiving (.enqueue (first b))), shared := sh }
  | receiving {l : SynchronisedQueue.Loc (BitVec 32)} {o : SynchronisedQueue.Outcome (BitVec 32)}
      (h : SynchronisedQueue.exec l sh.queue = some o) :
      Step sh b (.receiving l)
        { inQueue sh .receiving (fun _ => .count) o with offer := pushing l }
  | count :
      Step sh b .count
        { next := some .handleData, shared := { sh with packetCount := sh.packetCount + 1 } }
  | write {myid : BitVec 32} {i : ℕ} (h : i + 1 < 5) :
      Step sh b (.clientWriter myid i)
        { next := some (.writing myid (i + 1) (.enqueue (BitVec.ofNat 32 (i + 1) * myid)))
          shared := sh }
  | written {myid : BitVec 32} {i : ℕ} (h : ¬ i + 1 < 5) :
      Step sh b (.clientWriter myid i) { next := none, shared := sh }
  | writing {myid : BitVec 32} {i : ℕ} {l : SynchronisedQueue.Loc (BitVec 32)}
      {o : SynchronisedQueue.Outcome (BitVec 32)}
      (h : SynchronisedQueue.exec l sh.queue = some o) :
      Step sh b (.writing myid i l) (inQueue sh (.writing myid i) (fun _ => .clientWriter myid i) o)
  | dequeue : Step sh b .clientReader { next := some (.reading .dequeue), shared := sh }
  | reading {l : SynchronisedQueue.Loc (BitVec 32)} {o : SynchronisedQueue.Outcome (BitVec 32)}
      (h : SynchronisedQueue.exec l sh.queue = some o) :
      Step sh b (.reading l) (inQueue sh .reading .print o)
  | print {x : Option (BitVec 32)} :
      Step sh b (.print x)
        { next := some .clientReader, shared := { sh with output := sh.output ++ [x] } }

/-- **Every step is one of them.** -/
theorem step_of_exec {l : Loc} {sh : Shared} {st : Bool} {b : Buffer bufLen}
    {o : Pool.Outcome Loc Shared (BitVec 32)} (h : program.exec l sh st b = some o) :
    Step sh b l o := by
  change exec l sh st b = some o at h
  cases l with
  | handleData => cases h; exact .receive
  | returning => cases h; exact .return
  | receiveData => cases h; exact .read
  | receiving l =>
    obtain ⟨o', ho', rfl⟩ := Option.map_eq_some_iff.mp h
    exact .receiving ho'
  | count => cases h; exact .count
  | clientWriter myid i =>
    by_cases hi : i + 1 < 5
    · rw [exec, if_pos hi] at h
      cases h
      exact .write hi
    · rw [exec, if_neg hi] at h
      cases h
      exact .written hi
  | writing myid i l =>
    obtain ⟨o', ho', rfl⟩ := Option.map_eq_some_iff.mp h
    exact .writing ho'
  | clientReader => cases h; exact .dequeue
  | reading l =>
    obtain ⟨o', ho', rfl⟩ := Option.map_eq_some_iff.mp h
    exact .reading ho'
  | print x => cases h; exact .print

/-- `buf-sync` in a pool of threads; a global buffer starts as zeros. -/
abbrev machine (Tid : Type*) [Fintype Tid] [DecidableEq Tid] := Pool.machine Tid program fun _ => 0

end Sync

end TestBuffer
