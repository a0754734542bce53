import TestBuffer.Common.Pool
import TestBuffer.Common.Tally
/-!
# `buf-moody`

One handler receives datagrams and enqueues the whole `data_buffer` after
each; another, `read_data`, dequeues the arrays and counts the words that
are 4321. Both run on a pool, and main stops the service once the count
reaches 35000. The queue is a `BlockingReaderWriterQueue`: an unbounded
FIFO `inner`, and a semaphore that is signalled once for each enqueue and
taken once for each dequeue. An `enqueue` may allocate, and it is taken to
get the memory.
-/

namespace TestBuffer

namespace Moody

/-- `UDP_LEN`, the words of `data_buffer`. -/
abbrev udpLen : ℕ := 600

/-- An array of `UDP_LEN` words. -/
abbrev Data := Fin udpLen → BitVec 32

/-- What is posted to the service or queued by a receive. -/
inductive Task
  | handleData
  | readData
  | receiveData
  deriving DecidableEq

/-- Where a thread stands. -/
inductive Loc
  /-- `handle_data`, posted or called by `receive_data`. -/
  | handleData
  /-- `handle_data`, its receive issued. -/
  | returning
  /-- `receive_data`, before `enqueue` copies `data_buffer`. -/
  | receiveData
  /-- `enqueue`, the copy made and not yet in `inner`. -/
  | enqueue (data : Data)
  /-- `enqueue`, before `sema.signal()`. -/
  | signal
  /-- `receive_data`, before the test of `count`. -/
  | check
  /-- `receive_data`, before `shut_down_socket`. -/
  | shutDown
  /-- `receive_data`, about to return. -/
  | closed
  /-- `read_data`, before the test of `stopped`. -/
  | readData
  /-- `read_data`, before `peek`. -/
  | peek
  /-- `try_dequeue`, before `sema.tryWait()`. -/
  | tryDequeue
  /-- `try_dequeue`, before `inner.try_dequeue`. -/
  | dequeue
  /-- `read_data`, with the words of `incoming_data` still to look at. -/
  | scan (rest : List (BitVec 32))

/-- Where main stands. -/
inductive MainLoc
  | postHandleData
  | postReadData
  /-- Before the test of `stopped`. -/
  | loop
  /-- Before the test of `*n_packet`. -/
  | test
  /-- Before `service->stop()`. -/
  | stop
  /-- In `group.join_all()`. -/
  | join
  /-- Past the loop. -/
  | done
  deriving DecidableEq

/-- What the threads share. The last two fields are what has been done so
far, which the code does not keep. -/
structure Shared where
  /-- `q->inner`, oldest first. -/
  inner : List Data
  /-- `q->sema`. -/
  sema : ℕ
  /-- `*n_packet`, an `int` in the code. It is 600 times the arrays
dequeued at most, and fits for the first 3579139 of them. -/
  nPacket : ℕ
  /-- `udpsocket->is_open()`. -/
  isOpen : Bool
  /-- The arrays dequeued. -/
  dequeued : List Data
  /-- `*n_packet` after the loop body for each of them that has ended. -/
  counts : List ℕ

/-- `shut_down_socket`. -/
def shutDownSocket (sh : Shared) : Shared := { sh with isOpen := false }

/-- The steps of the handlers. A dequeue that fails once `sema` was taken
ends the program, as the `assert` on it does. -/
def exec (l : Loc) (sh : Shared) (stopped : Bool) (b : Buffer udpLen) :
    Option (Pool.Outcome Loc Shared Data) :=
  match l with
  | .handleData => some { next := some .returning, shared := sh, receive := true }
  | .returning => some { next := none, shared := sh }
  | .receiveData => some { next := some (.enqueue (word b)), shared := sh }
  | .enqueue data => some
    { next := some .signal, shared := { sh with inner := sh.inner ++ [data] }, offer := some data }
  | .signal => some { next := some .check, shared := { sh with sema := sh.sema + 1 } }
  | .check =>
    -- `count` is a reference to `*n_packet`
    if sh.nPacket ≥ 35000 then some { next := some .shutDown, shared := sh }
    else some { next := some .handleData, shared := sh }
  | .shutDown => some { next := some .closed, shared := shutDownSocket sh }
  | .closed => some { next := none, shared := sh }
  | .readData =>
    if stopped = true then some { next := none, shared := sh }
    else some { next := some .peek, shared := sh }
  | .peek =>
    if sh.inner = [] then some { next := some .readData, shared := sh }
    else some { next := some .tryDequeue, shared := sh }
  | .tryDequeue =>
    -- an array that `peek` saw may not be signalled yet
    if sh.sema > 0 then some { next := some .dequeue, shared := { sh with sema := sh.sema - 1 } }
    else some { next := some .readData, shared := sh }
  | .dequeue =>
    match sh.inner with
    | [] => none
    | data :: inner => some
      { next := some (.scan (List.ofFn data))
        shared := { sh with inner := inner, dequeued := sh.dequeued ++ [data] } }
  | .scan [] => some
    { next := some .readData, shared := { sh with counts := sh.counts ++ [sh.nPacket] } }
  | .scan (x :: rest) =>
    -- the scan goes on past a marker
    if x = 4321 then
      some { next := some (.scan rest), shared := { sh with nPacket := sh.nPacket + 1 } }
    else some { next := some (.scan rest), shared := sh }

/-- The steps of main. -/
def main (m : MainLoc) (sh : Shared) (stopped joined : Bool) :
    Option (Pool.MainOutcome Task MainLoc Shared) :=
  match m with
  | .postHandleData => some { next := .postReadData, shared := sh, post := some .handleData }
  | .postReadData => some { next := .loop, shared := sh, post := some .readData }
  | .loop =>
    if stopped = true then some { next := .done, shared := sh }
    else some { next := .test, shared := sh }
  | .test =>
    if sh.nPacket ≥ 35000 then some { next := .stop, shared := sh }
    else some { next := .loop, shared := sh }
  | .stop => some { next := .join, shared := sh, stop := true }
  | .join => if joined = true then some { next := .loop, shared := sh } else none
  | .done => none

/-- **`buf-moody` on its service.** -/
def program : Pool.Program udpLen Task Loc MainLoc Shared Data where
  entry
    | .handleData => .handleData
    | .readData => .readData
    | .receiveData => .receiveData
  exec := exec
  completion _ _ := .receiveData
  wake _ := none
  main := main
  mainInit := .postHandleData
  sharedInit := ⟨[], 0, 0, true, [], []⟩

/-- **The steps**, one constructor for each kind. -/
inductive Step (sh : Shared) (stopped : Bool) (b : Buffer udpLen) :
    Loc → Pool.Outcome Loc Shared Data → Prop
  | receive :
      Step sh stopped b .handleData { next := some .returning, shared := sh, receive := true }
  | return : Step sh stopped b .returning { next := none, shared := sh }
  | copy :
      Step sh stopped b .receiveData { next := some (.enqueue (word b)), shared := sh }
  | enqueue {data : Data} :
      Step sh stopped b (.enqueue data)
        { next := some .signal, shared := { sh with inner := sh.inner ++ [data] }
          offer := some data }
  | signal :
      Step sh stopped b .signal { next := some .check, shared := { sh with sema := sh.sema + 1 } }
  | limit (h : sh.nPacket ≥ 35000) :
      Step sh stopped b .check { next := some .shutDown, shared := sh }
  | rearm (h : ¬ sh.nPacket ≥ 35000) :
      Step sh stopped b .check { next := some .handleData, shared := sh }
  | shutDown :
      Step sh stopped b .shutDown { next := some .closed, shared := shutDownSocket sh }
  | close : Step sh stopped b .closed { next := none, shared := sh }
  | leave (h : stopped = true) : Step sh stopped b .readData { next := none, shared := sh }
  | loop (h : ¬ stopped = true) : Step sh stopped b .readData { next := some .peek, shared := sh }
  | peekNone (h : sh.inner = []) :
      Step sh stopped b .peek { next := some .readData, shared := sh }
  | peek (h : ¬ sh.inner = []) :
      Step sh stopped b .peek { next := some .tryDequeue, shared := sh }
  | take (h : sh.sema > 0) :
      Step sh stopped b .tryDequeue
        { next := some .dequeue, shared := { sh with sema := sh.sema - 1 } }
  | takeNone (h : ¬ sh.sema > 0) :
      Step sh stopped b .tryDequeue { next := some .readData, shared := sh }
  | dequeue {data : Data} {inner : List Data} (h : sh.inner = data :: inner) :
      Step sh stopped b .dequeue
        { next := some (.scan (List.ofFn data))
          shared := { sh with inner := inner, dequeued := sh.dequeued ++ [data] } }
  | finish :
      Step sh stopped b (.scan [])
        { next := some .readData, shared := { sh with counts := sh.counts ++ [sh.nPacket] } }
  | marker {x : BitVec 32} {rest : List (BitVec 32)} (h : x = 4321) :
      Step sh stopped b (.scan (x :: rest))
        { next := some (.scan rest), shared := { sh with nPacket := sh.nPacket + 1 } }
  | other {x : BitVec 32} {rest : List (BitVec 32)} (h : ¬ x = 4321) :
      Step sh stopped b (.scan (x :: rest)) { next := some (.scan rest), shared := sh }

/-- **Every step is one of them.** -/
theorem step_of_exec {l : Loc} {sh : Shared} {stopped : Bool} {b : Buffer udpLen}
    {o : Pool.Outcome Loc Shared Data} (h : program.exec l sh stopped b = some o) :
    Step sh stopped b l o := by
  change exec l sh stopped b = some o at h
  revert h
  fun_cases exec l sh stopped b
  all_goals intro h
  all_goals cases h
  exacts [.receive, .return, .copy, .enqueue, .signal, .limit ‹_›, .rearm ‹_›, .shutDown, .close,
    .leave ‹_›, .loop ‹_›, .peekNone ‹_›, .peek ‹_›, .take ‹_›, .takeNone ‹_›, .dequeue ‹_›,
    .finish, .marker rfl, .other ‹_›]

/-- A task of the receive chain. -/
def Task.receives : Task → ℕ
  | .readData => 0
  | _ => 1

/-- The task of `read_data`. -/
def Task.reads : Task → ℕ
  | .readData => 1
  | _ => 0

/-- What main has still to post. -/
def MainLoc.left : MainLoc → List Task
  | .postHandleData => [.handleData, .readData]
  | .postReadData => [.readData]
  | _ => []

/-- **The steps of main**: it posts the two handlers, and then posts
nothing; it changes nothing the handlers share. -/
theorem main_cases {m : MainLoc} {sh : Shared} {st joined : Bool}
    {o : Pool.MainOutcome Task MainLoc Shared} (h : program.main m sh st joined = some o) :
    (m = .postHandleData ∧
        o = { next := .postReadData, shared := sh, post := some .handleData }) ∨
      (m = .postReadData ∧ o = { next := .loop, shared := sh, post := some .readData }) ∨
      (m.left = [] ∧ o.next.left = [] ∧ o.post = none ∧ o.shared = sh) := by
  change main m sh st joined = some o at h
  revert h
  fun_cases main m sh st joined
  all_goals intro h
  all_goals cases h
  · exact Or.inl ⟨rfl, rfl⟩
  · exact Or.inr (Or.inl ⟨rfl, rfl⟩)
  all_goals exact Or.inr (Or.inr ⟨rfl, rfl, rfl, rfl⟩)

/-- What a step posts is the first that was left. -/
theorem main_left {m : MainLoc} {sh : Shared} {st joined : Bool}
    {o : Pool.MainOutcome Task MainLoc Shared} (h : program.main m sh st joined = some o) :
    m.left = o.post.toList ++ o.next.left := by
  obtain ⟨rfl, rfl⟩ | ⟨rfl, rfl⟩ | ⟨hm, hnext, hpost, _⟩ := main_cases h
  · rfl
  · rfl
  · rw [hm, hnext, hpost]
    rfl

/-- `buf-moody` in a pool of threads; a global buffer starts as zeros. -/
abbrev machine (Tid : Type*) [Fintype Tid] [DecidableEq Tid] := Pool.machine Tid program fun _ => 0

end Moody

end TestBuffer
