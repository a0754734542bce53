import TestBuffer.Common.Pool
/-!
# `buf-lockfree`

One handler receives datagrams and pushes the first word of each into an
`spsc_queue`; another, `read_data`, pops and prints. Both run on a pool,
and main stops the service once enough was consumed. The queue is a
bounded FIFO whose push fails when it is full, and a push or a pop is one
step.
-/

namespace TestBuffer

namespace Lockfree

/-- `UDP_LEN`, the words of `data_buffer`. -/
abbrev udpLen : ℕ := 500

/-- `CAPACITY`. -/
def capacity : ℕ := 1024

/-- What is posted to the service or queued by a receive. -/
inductive Task
  | handleData
  | readData
  | receiveData
  deriving DecidableEq

/-- Where a thread stands. -/
inductive Loc
  /-- `handle_data`, posted or called by `receive_data`. -/
  | handleData
  /-- `handle_data`, its receive issued. -/
  | returning
  /-- `receive_data`, before `++producer_count`. -/
  | receiveData
  /-- `receive_data`, before it reads `data_buffer.at(0)`. -/
  | counted
  /-- `receive_data`, before the push. -/
  | push (value : BitVec 32)
  /-- `receive_data`, the push having failed, before the message. -/
  | unable
  /-- `receive_data`, before the test of `done`. -/
  | check
  /-- `receive_data`, before `shut_down_socket`. -/
  | shutDown
  /-- `receive_data`, about to return. -/
  | closed
  /-- `read_data`, before the outer test. -/
  | readData
  /-- `read_data`, before the pop. -/
  | pop
  /-- `read_data`, a value popped and not yet printed. -/
  | print (value : BitVec 32)
  /-- `read_data`, before `++consumer_count`. -/
  | printed
  deriving DecidableEq

/-- Where main stands. -/
inductive MainLoc
  | postHandleData
  | postReadData
  /-- Before the tests of `done` and of `consumer_count`. -/
  | loop
  /-- Before `service->stop()`. -/
  | stop
  /-- In `group.join_all()`. -/
  | join
  /-- Before `done = true`. -/
  | finish
  /-- Past the loop. -/
  | done
  deriving DecidableEq

/-- What the threads share. The last four fields are what has been done so
far, which the code does not keep. -/
structure Shared where
  producerCount : ℕ
  consumerCount : ℕ
  /-- `spsc_queue`, oldest first. -/
  queue : List (BitVec 32)
  done : Bool
  /-- `udpsocket->is_open()`. -/
  isOpen : Bool
  /-- The values whose push succeeded. -/
  succeeded : List (BitVec 32)
  /-- The number of pushes that failed. -/
  failed : ℕ
  popped : List (BitVec 32)
  /-- The values `read_data` printed. -/
  output : List (BitVec 32)

/-- `data_buffer.at(0)`. -/
def first (b : Buffer udpLen) : BitVec 32 := word b ⟨0, by decide⟩

/-- `shut_down_socket`. -/
def shutDownSocket (sh : Shared) : Shared := { sh with isOpen := false }

/-- The steps of the handlers. -/
def exec (l : Loc) (sh : Shared) (stopped : Bool) (b : Buffer udpLen) :
    Option (Pool.Outcome Loc Shared (BitVec 32)) :=
  match l with
  | .handleData => some { next := some .returning, shared := sh, receive := true }
  | .returning => some { next := none, shared := sh }
  | .receiveData =>
    some { next := some .counted, shared := { sh with producerCount := sh.producerCount + 1 } }
  | .counted => some { next := some (.push (first b)), shared := sh }
  | .push value =>
    if sh.queue.length < capacity then some
      { next := some .check, offer := some value
        shared := { sh with queue := sh.queue ++ [value], succeeded := sh.succeeded ++ [value] } }
    else some
      { next := some .unable, offer := some value, shared := { sh with failed := sh.failed + 1 } }
  | .unable => some { next := some .check, shared := sh }
  | .check =>
    if sh.done = true then some { next := some .shutDown, shared := sh }
    else some { next := some .handleData, shared := sh }
  | .shutDown => some { next := some .closed, shared := shutDownSocket sh }
  | .closed => some { next := none, shared := sh }
  | .readData =>
    if stopped = true then some { next := none, shared := sh }
    else some { next := some .pop, shared := sh }
  | .pop =>
    match sh.queue with
    | [] => some { next := some .readData, shared := sh }
    | value :: rest => some
      { next := some (.print value)
        shared := { sh with queue := rest, popped := sh.popped ++ [value] } }
  | .print value =>
    some { next := some .printed, shared := { sh with output := sh.output ++ [value] } }
  | .printed =>
    some { next := some .pop, shared := { sh with consumerCount := sh.consumerCount + 1 } }

/-- The steps of main. -/
def main (m : MainLoc) (sh : Shared) (_ joined : Bool) :
    Option (Pool.MainOutcome Task MainLoc Shared) :=
  match m with
  | .postHandleData => some { next := .postReadData, shared := sh, post := some .handleData }
  | .postReadData => some { next := .loop, shared := sh, post := some .readData }
  | .loop =>
    -- `done` is set only once the service has been stopped and joined
    if sh.done = true then some { next := .done, shared := sh }
    else if 15000 ≤ sh.consumerCount then some { next := .stop, shared := sh }
    else some { next := .loop, shared := sh }
  | .stop => some { next := .join, shared := sh, stop := true }
  | .join => if joined = true then some { next := .finish, shared := sh } else none
  | .finish => some { next := .loop, shared := { sh with done := true } }
  | .done => none

/-- **`buf-lockfree` on its service.** -/
def program : Pool.Program udpLen Task Loc MainLoc Shared (BitVec 32) where
  entry
    | .handleData => .handleData
    | .readData => .readData
    | .receiveData => .receiveData
  exec := exec
  completion _ _ := .receiveData
  wake _ := none
  main := main
  mainInit := .postHandleData
  sharedInit := ⟨0, 0, [], false, true, [], 0, [], []⟩

/-- **The steps**, one constructor for each kind. -/
inductive Step (sh : Shared) (stopped : Bool) (b : Buffer udpLen) :
    Loc → Pool.Outcome Loc Shared (BitVec 32) → Prop
  | receive :
      Step sh stopped b .handleData { next := some .returning, shared := sh, receive := true }
  | return : Step sh stopped b .returning { next := none, shared := sh }
  | count :
      Step sh stopped b .receiveData
        { next := some .counted, shared := { sh with producerCount := sh.producerCount + 1 } }
  | read : Step sh stopped b .counted { next := some (.push (first b)), shared := sh }
  | push {value : BitVec 32} (h : sh.queue.length < capacity) :
      Step sh stopped b (.push value)
        { next := some .check, offer := some value
          shared := { sh with queue := sh.queue ++ [value], succeeded := sh.succeeded ++ [value] } }
  | fail {value : BitVec 32} (h : ¬ sh.queue.length < capacity) :
      Step sh stopped b (.push value)
        { next := some .unable, offer := some value, shared := { sh with failed := sh.failed + 1 } }
  | report : Step sh stopped b .unable { next := some .check, shared := sh }
  | limit (h : sh.done = true) : Step sh stopped b .check { next := some .shutDown, shared := sh }
  | rearm (h : ¬ sh.done = true) :
      Step sh stopped b .check { next := some .handleData, shared := sh }
  | shutDown :
      Step sh stopped b .shutDown { next := some .closed, shared := shutDownSocket sh }
  | close : Step sh stopped b .closed { next := none, shared := sh }
  | leave (h : stopped = true) : Step sh stopped b .readData { next := none, shared := sh }
  | loop (h : ¬ stopped = true) : Step sh stopped b .readData { next := some .pop, shared := sh }
  | popNone (h : sh.queue = []) :
      Step sh stopped b .pop { next := some .readData, shared := sh }
  | pop {value : BitVec 32} {rest : List (BitVec 32)} (h : sh.queue = value :: rest) :
      Step sh stopped b .pop
        { next := some (.print value)
          shared := { sh with queue := rest, popped := sh.popped ++ [value] } }
  | print {value : BitVec 32} :
      Step sh stopped b (.print value)
        { next := some .printed, shared := { sh with output := sh.output ++ [value] } }
  | consume :
      Step sh stopped b .printed
        { next := some .pop, shared := { sh with consumerCount := sh.consumerCount + 1 } }

/-- **Every step is one of them.** -/
theorem step_of_exec {l : Loc} {sh : Shared} {stopped : Bool} {b : Buffer udpLen}
    {o : Pool.Outcome Loc Shared (BitVec 32)} (h : program.exec l sh stopped b = some o) :
    Step sh stopped b l o := by
  change exec l sh stopped b = some o at h
  revert h
  fun_cases exec l sh stopped b
  all_goals intro h
  all_goals cases h
  exacts [.receive, .return, .count, .read, .push ‹_›, .fail ‹_›, .report, .limit ‹_›, .rearm ‹_›,
    .shutDown, .close, .leave ‹_›, .loop ‹_›, .popNone ‹_›, .pop ‹_›, .print, .consume]

/-- A task of the receive chain. -/
def Task.receives : Task → ℕ
  | .readData => 0
  | _ => 1

/-- The task of `read_data`. -/
def Task.reads : Task → ℕ
  | .readData => 1
  | _ => 0

/-- What main has still to post. -/
def MainLoc.left : MainLoc → List Task
  | .postHandleData => [.handleData, .readData]
  | .postReadData => [.readData]
  | _ => []

/-- **The steps of main**: it posts the two handlers, and then posts
nothing and changes nothing but `done`. -/
theorem main_cases {m : MainLoc} {sh : Shared} {st joined : Bool}
    {o : Pool.MainOutcome Task MainLoc Shared} (h : program.main m sh st joined = some o) :
    (m = .postHandleData ∧
        o = { next := .postReadData, shared := sh, post := some .handleData }) ∨
      (m = .postReadData ∧ o = { next := .loop, shared := sh, post := some .readData }) ∨
      (m.left = [] ∧ o.next.left = [] ∧ o.post = none ∧
        (o.shared = sh ∨ o.shared = { sh with done := true })) := by
  change main m sh st joined = some o at h
  revert h
  fun_cases main m sh st joined
  all_goals intro h
  all_goals cases h
  · exact Or.inl ⟨rfl, rfl⟩
  · exact Or.inr (Or.inl ⟨rfl, rfl⟩)
  all_goals refine Or.inr (Or.inr ⟨rfl, rfl, rfl, ?_⟩)
  all_goals first | exact Or.inl rfl | exact Or.inr rfl

/-- What a step posts is the first that was left. -/
theorem main_left {m : MainLoc} {sh : Shared} {st joined : Bool}
    {o : Pool.MainOutcome Task MainLoc Shared} (h : program.main m sh st joined = some o) :
    m.left = o.post.toList ++ o.next.left := by
  obtain ⟨rfl, rfl⟩ | ⟨rfl, rfl⟩ | ⟨hm, hnext, hpost, _⟩ := main_cases h
  · rfl
  · rfl
  · rw [hm, hnext, hpost]
    rfl

/-- `buf-lockfree` in a pool of threads; a global buffer starts as zeros. -/
abbrev machine (Tid : Type*) [Fintype Tid] [DecidableEq Tid] := Pool.machine Tid program fun _ => 0

end Lockfree

end TestBuffer
