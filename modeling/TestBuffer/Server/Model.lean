import TestBuffer.BoundedBuffer.Model
import TestBuffer.Common.Pool
/-!
# `Server`

`Server` receives into `m_data_buffer` and pushes the first word of each
datagram into a `bounded_buffer<int>`. `handle_data` issues one receive;
the receive runs `decode_data`, which pushes, counts, and either stops the
service or calls `handle_data` again. `listen` posts the first
`handle_data` and runs the service, on its own thread and on those it
creates.

`decode_data` gets the error and the size of the completion and looks at
neither. Its first statement, `bytes = size_`, stores the size through a
reference to `nbytes`, a local of the `handle_data` that issued the
receive, whose lifetime is over once that has returned. The store is
modelled as one to a place of its own (`Shared.nbytes`): this assumes that
nothing else is by then where the local was. The code does nothing to see
to it, and of a run in which something is, what is proved here says
nothing.
-/

namespace TestBuffer

namespace Server

/-- `MAXBUFLEN`, the words of `m_data_buffer`. -/
abbrev maxBufLen : ℕ := 65507

/-- What is posted to the service or queued by a receive. -/
inductive Task
  | handleData
  | decodeData (error : Bool) (size : ℕ)
  deriving DecidableEq

/-- Where a thread stands. -/
inductive Loc
  /-- `handle_data`, posted or called by `decode_data`. -/
  | handleData
  /-- `handle_data`, its receive issued. -/
  | returning
  /-- `decode_data`, before it reads `m_data_buffer.at(0)`. -/
  | decodeData (error : Bool) (size : ℕ)
  /-- `add_to_buffer`, before its `push_front`. -/
  | addToBuffer (counter : BitVec 32)
  /-- `decode_data`, before `counter++`. -/
  | count
  /-- `decode_data`, its `counter++` having given `took`, before the test. -/
  | test (took : ℕ)
  /-- `end`, before `stop`. -/
  | stop (took : ℕ)
  /-- `end` and `decode_data`, past `stop`. -/
  | stopped
  deriving DecidableEq

/-- Where main stands. -/
inductive MainLoc
  /-- Before `initialize`. -/
  | start
  /-- Before the post in `listen`. -/
  | listen
  /-- In `run`, as one more thread of the pool. -/
  | run
  deriving DecidableEq

/-- What the threads share. -/
structure Shared where
  /-- `m_socket` is not null. -/
  mSocket : Bool
  /-- `*m_bounded_buffer`, of `int`s as their 32 bits. -/
  mBoundedBuffer : BoundedBuffer (BitVec 32)
  nCount : ℕ
  /-- `nbytes` of the last `handle_data`, or the place where it was. -/
  nbytes : ℕ
  /-- For each call of `stop`, what the `counter++` before it gave, which
  the code does not keep. -/
  stops : List ℕ

/-- `m_data_buffer.at(0)`. -/
def first (b : Buffer maxBufLen) : BitVec 32 := word b ⟨0, by decide⟩

/-- `std::size_t nbytes = 0`. -/
def declareNbytes (sh : Shared) : Shared := { sh with nbytes := 0 }

/-- `bytes = size_`. -/
def storeBytes (sh : Shared) (size : ℕ) : Shared := { sh with nbytes := size }

/-- `add_to_buffer`. -/
def addToBuffer (sh : Shared) (counter : BitVec 32) : Shared :=
  { sh with mBoundedBuffer := sh.mBoundedBuffer.pushFront counter }

/-- The steps of the handlers. `handle_data` on a null socket ends the
program. -/
def exec (l : Loc) (sh : Shared) (_ : Bool) (b : Buffer maxBufLen) :
    Option (Pool.Outcome Loc Shared (BitVec 32)) :=
  match l with
  | .handleData =>
    -- `exit(1)` where the socket is null
    if sh.mSocket = true then
      some { next := some .returning, shared := declareNbytes sh, receive := true }
    else none
  | .returning => some { next := none, shared := sh }
  | .decodeData _ size =>
    some { next := some (.addToBuffer (first b)), shared := storeBytes sh size }
  | .addToBuffer counter =>
    some { next := some .count, shared := addToBuffer sh counter, offer := some counter }
  | .count =>
    some { next := some (.test (sh.nCount + 1)), shared := { sh with nCount := sh.nCount + 1 } }
  | .test took =>
    if sh.nCount > 10000 then some { next := some (.stop took), shared := sh }
    else some { next := some .handleData, shared := sh }
  | .stop took =>
    some { next := some .stopped, shared := { sh with stops := sh.stops ++ [took] }, stop := true }
  | .stopped => some { next := none, shared := sh }

/-- The steps of main: `initialize` opens the socket, `listen` posts. -/
def main (m : MainLoc) (sh : Shared) (_ _ : Bool) :
    Option (Pool.MainOutcome Task MainLoc Shared) :=
  match m with
  | .start => some { next := .listen, shared := { sh with mSocket := true } }
  | .listen => some { next := .run, shared := sh, post := some .handleData }
  | .run => none

/-- **`Server` on its service**, `capacity` being that of the buffer it is
given. -/
def program (capacity : ℕ) : Pool.Program maxBufLen Task Loc MainLoc Shared (BitVec 32) where
  entry
    | .handleData => .handleData
    | .decodeData error size => .decodeData error size
  exec := exec
  completion := .decodeData
  wake _ := none
  main := main
  mainInit := .start
  sharedInit := ⟨false, .new capacity, 0, 0, []⟩

/-- **The steps**, one constructor for each kind. -/
inductive Step (sh : Shared) (b : Buffer maxBufLen) :
    Loc → Pool.Outcome Loc Shared (BitVec 32) → Prop
  | receive (h : sh.mSocket = true) :
      Step sh b .handleData
        { next := some .returning, shared := declareNbytes sh, receive := true }
  | return : Step sh b .returning { next := none, shared := sh }
  | read {error : Bool} {size : ℕ} :
      Step sh b (.decodeData error size)
        { next := some (.addToBuffer (first b)), shared := storeBytes sh size }
  | push {counter : BitVec 32} :
      Step sh b (.addToBuffer counter)
        { next := some .count, shared := addToBuffer sh counter, offer := some counter }
  | count :
      Step sh b .count
        { next := some (.test (sh.nCount + 1)), shared := { sh with nCount := sh.nCount + 1 } }
  | limit {took : ℕ} (h : sh.nCount > 10000) :
      Step sh b (.test took) { next := some (.stop took), shared := sh }
  | rearm {took : ℕ} (h : ¬ sh.nCount > 10000) :
      Step sh b (.test took) { next := some .handleData, shared := sh }
  | stop {took : ℕ} :
      Step sh b (.stop took)
        { next := some .stopped, shared := { sh with stops := sh.stops ++ [took] }, stop := true }
  | finish : Step sh b .stopped { next := none, shared := sh }

/-- **Every step is one of them.** -/
theorem step_of_exec {capacity : ℕ} {l : Loc} {sh : Shared} {st : Bool} {b : Buffer maxBufLen}
    {o : Pool.Outcome Loc Shared (BitVec 32)} (h : (program capacity).exec l sh st b = some o) :
    Step sh b l o := by
  change exec l sh st b = some o at h
  revert h
  fun_cases exec l sh st b
  all_goals intro h
  all_goals cases h
  exacts [.receive ‹_›, .return, .read, .push, .count, .limit ‹_›, .rearm ‹_›, .stop, .finish]

/-- Main opens the socket, and stops nothing; the rest is the
handlers'. -/
theorem main_shared {capacity : ℕ} {m : MainLoc} {sh : Shared} {st j : Bool}
    {o : Pool.MainOutcome Task MainLoc Shared} (h : (program capacity).main m sh st j = some o) :
    o.stop = false ∧ ∃ socket, o.shared = { sh with mSocket := socket } := by
  cases m <;> cases h <;> exact ⟨rfl, _, rfl⟩

/-- A `Server` in a pool of threads, `m_data_buffer` holding whatever its
memory held. -/
abbrev machine (Tid : Type*) [Fintype Tid] [DecidableEq Tid] (capacity : ℕ)
    (b : Buffer maxBufLen) := Pool.machine Tid (program capacity) b

end Server

end TestBuffer
