import Mathlib.Data.Int.Notation
import TestBuffer.Common.Object
/-!
# `LightweightSemaphore`

The semaphore under the blocking queue, for one thread that waits and one
that signals. A count that is changed atomically stands for the semaphore
while nobody has to sleep; a waiter that finds nothing for ten thousand
times takes the count down all the same, to `-1`, and sleeps on a kernel
semaphore, which the signal that finds the count negative posts to.

The kernel semaphore is its count and the three ways `sem_timedwait` ends
beside an interruption, after which it is called again. What the clock
says is the action's, and so is that the time is up. `m_count` is of 64
bits and wraps; a timeout is an integer, without the bounds of its type.
-/

namespace TestBuffer

namespace LightweightSemaphore

/-! ## What the two threads call -/

/-- The functions of the waiter; `wait()` is the one with no timeout. -/
inductive Op
  | tryWait
  | wait (timeout_usecs : ℤ)
  deriving DecidableEq

/-- What passes between the semaphore and its surroundings. -/
inductive Event
  /-- The waiter calls. -/
  | call (op : Op)
  /-- Its call returns. -/
  | returned (ok : Bool)
  /-- `signal` is called; the assertion has its argument nonnegative. -/
  | signal (count : ℕ)
  /-- It returns. -/
  | signaled
  deriving DecidableEq

/-! ## State -/

/-- What `m_count` makes of a sum, from `-2 ^ 63` to `2 ^ 63 - 1`. -/
def wrap (x : ℤ) : ℤ := (x + 9223372036854775808) % 18446744073709551616 - 9223372036854775808

theorem wrap_eq {x : ℤ} (h : -9223372036854775808 ≤ x) (h' : x < 9223372036854775808) :
    wrap x = x := by
  unfold wrap
  omega

/-- Where the waiter stands. -/
inductive Waiter
  | idle
  /-- Before `tryWait` reads the count. -/
  | load (op : Op)
  /-- It read a positive count, here or in the loop after; before it takes
  it down. -/
  | take
  /-- In the loop, with so many rounds left. -/
  | spin (timeout_usecs : ℤ) (left : ℕ)
  /-- In `sem_wait`. -/
  | block
  /-- In `timed_wait`, before the clock is read. -/
  | clock (usecs : ℕ)
  /-- In `sem_timedwait`. -/
  | timedBlock (tv_nsec : ℕ)
  /-- The time is up; before the count is put back. -/
  | restore
  /-- It was signaled after all; before the count is taken down again. -/
  | retry
  /-- Before `sem_trywait`. -/
  | tryBlock
  | answer (ok : Bool)

/-- Where the signaller stands. -/
inductive Signaller
  | idle
  | add (count : ℕ)
  /-- It found the count negative; before `sem_post`. -/
  | post
  | answer

/-- The semaphore, with what its two threads are doing. -/
structure State where
  m_count : ℤ
  /-- The count of the kernel semaphore. -/
  m_sema : ℕ
  waiter : Waiter
  signaller : Signaller

/-! ## `wait` -/

/-- The rounds of the loop. -/
def spins : ℕ := 10000

/-- Where the waiter goes when the loop found nothing and the count is taken
down. -/
def afterSpin (oldCount timeout_usecs : ℤ) : Waiter :=
  if oldCount > 0 then .answer true
  else if timeout_usecs < 0 then .block
  else .clock timeout_usecs.toNat

/-- `tv_nsec`, as `timed_wait` cleans it up. -/
def normalize (tv_nsec : ℕ) : ℕ := if tv_nsec > 1000000000 then tv_nsec - 1000000000 else tv_nsec

/-- `tv_nsec` of the time `usecs` from a clock's `nsec`. -/
def deadline (usecs nsec : ℕ) : ℕ := normalize (nsec + usecs % 1000000 * 1000)

/-- A step of the waiter, but for the clock and the time being up. -/
def waiterStep (s : State) : Option State :=
  match s.waiter with
  | .load op =>
    if s.m_count > 0 then some { s with waiter := .take }
    else match op with
      | .tryWait => some { s with waiter := .answer false }
      | .wait timeout_usecs => some { s with waiter := .spin timeout_usecs spins }
  | .take => some { s with m_count := wrap (s.m_count - 1), waiter := .answer true }
  | .spin timeout_usecs (left + 1) =>
    if s.m_count > 0 then some { s with waiter := .take }
    else some { s with waiter := .spin timeout_usecs left }
  | .spin timeout_usecs 0 =>
    some { s with m_count := wrap (s.m_count - 1), waiter := afterSpin s.m_count timeout_usecs }
  | .block | .timedBlock _ =>
    if s.m_sema > 0 then some { s with m_sema := s.m_sema - 1, waiter := .answer true } else none
  | .restore =>
    if s.m_count < 0 then some { s with m_count := wrap (s.m_count + 1), waiter := .answer false }
    else some { s with m_count := wrap (s.m_count + 1), waiter := .retry }
  | .retry =>
    if s.m_count > 0 then some { s with m_count := wrap (s.m_count - 1), waiter := .tryBlock }
    else some { s with m_count := wrap (s.m_count - 1), waiter := .restore }
  | .tryBlock =>
    if s.m_sema > 0 then some { s with m_sema := s.m_sema - 1, waiter := .answer true }
    else some { s with waiter := .restore }
  | .idle | .clock _ | .answer _ => none

/-! ## `signal` -/

/-- A step of the signaller. -/
def signallerStep (s : State) : Option State :=
  match s.signaller with
  | .add count =>
    -- at most one thread waits
    if s.m_count ≥ -1 then
      some { s with
        m_count := wrap (s.m_count + count)
        signaller := if s.m_count < 0 then .post else .answer }
    else none
  | .post => some { s with m_sema := s.m_sema + 1, signaller := .answer }
  | .idle | .answer => none

/-! ## The object -/

/-- What the semaphore and its surroundings do within a call. -/
inductive Step
  | waiter
  /-- `clock_gettime`, and the nanoseconds it says. -/
  | clock (nsec : ℕ)
  /-- `sem_timedwait` finds the time to be up. -/
  | expire
  /-- `sem_timedwait` finds the time not to be one. -/
  | invalid
  | signaller
  deriving DecidableEq

/-- What the semaphore does. -/
def step (s : State) : Act Event Step → Option State
  | .event (.call op) =>
    match s.waiter with
    | .idle => some { s with waiter := .load op }
    | _ => none
  | .event (.returned ok) =>
    match s.waiter with
    | .answer ok' => if ok = ok' then some { s with waiter := .idle } else none
    | _ => none
  | .event (.signal count) =>
    match s.signaller with
    | .idle => some { s with signaller := .add count }
    | _ => none
  | .event .signaled =>
    match s.signaller with
    | .answer => some { s with signaller := .idle }
    | _ => none
  | .inner .waiter => waiterStep s
  | .inner (.clock nsec) =>
    match s.waiter with
    | .clock usecs =>
      if nsec < 1000000000 then some { s with waiter := .timedBlock (deadline usecs nsec) }
      else none
    | _ => none
  | .inner .expire =>
    match s.waiter with
    | .timedBlock _ => some { s with waiter := .restore }
    | _ => none
  | .inner .invalid =>
    -- `errno` is `EINVAL`, and only `ETIMEDOUT` is asked for
    match s.waiter with
    | .timedBlock tv_nsec =>
      if tv_nsec ≥ 1000000000 then some { s with waiter := .answer true } else none
    | _ => none
  | .inner .signaller => signallerStep s

/-- **`LightweightSemaphore(initialCount)`**, with one thread for each
role. -/
def semaphore (initialCount : ℕ) : Object State Event Step where
  Init s := s = ⟨initialCount, 0, .idle, .idle⟩
  step := step

/-- `availableApprox`. -/
def State.availableApprox (s : State) : ℤ := if s.m_count > 0 then s.m_count else 0

end LightweightSemaphore

end TestBuffer
