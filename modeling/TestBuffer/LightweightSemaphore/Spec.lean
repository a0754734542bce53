import TestBuffer.LightweightSemaphore.Model
/-!
# What a semaphore is for

A number of permits. A signal adds some, a wait takes one. A `wait` with
no timeout cannot fail; a `tryWait`, and a `wait` with one, may fail where
there is no permit to take.
-/

namespace TestBuffer

namespace LightweightSemaphore

/-- Whether a wait may fail. -/
def Op.mayFail : Op → Bool
  | .tryWait => true
  | .wait timeout_usecs => 0 ≤ timeout_usecs

namespace Spec

/-- Where the waiter stands. -/
inductive Waiter
  | idle
  | pending (op : Op)
  | answered (ok : Bool)

/-- Where the signaller stands. -/
inductive Signaller
  | idle
  | pending (count : ℕ)
  | answered

/-- The permits of a signal that has not taken effect. -/
def Signaller.coming : Signaller → ℕ
  | .pending count => count
  | .idle | .answered => 0

/-- The permits, and the calls under way. -/
structure State where
  value : ℕ
  waiter : Waiter
  signaller : Signaller

/-- What happens within a call. -/
inductive Effect
  | take
  | fail
  | add
  deriving DecidableEq

/-- What the semaphore does. -/
def step (t : State) : Act Event Effect → Option State
  | .event (.call op) =>
    match t.waiter with
    | .idle => some { t with waiter := .pending op }
    | _ => none
  | .event (.returned ok) =>
    match t.waiter with
    | .answered ok' => if ok = ok' then some { t with waiter := .idle } else none
    | _ => none
  | .event (.signal count) =>
    match t.signaller with
    | .idle => some { t with signaller := .pending count }
    | _ => none
  | .event .signaled =>
    match t.signaller with
    | .answered => some { t with signaller := .idle }
    | _ => none
  | .inner .take =>
    match t.waiter, t.value with
    | .pending _, value + 1 => some { t with value := value, waiter := .answered true }
    | _, _ => none
  | .inner .fail =>
    match t.waiter, t.value with
    | .pending op, 0 => if op.mayFail = true then some { t with waiter := .answered false } else none
    | _, _ => none
  | .inner .add =>
    match t.signaller with
    | .pending count => some { t with value := t.value + count, signaller := .answered }
    | _ => none

/-- **The semaphore**, as it is meant. -/
def semaphore (initialCount : ℕ) : Object State Event Effect where
  Init t := t = ⟨initialCount, .idle, .idle⟩
  step := step

end Spec

end LightweightSemaphore

end TestBuffer
