import TestBuffer.Common.Machine
import TestBuffer.Common.Threads
import TestBuffer.Common.Receive
/-!
# A pool of threads behind one service

An Asio service with one socket and one receive buffer, a pool of threads
that run its handlers, and a main thread beside them. Main posts tasks and
may stop the service and wait for the pool. A receive that has been issued
may complete at any moment, also while the handler that issued it is still
running; its completion overwrites the buffer and queues a task. Any free
thread picks any task, each task once, and walks the handler step by step.
Whether the service has been stopped does not keep a thread from picking a
task here, so what is proved holds however a stop and a pick race.

`Program` is what differs from one program to the next: the steps of its
handlers and of its main. `invariant` is the one induction over the runs.
-/

namespace TestBuffer

namespace Pool

/-- A task, and for one that a completion queued the number of that
completion, counting from zero. -/
structure Job (Task : Type*) where
  task : Task
  cause : Option ℕ
  deriving DecidableEq

/-- A record handed to a queue by a handler, and the completion the
handler ran for. -/
structure Offer (Record : Type*) where
  cause : Option ℕ
  record : Record
  deriving DecidableEq

/-- What a pool thread is doing. -/
inductive Worker (Loc : Type*)
  /-- Free to pick a task. -/
  | idle
  /-- At a location of a handler that runs for a completion, or for none. -/
  | busy (l : Loc) (cause : Option ℕ)
  /-- Returned from `run`. -/
  | exited
  deriving DecidableEq

namespace Worker

variable {Loc : Type*}

/-- A weight of locations on threads, nothing for a thread at none. -/
def weight (f : Loc → ℕ) : Worker Loc → ℕ
  | busy l _ => f l
  | _ => 0

/-- The thread stands at a location that `p` accepts. -/
def at? (p : Loc → Bool) : Worker Loc → Bool
  | busy l _ => p l
  | _ => false

def isExited : Worker Loc → Bool
  | exited => true
  | _ => false

/-- Counting threads at a kind of location is weighing them by one. -/
theorem count_at? {Tid : Type*} [Fintype Tid] (p : Loc → Bool) (pc : Tid → Worker Loc) :
    Threads.count (at? p) pc = Threads.total (weight fun l => (p l).toNat) pc := by
  rw [Threads.count_eq_total]
  congr 1
  funext x
  cases x <;> rfl

/-- A thread blocked at a location resumes where the location says. -/
def wake (f : Loc → Option Loc) : Worker Loc → Option (Worker Loc)
  | busy l cause => (f l).map fun l' => busy l' cause
  | _ => none

@[simp] theorem weight_idle (f : Loc → ℕ) : idle.weight f = 0 := rfl

@[simp] theorem weight_exited (f : Loc → ℕ) : exited.weight f = 0 := rfl

@[simp] theorem weight_busy (f : Loc → ℕ) (l : Loc) (cause : Option ℕ) :
    (busy l cause).weight f = f l := rfl

theorem wake_eq_some {f : Loc → Option Loc} {x x' : Worker Loc} (h : x.wake f = some x') :
    ∃ l l' cause, x = busy l cause ∧ f l = some l' ∧ x' = busy l' cause := by
  cases x with
  | busy l cause =>
    obtain ⟨l', hl, rfl⟩ := Option.map_eq_some_iff.mp h
    exact ⟨l, l', cause, rfl, hl, rfl⟩
  | idle | exited => cases h

end Worker

/-- **What one step of a handler does**: where it goes on, `none` where it
returns, and what it does besides. -/
structure Outcome (Loc Shared Record : Type*) where
  next : Option Loc
  shared : Shared
  /-- It issues a receive. -/
  receive : Bool := false
  /-- It stops the service. -/
  stop : Bool := false
  /-- It calls `notify_one`. -/
  notify : Bool := false
  /-- It hands a record to the queue. -/
  offer : Option Record := none

/-- What one step of the main thread does. -/
structure MainOutcome (Task MainLoc Shared : Type*) where
  next : MainLoc
  shared : Shared
  post : Option Task := none
  stop : Bool := false

/-- **A program on the service.** -/
structure Program (words : ℕ) (Task Loc MainLoc Shared Record : Type*) where
  /-- Where the handler of a task begins. -/
  entry : Task → Loc
  /-- A step, from what the threads share, whether the service has been
  stopped and the buffer; `none` where the thread cannot go on. -/
  exec : Loc → Shared → Bool → Buffer words → Option (Outcome Loc Shared Record)
  /-- The task a completed receive queues, given whether it carries an
  error and the number of bytes it transferred. -/
  completion : Bool → ℕ → Task
  /-- Where a thread blocked at a location resumes. -/
  wake : Loc → Option Loc
  /-- A step of main, which also sees whether every pool thread has
  returned. -/
  main : MainLoc → Shared → Bool → Bool → Option (MainOutcome Task MainLoc Shared)
  mainInit : MainLoc
  sharedInit : Shared

/-- **What handlers see and change.** -/
structure World (words : ℕ) (Shared Record : Type*) where
  shared : Shared
  stopped : Bool
  buffer : Buffer words
  /-- The receives completed so far, in their order. -/
  completions : List Completion
  /-- The records handed to the queue so far, in their order. -/
  offers : List (Offer Record)

/-- **A program in a pool.** -/
structure State (words : ℕ) (Tid Task Loc MainLoc Shared Record : Type*) where
  world : World words Shared Record
  main : MainLoc
  /-- Tasks posted, or queued by a completion, that no thread has picked. -/
  ready : List (Job Task)
  /-- Receives issued and not completed. -/
  outstanding : ℕ
  worker : Tid → Worker Loc

/-- What a scheduler, and the network, may do. -/
inductive Act (Tid : Type*)
  /-- An outstanding receive completes. -/
  | complete (c : Completion)
  /-- A free thread picks a task, by its place among those ready. -/
  | start (t : Tid) (k : ℕ)
  /-- A thread takes a step. `w` is whom a notification wakes. -/
  | exec (t : Tid) (w : Option Tid)
  /-- A thread blocked on a condition variable resumes unnotified. -/
  | spurious (t : Tid)
  /-- A free thread of a stopped service returns. -/
  | leave (t : Tid)
  /-- The main thread takes a step. -/
  | main

section World

variable {words : ℕ} {Loc Shared Record : Type*}

/-- The world after a receive completed. -/
def World.complete (c : Completion) (w : World words Shared Record) : World words Shared Record :=
  { w with buffer := c.receive w.buffer, completions := w.completions ++ [c] }

/-- The world after a step of a handler that runs for `cause`. -/
def World.after (o : Outcome Loc Shared Record) (cause : Option ℕ)
    (w : World words Shared Record) : World words Shared Record :=
  { w with
    shared := o.shared
    stopped := w.stopped || o.stop
    offers := w.offers ++ (o.offer.map (Offer.mk cause)).toList }

/-- The world after a step of main. -/
def World.afterMain {Task MainLoc : Type*} (o : MainOutcome Task MainLoc Shared)
    (w : World words Shared Record) : World words Shared Record :=
  { w with shared := o.shared, stopped := w.stopped || o.stop }

end World

variable {words : ℕ} {Tid Task Loc MainLoc Shared Record : Type*}

/-- Whether a completed receive carries an error, and what it transferred. -/
def Program.queued (P : Program words Task Loc MainLoc Shared Record) : Completion → Task
  | .success payload => P.completion false (min payload.length (4 * words))
  | .failure => P.completion true 0

/-- Where a handler's thread stands after a step. -/
def Outcome.worker (o : Outcome Loc Shared Record) (cause : Option ℕ) : Worker Loc :=
  match o.next with
  | some l => .busy l cause
  | none => .idle

@[simp] theorem Outcome.weight_worker (o : Outcome Loc Shared Record) (cause : Option ℕ)
    (f : Loc → ℕ) : (o.worker cause).weight f = o.next.elim 0 f := by
  rw [Outcome.worker]
  cases o.next <;> rfl

variable [Fintype Tid] [DecidableEq Tid]

section Step

variable (P : Program words Task Loc MainLoc Shared Record)
variable (s : State words Tid Task Loc MainLoc Shared Record)

/-- A receive completes and queues its task. -/
def State.complete (c : Completion) : State words Tid Task Loc MainLoc Shared Record :=
  { s with
    world := s.world.complete c
    outstanding := s.outstanding - 1
    ready := s.ready ++ [⟨P.queued c, some s.world.completions.length⟩] }

/-- Thread `t` picks the `k`-th task. -/
def State.start (t : Tid) (k : ℕ) (j : Job Task) : State words Tid Task Loc MainLoc Shared Record :=
  { s with
    ready := s.ready.eraseIdx k
    worker := Function.update s.worker t (.busy (P.entry j.task) j.cause) }

/-- Thread `t` takes a step. -/
def State.exec (t : Tid) (cause : Option ℕ) (o : Outcome Loc Shared Record) :
    State words Tid Task Loc MainLoc Shared Record :=
  { s with
    world := s.world.after o cause
    outstanding := s.outstanding + o.receive.toNat
    worker := Function.update s.worker t (o.worker cause) }

/-- Main takes a step. -/
def State.mainStep (o : MainOutcome Task MainLoc Shared) :
    State words Tid Task Loc MainLoc Shared Record :=
  { s with
    world := s.world.afterMain o
    main := o.next
    ready := s.ready ++ (o.post.map fun τ => ⟨τ, none⟩).toList }

/-- What each action does. -/
def step : Act Tid → Option (State words Tid Task Loc MainLoc Shared Record)
  | .complete c => if s.outstanding = 0 then none else some (s.complete P c)
  | .start t k =>
    -- also of a stopped service: a pick may race with the stop
    match s.worker t, s.ready[k]? with
    | .idle, some j => some (s.start P t k j)
    | _, _ => none
  | .exec t w =>
    match s.worker t with
    | .busy l cause =>
      (P.exec l s.world.shared s.world.stopped s.world.buffer).bind fun o =>
        -- a notification moves another thread in the same step
        if o.notify then
          (Threads.notifyOne (Worker.wake P.wake) w (s.exec t cause o).worker).map fun worker =>
            { s.exec t cause o with worker := worker }
        else some (s.exec t cause o)
    | _ => none
  | .spurious t =>
    (Threads.spurious (Worker.wake P.wake) t s.worker).map fun worker =>
      { s with worker := worker }
  | .leave t =>
    match s.worker t, s.world.stopped with
    | .idle, true => some { s with worker := Function.update s.worker t .exited }
    | _, _ => none
  | .main =>
    (P.main s.main s.world.shared s.world.stopped
      (decide (∀ t, (s.worker t).isExited = true))).map s.mainStep

end Step

/-- A program about to run, its buffer holding `b`. -/
def State.new (P : Program words Task Loc MainLoc Shared Record) (b : Buffer words) :
    State words Tid Task Loc MainLoc Shared Record :=
  ⟨⟨P.sharedInit, false, b, [], []⟩, P.mainInit, [], 0, fun _ => .idle⟩

/-- **The program as a machine**, in a pool of threads `Tid`. -/
def machine (Tid : Type*) [Fintype Tid] [DecidableEq Tid]
    (P : Program words Task Loc MainLoc Shared Record) (b : Buffer words) :
    Machine (State words Tid Task Loc MainLoc Shared Record) (Act Tid) where
  Init s := s = .new P b
  step s a := step P s a

variable {P : Program words Task Loc MainLoc Shared Record} {b : Buffer words}
variable {s s' : State words Tid Task Loc MainLoc Shared Record} {a : Act Tid}

omit [Fintype Tid] in
/-- A step that only changes what is shared, and where the thread stands. -/
theorem State.exec_of_shared {s : State words Tid Task Loc MainLoc Shared Record} {t : Tid}
    {cause : Option ℕ} {o : Outcome Loc Shared Record} (hreceive : o.receive = false)
    (hstop : o.stop = false) (hoffer : o.offer = none) :
    s.exec t cause o = { s with
      world.shared := o.shared
      worker := Function.update s.worker t (o.worker cause) } := by
  simp [State.exec, World.after, hreceive, hstop, hoffer]

/-- A thread at a location takes a step that notifies nobody. -/
theorem step_exec {t : Tid} {l : Loc} {cause : Option ℕ} {o : Outcome Loc Shared Record}
    (w : Option Tid) (ht : s.worker t = .busy l cause)
    (ho : P.exec l s.world.shared s.world.stopped s.world.buffer = some o)
    (hnotify : o.notify = false) :
    (machine Tid P b).step s (.exec t w) = some (s.exec t cause o) := by
  show step P s (.exec t w) = _
  simp only [step, ht, ho, Option.bind_some, hnotify, Bool.false_eq_true, if_false]

/-- A notification that finds nobody to wake. -/
theorem step_notify {t : Tid} {l : Loc} {cause : Option ℕ} {o : Outcome Loc Shared Record}
    (ht : s.worker t = .busy l cause)
    (ho : P.exec l s.world.shared s.world.stopped s.world.buffer = some o)
    (hnone : ∀ u, ((s.exec t cause o).worker u).wake P.wake = none) :
    (machine Tid P b).step s (.exec t none) = some (s.exec t cause o) := by
  have hnotify : Threads.notifyOne (Worker.wake P.wake) none (s.exec t cause o).worker =
      some (s.exec t cause o).worker := if_pos fun u => Option.isNone_iff_eq_none.mpr (hnone u)
  show step P s (.exec t none) = _
  simp only [step, ht, ho, Option.bind_some, hnotify, Option.map_some, ite_self]

variable (P) in
/-- **What an action does**: a receive completes, a thread picks a task,
takes a step that wakes none or one that wakes one, resumes unnotified or
returns, or main takes a step. -/
inductive Moves (s : State words Tid Task Loc MainLoc Shared Record) :
    Act Tid → State words Tid Task Loc MainLoc Shared Record → Prop
  | complete {c : Completion} (hpos : 0 < s.outstanding) : Moves s (.complete c) (s.complete P c)
  | start {t : Tid} {k : ℕ} {j : Job Task} (ht : s.worker t = .idle) (hk : s.ready[k]? = some j) :
      Moves s (.start t k) (s.start P t k j)
  | exec {t : Tid} {w : Option Tid} {l : Loc} {cause : Option ℕ} {o : Outcome Loc Shared Record}
      (ht : s.worker t = .busy l cause)
      (ho : P.exec l s.world.shared s.world.stopped s.world.buffer = some o)
      (hnone : o.notify = true → ∀ u, ((s.exec t cause o).worker u).wake P.wake = none) :
      Moves s (.exec t w) (s.exec t cause o)
  | wake {t : Tid} {w : Option Tid} {l : Loc} {cause : Option ℕ} {o : Outcome Loc Shared Record}
      {u : Tid} {l₁ l₂ : Loc} {cause' : Option ℕ} (ht : s.worker t = .busy l cause)
      (ho : P.exec l s.world.shared s.world.stopped s.world.buffer = some o)
      (hnotify : o.notify = true) (hu : (s.exec t cause o).worker u = .busy l₁ cause')
      (hl : P.wake l₁ = some l₂) :
      Moves s (.exec t w) { s.exec t cause o with
        worker := Function.update (s.exec t cause o).worker u (.busy l₂ cause') }
  | spurious {t : Tid} {l l' : Loc} {cause : Option ℕ} (ht : s.worker t = .busy l cause)
      (hl : P.wake l = some l') :
      Moves s (.spurious t) { s with worker := Function.update s.worker t (.busy l' cause) }
  | leave {t : Tid} (ht : s.worker t = .idle) (hst : s.world.stopped = true) :
      Moves s (.leave t) { s with worker := Function.update s.worker t .exited }
  | main {o : MainOutcome Task MainLoc Shared}
      (ho : P.main s.main s.world.shared s.world.stopped
        (decide (∀ t, (s.worker t).isExited = true)) = some o) :
      Moves s .main (s.mainStep o)

/-- **Every action does one of these.** -/
theorem moves_of_step (h : (machine Tid P b).step s a = some s') : Moves P s a s' := by
  change Pool.step P s a = some s' at h
  cases a with
  | complete c =>
    rw [Pool.step, Option.ite_none_left_eq_some] at h
    rw [← Option.some.inj h.2]
    exact .complete (Nat.pos_of_ne_zero h.1)
  | start t k =>
    simp only [Pool.step] at h
    split at h
    · cases h
      exact .start ‹_› ‹_›
    · cases h
  | exec t w =>
    simp only [Pool.step] at h
    split at h
    · obtain ⟨o, ho, h⟩ := Option.bind_eq_some_iff.mp h
      split at h
      · obtain ⟨worker, hw, rfl⟩ := Option.map_eq_some_iff.mp h
        obtain ⟨u, x, hx, rfl⟩ | ⟨hnone, rfl⟩ := Threads.notifyOne_cases hw
        · obtain ⟨l, l', cause, hu, hl, rfl⟩ := Worker.wake_eq_some hx
          exact .wake ‹_› ho ‹_› hu hl
        · exact .exec ‹_› ho fun _ => hnone
      · cases h
        exact .exec ‹_› ho fun hnotify => absurd hnotify ‹_›
    · cases h
  | spurious t =>
    obtain ⟨worker, hw, rfl⟩ := Option.map_eq_some_iff.mp h
    obtain ⟨x, hx, rfl⟩ := Threads.spurious_eq_some hw
    obtain ⟨l, l', cause, hu, hl, rfl⟩ := Worker.wake_eq_some hx
    exact .spurious hu hl
  | leave t =>
    simp only [Pool.step] at h
    split at h
    · cases h
      exact .leave ‹_› ‹_›
    · cases h
  | main =>
    obtain ⟨o, ho, rfl⟩ := Option.map_eq_some_iff.mp h
    exact .main ho

/-! ## The induction over runs -/

/-- **What a program's invariant has to survive**: a completion, a pick, a
step of a handler, a wake-up, a return from `run`, a step of main. -/
structure Invariant (P : Program words Task Loc MainLoc Shared Record)
    (I : State words Tid Task Loc MainLoc Shared Record → Prop) : Prop where
  complete : ∀ {s c}, I s → 0 < s.outstanding → I (s.complete P c)
  start : ∀ {s t k j}, I s → s.worker t = .idle → s.ready[k]? = some j → I (s.start P t k j)
  exec : ∀ {s t l cause o}, I s → s.worker t = .busy l cause →
    P.exec l s.world.shared s.world.stopped s.world.buffer = some o → I (s.exec t cause o)
  wake : ∀ {s t l l' cause}, I s → s.worker t = .busy l cause → P.wake l = some l' →
    I { s with worker := Function.update s.worker t (.busy l' cause) }
  leave : ∀ {s t}, I s → s.worker t = .idle → s.world.stopped = true →
    I { s with worker := Function.update s.worker t .exited }
  main : ∀ {s joined o}, I s → P.main s.main s.world.shared s.world.stopped joined = some o →
    I (s.mainStep o)

section

variable {I : State words Tid Task Loc MainLoc Shared Record → Prop} (hI : Invariant P I)
include hI

/-- **An invariant that survives them survives a step.** -/
theorem Invariant.step (ih : I s) (h : (machine Tid P b).step s a = some s') : I s' := by
  cases moves_of_step h with
  | complete hpos => exact hI.complete ih hpos
  | start ht hk => exact hI.start ih ht hk
  | exec ht ho _ => exact hI.exec ih ht ho
  | wake ht ho _ hu hl => exact hI.wake (hI.exec ih ht ho) hu hl
  | spurious ht hl => exact hI.wake ih ht hl
  | leave ht hst => exact hI.leave ih ht hst
  | main ho => exact hI.main ih ho

/-- **And it holds wherever a run leads**, from a new program, -/
theorem Invariant.of_reachable (h0 : I (.new P b)) (hs : (machine Tid P b).Reachable s) : I s := by
  refine hs.invariant ?_ fun s a s' _ ih _ h => hI.step ih h
  rintro _ rfl
  exact h0

/-- and from any state it holds of. -/
theorem Invariant.of_run (ih : I s) (as : List (Act Tid))
    (h : (machine Tid P b).run s as = some s') : I s' := by
  induction as generalizing s with
  | nil =>
    rw [Machine.run_nil, Option.some.injEq] at h
    exact h ▸ ih
  | cons a as ihas =>
    rw [Machine.run_cons, Option.bind_eq_some_iff] at h
    obtain ⟨m, hm, hrest⟩ := h
    exact ihas (hI.step ih hm) hrest

end

/-- A property of the world that no completion, step of a handler or step
of main ends. -/
theorem world_of_reachable {I : World words Shared Record → Prop}
    (h0 : I ⟨P.sharedInit, false, b, [], []⟩)
    (hcomplete : ∀ {w c}, I w → I (w.complete c))
    (hexec : ∀ {w l cause o}, I w → P.exec l w.shared w.stopped w.buffer = some o →
      I (w.after o cause))
    (hmain : ∀ {w m joined o}, I w → P.main m w.shared w.stopped joined = some o →
      I (w.afterMain o))
    (hs : (machine Tid P b).Reachable s) : I s.world := by
  refine Invariant.of_reachable (I := fun s => I s.world) ⟨?_, ?_, ?_, ?_, ?_, ?_⟩ h0 hs
  · exact fun ih _ => hcomplete ih
  · exact fun ih _ _ => ih
  · exact fun ih _ ho => hexec ih ho
  · exact fun ih _ _ => ih
  · exact fun ih _ _ => ih
  · exact fun ih ho => hmain ih ho

/-- **What was handed over, against what is shared**: a relation between
the records so far and what the threads share, that a handler's step keeps
with the record it offers and a step of main keeps. -/
theorem records_of_reachable {I : Shared → List Record → Prop} (h0 : I P.sharedInit [])
    (hexec : ∀ {sh l st b o rs}, I sh rs → P.exec l sh st b = some o →
      I o.shared (rs ++ o.offer.toList))
    (hmain : ∀ {sh m st joined o rs}, I sh rs → P.main m sh st joined = some o → I o.shared rs)
    (hs : (machine Tid P b).Reachable s) :
    I s.world.shared (s.world.offers.map Offer.record) := by
  refine world_of_reachable (I := fun w => I w.shared (w.offers.map Offer.record)) h0 id ?_ ?_ hs
  · intro w l cause o ih ho
    have hrecord : (o.offer.map (Offer.mk cause)).toList.map Offer.record = o.offer.toList := by
      cases o.offer <;> rfl
    show I o.shared ((w.offers ++ (o.offer.map (Offer.mk cause)).toList).map Offer.record)
    rw [List.map_append, hrecord]
    exact hexec ih ho
  · exact fun ih ho => hmain ih ho

end Pool

end TestBuffer
