import TestBuffer.Common.Machine
import TestBuffer.Common.Threads
/-!
# Monitors

A monitor is an object behind one mutex with one condition variable. Each
operation is a critical section, possibly inside a loop that waits while
the section cannot proceed, and possibly with a `notify_one`: inside the
section, or after the unlock as a step of its own. Any number of threads
call the operations; a section is one step, and a wait releases the mutex
and blocks in the step that found it could not proceed.

Two rules do all the work for the users of this file. In lock order the
sections are a sequential run of the object (`runs_of_reachable`), so what
the object does is sequential reasoning. And where a resource count obeys
one inequality per section (`WakeUp`), no thread stays blocked beside the
resource without a wake-up on its way (`WakeUp.le_pending`).
-/

namespace TestBuffer

/-- Where an operation calls `notify_one`. -/
inductive Signal
  /-- Nowhere. -/
  | never
  /-- Inside its critical section. -/
  | inside
  /-- After the unlock, as a step of its own. -/
  | after
  deriving DecidableEq

/-- **A monitor**: what each operation's critical section does to the
object, and where the operation notifies. -/
structure Monitor (Obj Op Ret : Type*) where
  /-- The critical section, `none` where its wait loop finds that it
  cannot proceed. -/
  body : Op → Obj → Option (Obj × Ret)
  signal : Op → Signal
  /-- The operations whose section stands in a wait loop. -/
  waits : Op → Bool
  waits_of_none : ∀ {op o}, body op o = none → waits op = true

namespace Monitor

/-- Where a thread stands. -/
inductive Loc (Op : Type*)
  /-- Outside every operation. -/
  | idle
  /-- Past the unlock of an operation that notifies after it. -/
  | unlocked
  /-- Blocked in the wait of an operation. -/
  | blocked (op : Op)
  /-- Woken from the wait, the test not yet run again. -/
  | woken (op : Op)
  deriving DecidableEq

namespace Loc

variable {Op : Type*}

def isUnlocked : Loc Op → Bool
  | unlocked => true
  | _ => false

def isBlocked : Loc Op → Bool
  | blocked _ => true
  | _ => false

def isWoken : Loc Op → Bool
  | woken _ => true
  | _ => false

/-- The operation a thread is waiting in, blocked or woken. -/
def op? : Loc Op → Option Op
  | blocked op => some op
  | woken op => some op
  | _ => none

/-- A blocked thread resumes at the test of its wait loop. -/
def wake : Loc Op → Option (Loc Op)
  | blocked op => some (woken op)
  | _ => none

theorem eq_unlocked {l : Loc Op} (h : l.isUnlocked = true) : l = unlocked := by
  cases l with
  | unlocked => rfl
  | idle | blocked _ | woken _ => cases h

theorem eq_woken {l : Loc Op} (h : l.isWoken = true) : ∃ op, l = woken op := by
  cases l with
  | woken op => exact ⟨op, rfl⟩
  | idle | unlocked | blocked _ => cases h

theorem wake_eq_some {l l' : Loc Op} (h : l.wake = some l') :
    ∃ op, l = blocked op ∧ l' = woken op := by
  cases l with
  | blocked op => exact ⟨op, rfl, (Option.some.inj h).symm⟩
  | idle | unlocked | woken _ => cases h

theorem wake_eq_none {l : Loc Op} (h : l.wake = none) : l.isBlocked = false := by
  cases l with
  | blocked op => cases h
  | idle | unlocked | woken _ => rfl

end Loc

/-- **A monitor in use**: the object, the threads, and the results of the
sections run so far, newest first. -/
structure State (Tid Obj Op Ret : Type*) where
  obj : Obj
  pc : Tid → Loc Op
  /-- What each completed section did, newest first, in lock order. -/
  history : List Ret

namespace State

variable {Tid Obj Op Ret : Type*} [Fintype Tid] (s : State Tid Obj Op Ret)

/-- Calls that have unlocked and not yet notified. -/
def unlocked : ℕ := Threads.count Loc.isUnlocked s.pc

/-- Threads blocked in a wait. -/
def blocked : ℕ := Threads.count Loc.isBlocked s.pc

/-- Threads woken from a wait that have not yet run its test again. -/
def woken : ℕ := Threads.count Loc.isWoken s.pc

end State

/-- What a scheduler may do. `w` is whom a notification wakes, if the step
makes one. -/
inductive Act (Tid Op : Type*)
  /-- An idle thread calls an operation and gets the mutex. -/
  | call (t : Tid) (op : Op) (w : Option Tid)
  /-- A thread past its unlock notifies. -/
  | notify (t : Tid) (w : Option Tid)
  /-- A blocked thread resumes with no notification. -/
  | spurious (t : Tid)
  /-- A woken thread gets the mutex again and runs the test. -/
  | resume (t : Tid) (w : Option Tid)

variable {Tid Obj Op Ret : Type*} [Fintype Tid] [DecidableEq Tid]
variable (M : Monitor Obj Op Ret)

/-- **Thread `t` holds the mutex and runs `op`'s section**: it blocks, or
the section takes effect and the thread goes on to where the operation
notifies. -/
def enter (s : State Tid Obj Op Ret) (t : Tid) (op : Op) (w : Option Tid) :
    Option (State Tid Obj Op Ret) :=
  match M.body op s.obj with
  | none => some { s with pc := Function.update s.pc t (.blocked op) }
  | some (o, r) =>
    match M.signal op with
    | .never => some ⟨o, Function.update s.pc t .idle, r :: s.history⟩
    | .after => some ⟨o, Function.update s.pc t .unlocked, r :: s.history⟩
    | .inside =>
      (Threads.notifyOne Loc.wake w (Function.update s.pc t .idle)).map fun pc =>
        ⟨o, pc, r :: s.history⟩

/-- What each action does. -/
def step (s : State Tid Obj Op Ret) : Act Tid Op → Option (State Tid Obj Op Ret)
  | .call t op w =>
    match s.pc t with
    | .idle => M.enter s t op w
    | _ => none
  | .notify t w =>
    match s.pc t with
    | .unlocked =>
      (Threads.notifyOne Loc.wake w (Function.update s.pc t .idle)).map fun pc =>
        { s with pc := pc }
    | _ => none
  | .spurious t => (Threads.spurious Loc.wake t s.pc).map fun pc => { s with pc := pc }
  | .resume t w =>
    match s.pc t with
    | .woken op => M.enter s t op w
    | _ => none

/-- **The monitor as a machine**, on an object newly constructed. -/
def machine (o₀ : Obj) : Machine (State Tid Obj Op Ret) (Act Tid Op) where
  Init s := s = ⟨o₀, fun _ => .idle, []⟩
  step := M.step

variable {M} {s s' : State Tid Obj Op Ret} {t : Tid} {op : Op} {w : Option Tid} {o₀ : Obj}

/-! ## What a step can do -/

/-- **What running a section does**, by whether it can proceed and where
the operation notifies. -/
theorem enter_cases (h : M.enter s t op w = some s') :
    (M.body op s.obj = none ∧ s' = { s with pc := Function.update s.pc t (.blocked op) }) ∨
      ∃ o r, M.body op s.obj = some (o, r) ∧ s'.obj = o ∧ s'.history = r :: s.history ∧
        ((M.signal op = .never ∧ s'.pc = Function.update s.pc t .idle) ∨
          (M.signal op = .after ∧ s'.pc = Function.update s.pc t .unlocked) ∨
          (M.signal op = .inside ∧
            Threads.notifyOne Loc.wake w (Function.update s.pc t .idle) = some s'.pc)) := by
  unfold enter at h
  cases hb : M.body op s.obj with
  | none =>
    rw [hb] at h
    exact Or.inl ⟨rfl, (Option.some.inj h).symm⟩
  | some x =>
    obtain ⟨o, r⟩ := x
    rw [hb] at h
    refine Or.inr ⟨o, r, rfl, ?_⟩
    cases hs : M.signal op with
    | never =>
      simp only [hs, Option.some.injEq] at h
      subst h
      exact ⟨rfl, rfl, Or.inl ⟨rfl, rfl⟩⟩
    | after =>
      simp only [hs, Option.some.injEq] at h
      subst h
      exact ⟨rfl, rfl, Or.inr (Or.inl ⟨rfl, rfl⟩)⟩
    | inside =>
      simp only [hs, Option.map_eq_some_iff] at h
      obtain ⟨pc, hpc, rfl⟩ := h
      exact ⟨rfl, rfl, Or.inr (Or.inr ⟨rfl, hpc⟩)⟩

/-- **What an action does**: a thread runs a section, fresh or woken, or a
notification or a spurious wake-up moves threads and nothing else. -/
theorem step_cases {a : Act Tid Op} (h : M.step s a = some s') :
    (∃ t op w, (s.pc t = .idle ∨ s.pc t = .woken op) ∧ M.enter s t op w = some s') ∨
      (∃ t w, s.pc t = .unlocked ∧ s'.obj = s.obj ∧ s'.history = s.history ∧
        Threads.notifyOne Loc.wake w (Function.update s.pc t .idle) = some s'.pc) ∨
      (∃ t op, s.pc t = .blocked op ∧
        s' = { s with pc := Function.update s.pc t (.woken op) }) := by
  cases a with
  | call t op w =>
    simp only [step] at h
    split at h
    · exact Or.inl ⟨t, op, w, Or.inl ‹_›, h⟩
    · cases h
  | notify t w =>
    simp only [step] at h
    split at h
    · obtain ⟨pc, hpc, rfl⟩ := Option.map_eq_some_iff.mp h
      exact Or.inr (Or.inl ⟨t, w, ‹_›, rfl, rfl, hpc⟩)
    · cases h
  | spurious t =>
    obtain ⟨pc, hpc, rfl⟩ := Option.map_eq_some_iff.mp h
    obtain ⟨l, hl, rfl⟩ := Threads.spurious_eq_some hpc
    obtain ⟨op, hop, rfl⟩ := Loc.wake_eq_some hl
    exact Or.inr (Or.inr ⟨t, op, hop, rfl⟩)
  | resume t w =>
    simp only [step] at h
    split at h
    · exact Or.inl ⟨t, _, w, Or.inr ‹_›, h⟩
    · cases h

/-! ## Lock order is a sequential run -/

variable (M) in
/-- **Sequential runs of the object**: sections that proceed, one after
another, and what each did, newest first. -/
inductive Runs (o₀ : Obj) : Obj → List Ret → Prop
  /-- Nothing has run. -/
  | new : Runs o₀ o₀ []
  /-- One more section. -/
  | next {o o' : Obj} {op : Op} {r : Ret} {h : List Ret} :
      Runs o₀ o h → M.body op o = some (o', r) → Runs o₀ o' (r :: h)

/-- What a section of a sequential run did, it did to the object as the
sections before it had left it. -/
theorem Runs.split {o₀ o : Obj} {r : Ret} {before after : List Ret}
    (hr : M.Runs o₀ o (after ++ r :: before)) :
    ∃ o₁ o₂ op, M.Runs o₀ o₁ before ∧ M.body op o₁ = some (o₂, r) := by
  induction after generalizing o with
  | nil =>
    cases hr with
    | next hr hb => exact ⟨_, _, _, hr, hb⟩
  | cons _ after ih =>
    cases hr with
    | next hr _ => exact ih hr

/-- **Every run of the monitor is a sequential run in lock order.** A step
that runs a section extends the run by it; every other step leaves the
object and the history alone. -/
theorem runs_of_reachable (h : (M.machine o₀ : Machine (State Tid Obj Op Ret) _).Reachable s) :
    M.Runs o₀ s.obj s.history := by
  refine h.invariant (I := fun s => M.Runs o₀ s.obj s.history) ?_ ?_
  · rintro _ rfl
    exact .new
  · intro s a s' _ ih _ hstep
    obtain ⟨t, op, w, _, he⟩ | ⟨t, w, _, hobj, hh, _⟩ | ⟨t, op, _, rfl⟩ := step_cases hstep
    · obtain ⟨_, rfl⟩ | ⟨o, r, hb, hobj, hh, _⟩ := enter_cases he
      · exact ih
      · rw [hobj, hh]
        exact .next ih hb
    · rw [hobj, hh]
      exact ih
    · exact ih

/-! ## No lost wake-up -/

/-- **A notification in the counts**: a blocked thread becomes a woken
one, or no thread is blocked. -/
theorem notify_counts {pc pc' : Tid → Loc Op} (h : Threads.notifyOne Loc.wake w pc = some pc') :
    Threads.count Loc.isUnlocked pc' = Threads.count Loc.isUnlocked pc ∧
      ((Threads.count Loc.isBlocked pc' + 1 = Threads.count Loc.isBlocked pc ∧
          Threads.count Loc.isWoken pc' = Threads.count Loc.isWoken pc + 1) ∨
        Threads.count Loc.isBlocked pc' = 0) := by
  obtain ⟨u, l, hl, rfl⟩ | ⟨hnone, rfl⟩ := Threads.notifyOne_cases h
  · obtain ⟨op, hu, rfl⟩ := Loc.wake_eq_some hl
    have hun := Threads.count_update Loc.isUnlocked pc u (.woken op)
    have hbl := Threads.count_update Loc.isBlocked pc u (.woken op)
    have hwk := Threads.count_update Loc.isWoken pc u (.woken op)
    simp only [hu, Loc.isUnlocked, Loc.isBlocked, Loc.isWoken, Bool.toNat_true,
      Bool.toNat_false] at hun hbl hwk
    exact ⟨by omega, Or.inl ⟨by omega, by omega⟩⟩
  · exact ⟨rfl, Or.inr (Threads.count_eq_zero_iff.mpr fun u => Loc.wake_eq_none (hnone u))⟩

/-- **A thread entering a section in the counts**: it was idle, or it
stops being a woken one. -/
theorem enter_counts {pc : Tid → Loc Op} (ht : pc t = .idle ∨ pc t = .woken op) (l : Loc Op) :
    ∃ k, (k = 0 ∨ k = 1 ∧ pc t = .woken op) ∧
      Threads.count Loc.isUnlocked (Function.update pc t l)
        = Threads.count Loc.isUnlocked pc + l.isUnlocked.toNat ∧
      Threads.count Loc.isBlocked (Function.update pc t l)
        = Threads.count Loc.isBlocked pc + l.isBlocked.toNat ∧
      Threads.count Loc.isWoken (Function.update pc t l) + k
        = Threads.count Loc.isWoken pc + l.isWoken.toNat := by
  have hun := Threads.count_update Loc.isUnlocked pc t l
  have hbl := Threads.count_update Loc.isBlocked pc t l
  have hwk := Threads.count_update Loc.isWoken pc t l
  rcases ht with ht | ht
  · rw [ht] at hun hbl hwk
    exact ⟨0, Or.inl rfl, hun, hbl, hwk⟩
  · rw [ht] at hun hbl hwk
    exact ⟨1, Or.inr ⟨rfl, ht⟩, hun, hbl, hwk⟩

omit [Fintype Tid] in
/-- Moving one thread that does not wait keeps the waiting threads in
operations that can wait. -/
theorem waits_update {pc : Tid → Loc Op} {l : Loc Op}
    (h : ∀ u op, (pc u).op? = some op → M.waits op = true)
    (hl : ∀ op, l.op? = some op → M.waits op = true) (u : Tid) (op : Op)
    (hu : (Function.update pc t l u).op? = some op) : M.waits op = true := by
  rcases eq_or_ne u t with rfl | hne
  · rw [Function.update_self] at hu
    exact hl op hu
  · rw [Function.update_of_ne hne] at hu
    exact h u op hu

/-- Whom a notification wakes was waiting already. -/
theorem waits_notify {pc pc' : Tid → Loc Op}
    (h : ∀ u op, (pc u).op? = some op → M.waits op = true)
    (hn : Threads.notifyOne Loc.wake w pc = some pc') :
    ∀ u op, (pc' u).op? = some op → M.waits op = true := by
  obtain ⟨v, l, hl, rfl⟩ | ⟨_, rfl⟩ := Threads.notifyOne_cases hn
  · obtain ⟨op, hv, rfl⟩ := Loc.wake_eq_some hl
    refine waits_update h fun op' hop' => ?_
    exact h v op' (by rw [hv]; exact hop')
  · exact h

/-- **A thread waits only in an operation that can.** -/
theorem waits_of_reachable
    (h : (M.machine o₀ : Machine (State Tid Obj Op Ret) _).Reachable s) :
    ∀ t op, (s.pc t).op? = some op → M.waits op = true := by
  refine h.invariant (I := fun s => ∀ t op, (s.pc t).op? = some op → M.waits op = true) ?_ ?_
  · rintro _ rfl t op hop
    cases hop
  · intro s a s' _ ih _ hstep
    have hidle : ∀ op : Op, (Loc.idle : Loc Op).op? = some op → M.waits op = true :=
      fun _ hop => by cases hop
    obtain ⟨t, op, w, _, he⟩ | ⟨t, w, _, _, _, hpc⟩ | ⟨t, op, ht, rfl⟩ := step_cases hstep
    · obtain ⟨hb, rfl⟩ | ⟨o, r, _, _, _, ⟨_, hpc⟩ | ⟨_, hpc⟩ | ⟨_, hpc⟩⟩ := enter_cases he
      · exact waits_update ih fun op' hop' => by
          cases hop'
          exact M.waits_of_none hb
      · rw [hpc]
        exact waits_update ih hidle
      · rw [hpc]
        exact waits_update ih fun _ hop' => by cases hop'
      · exact waits_notify (waits_update ih hidle) hpc
    · exact waits_notify (waits_update ih hidle) hpc
    · exact waits_update ih fun op' hop' => ih t op' (by rw [ht]; exact hop')

variable (M) in
/-- **A resource that waiters wait for.** Where a section cannot proceed
there is none of it; and a section that can stand in a wait loop uses one
unit up, one that notifies may leave one unit more. -/
structure WakeUp (need : Obj → ℕ) : Prop where
  need_eq_zero : ∀ {op o}, M.body op o = none → need o = 0
  body_le : ∀ {op o o' r}, M.body op o = some (o', r) →
    need o' + (M.waits op).toNat ≤ need o + if M.signal op = .never then 0 else 1

omit [Fintype Tid] [DecidableEq Tid] in
/-- The unit a woken thread counts for is one that its section uses up. -/
theorem woken_le_waits (hwaits : ∀ t op, (s.pc t).op? = some op → M.waits op = true) {k : ℕ}
    (hk : k = 0 ∨ k = 1 ∧ s.pc t = .woken op) : k ≤ (M.waits op).toNat := by
  rcases hk with rfl | ⟨rfl, ht⟩
  · exact Nat.zero_le _
  · rw [hwaits t op (by rw [ht]; rfl)]
    exact le_rfl

/-- One section keeps the resource within the wake-ups on their way. A
woken thread counted for one unit, and `body_le` says it uses one up; what
a section leaves over it notifies for. -/
theorem WakeUp.enter_le {need : Obj → ℕ} (W : M.WakeUp need)
    (hwaits : ∀ t op, (s.pc t).op? = some op → M.waits op = true)
    (hle : 0 < s.blocked → need s.obj ≤ s.unlocked + s.woken)
    (ht : s.pc t = .idle ∨ s.pc t = .woken op) (h : M.enter s t op w = some s') :
    0 < s'.blocked → need s'.obj ≤ s'.unlocked + s'.woken := by
  obtain ⟨hb, rfl⟩ | ⟨o, r, hb, hobj, _, hpc⟩ := enter_cases h
  · intro _
    have := W.need_eq_zero hb
    simp only
    omega
  have hbody := W.body_le hb
  rw [hobj]
  unfold State.blocked State.unlocked State.woken at *
  obtain ⟨hsig, hpc⟩ | ⟨hsig, hpc⟩ | ⟨hsig, hpc⟩ := hpc
  · -- no notification: the section leaves no more than it found
    obtain ⟨k, hk, hun, hbl, hwk⟩ := enter_counts ht .idle
    have := woken_le_waits hwaits hk
    simp only [hsig, if_true, Loc.isUnlocked, Loc.isBlocked, Loc.isWoken,
      Bool.toNat_false] at hbody hun hbl hwk
    rw [hpc]
    omega
  · -- a notification to come: the thread itself is the one unit more
    obtain ⟨k, hk, hun, hbl, hwk⟩ := enter_counts ht .unlocked
    have := woken_le_waits hwaits hk
    simp only [hsig, reduceCtorEq, if_false, Loc.isUnlocked, Loc.isBlocked, Loc.isWoken,
      Bool.toNat_false, Bool.toNat_true] at hbody hun hbl hwk
    rw [hpc]
    omega
  · -- a notification made: it woke a thread, or left none blocked
    obtain ⟨k, hk, hun, hbl, hwk⟩ := enter_counts ht .idle
    have := woken_le_waits hwaits hk
    simp only [hsig, reduceCtorEq, if_false, Loc.isUnlocked, Loc.isBlocked, Loc.isWoken,
      Bool.toNat_false] at hbody hun hbl hwk
    have := notify_counts hpc
    omega

/-- **No lost wake-up.** In every reachable state with a thread blocked,
the resource is within the notifications still to be made and the threads
woken that have not tested again. -/
theorem WakeUp.le_pending {need : Obj → ℕ} (W : M.WakeUp need)
    (h : (M.machine o₀ : Machine (State Tid Obj Op Ret) _).Reachable s) :
    0 < s.blocked → need s.obj ≤ s.unlocked + s.woken := by
  refine h.invariant (I := fun s => 0 < s.blocked → need s.obj ≤ s.unlocked + s.woken) ?_ ?_
  · rintro _ rfl hblocked
    obtain ⟨t, ht⟩ := Threads.count_pos_iff.mp hblocked
    cases ht
  · intro s a s' hr ih _ hstep
    obtain ⟨t, op, w, ht, he⟩ | ⟨t, w, ht, hobj, _, hpc⟩ | ⟨t, op, ht, rfl⟩ := step_cases hstep
    · exact W.enter_le (waits_of_reachable hr) ih ht he
    · have hun := Threads.count_update Loc.isUnlocked s.pc t .idle
      have hbl := Threads.count_update Loc.isBlocked s.pc t .idle
      have hwk := Threads.count_update Loc.isWoken s.pc t .idle
      simp only [ht, Loc.isUnlocked, Loc.isBlocked, Loc.isWoken, Bool.toNat_false,
        Bool.toNat_true] at hun hbl hwk
      have := notify_counts hpc
      rw [hobj]
      unfold State.blocked State.unlocked State.woken at *
      omega
    · have hun := Threads.count_update Loc.isUnlocked s.pc t (.woken op)
      have hbl := Threads.count_update Loc.isBlocked s.pc t (.woken op)
      have hwk := Threads.count_update Loc.isWoken s.pc t (.woken op)
      simp only [ht, Loc.isUnlocked, Loc.isBlocked, Loc.isWoken, Bool.toNat_false,
        Bool.toNat_true] at hun hbl hwk
      unfold State.blocked State.unlocked State.woken at *
      simp only
      omega

end Monitor

end TestBuffer
