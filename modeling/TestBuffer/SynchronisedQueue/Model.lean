import TestBuffer.Common.Machine
import TestBuffer.Common.Threads
/-!
# `SynchronisedQueue<T>`

An unbounded queue whose `Dequeue` holds `m_mutex` and whose `Enqueue`
does not: the lines that took it are commented out. So nothing here is one
section. Each call is walked step by step, every step an atomic access to
`m_queue`, to `m_size`, to the mutex or to the condition variable, and any
number of threads interleave between them. Only the wait does two things
at once, as a wait does: it releases the mutex and blocks.
-/

namespace TestBuffer

variable {Tid T : Type*}

/-- `SynchronisedQueue<T>`. The last two fields are what has been done to
`m_queue` so far, which the code does not keep. -/
structure SynchronisedQueue (T : Type*) where
  /-- `m_queue`, front first. -/
  mQueue : List T
  /-- `m_mutex` is held. -/
  mLocked : Bool
  mSize : ℤ
  /-- The values pushed, in the order of the pushes. -/
  pushes : List T
  /-- The values removed, in the order of the pops. -/
  pops : List T

namespace SynchronisedQueue

/-- `SynchronisedQueue()`. -/
def new : SynchronisedQueue T := ⟨[], false, 0, [], []⟩

/-- `Size`, which takes no lock. -/
def size (q : SynchronisedQueue T) : ℤ := q.mSize

/-- **Where a call stands.** `Dequeue` carries what `front` gave it, and
past `pop` also what its pop removed; both are `none` where the call met
an empty queue. -/
inductive Loc (T : Type*)
  /-- `Enqueue`, before `m_queue.push`. -/
  | enqueue (data : T)
  /-- `Enqueue`, before `m_size++`. -/
  | pushed
  /-- `Enqueue`, before `notify_one`. -/
  | counted
  /-- `Dequeue`, before it takes the mutex. -/
  | dequeue
  /-- `Dequeue`, before it tests `m_queue.size()`. -/
  | locked
  /-- `Dequeue`, the queue found empty and the wait not begun. -/
  | foundEmpty
  /-- `Dequeue`, blocked in `m_cond.wait`. -/
  | blocked
  /-- `Dequeue`, woken and about to take the mutex again. -/
  | woken
  /-- `Dequeue`, out of the loop. -/
  | foundItem
  /-- `Dequeue`, past `front`. -/
  | fronted (result : Option T)
  /-- `Dequeue`, past `pop`. -/
  | popped (result removed : Option T)
  /-- `Dequeue`, past `m_size--` and about to unlock and return. -/
  | uncounted (result removed : Option T)
  deriving DecidableEq

/-- What one step of a call does. -/
structure Outcome (T : Type*) where
  queue : SynchronisedQueue T
  /-- Where it goes on, `none` where it returns. -/
  next : Option (Loc T)
  /-- What `Dequeue` returns. -/
  result : Option T := none
  /-- It calls `notify_one`. -/
  notify : Bool := false

/-- **The steps of `Enqueue` and `Dequeue`**, `none` where the thread
cannot go on. -/
def exec (l : Loc T) (q : SynchronisedQueue T) : Option (Outcome T) :=
  match l with
  -- `Enqueue` takes no lock: the line that did is commented out
  | .enqueue data => some
      { queue := { q with mQueue := q.mQueue ++ [data], pushes := q.pushes ++ [data] }
        next := some .pushed }
  | .pushed => some { queue := { q with mSize := q.mSize + 1 }, next := some .counted }
  | .counted => some { queue := q, next := none, notify := true }
  | .dequeue =>
    if q.mLocked = true then none
    else some { queue := { q with mLocked := true }, next := some .locked }
  | .locked =>
    if q.mQueue.length = 0 then some { queue := q, next := some .foundEmpty }
    else some { queue := q, next := some .foundItem }
  | .foundEmpty => some { queue := { q with mLocked := false }, next := some .blocked }
  | .blocked => none
  | .woken =>
    if q.mLocked = true then none
    else some { queue := { q with mLocked := true }, next := some .locked }
  | .foundItem => some { queue := q, next := some (.fronted q.mQueue.head?) }
  | .fronted result => some
      { queue := { q with mQueue := q.mQueue.tail, pops := q.pops ++ q.mQueue.head?.toList }
        next := some (.popped result q.mQueue.head?) }
  | .popped result removed =>
    some { queue := { q with mSize := q.mSize - 1 }, next := some (.uncounted result removed) }
  | .uncounted result _ => some
      { queue := { q with mLocked := false }, next := none, result := result }

namespace Loc

/-- A blocked thread resumes at the mutex. -/
def wake : Loc T → Option (Loc T)
  | blocked => some woken
  | _ => none

/-- In `Dequeue`, past the lock and before the unlock, other than in the
wait. -/
def holding : Loc T → Bool
  | locked => true
  | foundEmpty => true
  | foundItem => true
  | fronted _ => true
  | popped _ _ => true
  | uncounted _ _ => true
  | _ => false

/-- In `Enqueue`. -/
def enqueues : Loc T → Bool
  | enqueue _ => true
  | pushed => true
  | counted => true
  | _ => false

/-- The steps an `Enqueue` still has to take. -/
def toReturn : Loc T → ℕ
  | enqueue _ => 3
  | pushed => 2
  | counted => 1
  | _ => 0

theorem wake_eq_some {l l' : Loc T} (h : l.wake = some l') : l = blocked ∧ l' = woken := by
  cases l with
  | blocked => exact ⟨rfl, (Option.some.inj h).symm⟩
  | _ => cases h

end Loc

/-- **The steps**, one constructor for each kind. -/
inductive Step (q : SynchronisedQueue T) : Loc T → Outcome T → Prop
  | push {data : T} :
      Step q (.enqueue data)
        { queue := { q with mQueue := q.mQueue ++ [data], pushes := q.pushes ++ [data] }
          next := some .pushed }
  | count : Step q .pushed { queue := { q with mSize := q.mSize + 1 }, next := some .counted }
  | notify : Step q .counted { queue := q, next := none, notify := true }
  | lock (hfree : q.mLocked = false) :
      Step q .dequeue { queue := { q with mLocked := true }, next := some .locked }
  | findEmpty (hq : q.mQueue = []) : Step q .locked { queue := q, next := some .foundEmpty }
  | findItem (hq : q.mQueue ≠ []) : Step q .locked { queue := q, next := some .foundItem }
  | wait : Step q .foundEmpty { queue := { q with mLocked := false }, next := some .blocked }
  | relock (hfree : q.mLocked = false) :
      Step q .woken { queue := { q with mLocked := true }, next := some .locked }
  | front : Step q .foundItem { queue := q, next := some (.fronted q.mQueue.head?) }
  | pop {result : Option T} :
      Step q (.fronted result)
        { queue := { q with mQueue := q.mQueue.tail, pops := q.pops ++ q.mQueue.head?.toList }
          next := some (.popped result q.mQueue.head?) }
  | uncount {result removed : Option T} :
      Step q (.popped result removed)
        { queue := { q with mSize := q.mSize - 1 }, next := some (.uncounted result removed) }
  | unlock {result removed : Option T} :
      Step q (.uncounted result removed)
        { queue := { q with mLocked := false }, next := none, result := result }

/-- **Every step is one of them.** -/
theorem step_of_exec {l : Loc T} {q : SynchronisedQueue T} {o : Outcome T}
    (h : exec l q = some o) : Step q l o := by
  revert h
  fun_cases exec l q
  all_goals intro h
  all_goals cases h
  · exact .push
  · exact .count
  · exact .notify
  · exact .lock (by simpa using ‹¬ q.mLocked = true›)
  · exact .findEmpty (List.length_eq_zero_iff.mp ‹_›)
  · exact .findItem fun hq => absurd (List.length_eq_zero_iff.mpr hq) ‹_›
  · exact .wait
  · exact .relock (by simpa using ‹¬ q.mLocked = true›)
  · exact .front
  · exact .pop
  · exact .uncount
  · exact .unlock

/-! ## One call -/

section Call

variable {l l' : Loc T} {q : SynchronisedQueue T} {o : Outcome T}

/-- A call stays the call it is. -/
theorem Step.enqueues_next (ho : Step q l o) (hnext : o.next = some l') :
    l'.enqueues = l.enqueues := by
  cases ho <;> cases hnext <;> rfl

/-- `Enqueue` does not touch the mutex. -/
theorem Step.mLocked_eq (ho : Step q l o) (hl : l.enqueues = true) :
    o.queue.mLocked = q.mLocked := by
  cases ho with
  | push | count | notify => rfl
  | _ => cases hl

/-- `Dequeue` keeps it in step with where it stands, and gives it back. -/
theorem Step.mLocked_eq_holding (ho : Step q l o) (hl : l.enqueues = false)
    (hq : q.mLocked = l.holding) : o.queue.mLocked = o.next.elim false Loc.holding := by
  cases ho with
  | push | count | notify => cases hl
  | lock _ | wait | relock _ | unlock => rfl
  | findEmpty _ | findItem _ | front | pop | uncount => exact hq

/-- **`Enqueue` never waits**: every step of it can be taken, and there are
three. -/
theorem exists_exec_of_enqueues (q : SynchronisedQueue T) (hl : l.enqueues = true) :
    ∃ o, exec l q = some o ∧ o.next.elim 0 Loc.toReturn < l.toReturn := by
  cases l with
  | enqueue data => exact ⟨_, rfl, Nat.lt_succ_self 2⟩
  | pushed => exact ⟨_, rfl, Nat.lt_succ_self 1⟩
  | counted => exact ⟨_, rfl, Nat.one_pos⟩
  | _ => cases hl

/-- The steps that `Dequeue` calls made one after another can take before
one is blocked on an empty queue, `n` items being held. The caller may take
two between a return and the next call, and a call blocked while there is
an item may resume. -/
def Loc.toWait (n : ℕ) : Loc T → ℕ
  | dequeue => 11 * n + 4
  | woken => 11 * n + 4
  | locked => 11 * n + 3
  | foundItem => 11 * (n - 1) + 10
  | fronted _ => 11 * (n - 1) + 9
  | popped _ _ => 11 * n + 8
  | uncounted _ _ => 11 * n + 7
  | foundEmpty => if n = 0 then 1 else 11 * n + 6
  | blocked => if n = 0 then 0 else 11 * n + 5
  | _ => 0

/-- A call that resumes beside an item gets closer. -/
theorem Loc.toWait_woken_lt {n : ℕ} (hn : n ≠ 0) :
    (woken : Loc T).toWait n < (blocked : Loc T).toWait n := by
  simp only [toWait, if_neg hn]
  omega

/-- **`Dequeue` waits for nothing but an item** where no other call has the
mutex. -/
theorem exists_exec_of_dequeues (hl : l.enqueues = false) (hq : q.mLocked = l.holding)
    (hblocked : l ≠ .blocked) :
    ∃ o, exec l q = some o ∧ o.notify = false ∧
      o.next.elim (11 * o.queue.mQueue.length + 6) (Loc.toWait o.queue.mQueue.length) <
        l.toWait q.mQueue.length := by
  cases l with
  | enqueue _ | pushed | counted => cases hl
  | blocked => exact absurd rfl hblocked
  | dequeue => exact ⟨_, if_neg (Bool.not_eq_true _ ▸ hq), rfl, Nat.lt_succ_self _⟩
  | woken => exact ⟨_, if_neg (Bool.not_eq_true _ ▸ hq), rfl, Nat.lt_succ_self _⟩
  | locked =>
    by_cases hn : q.mQueue.length = 0
    · refine ⟨_, if_pos hn, rfl, ?_⟩
      simp only [Option.elim_some, Loc.toWait, if_pos hn]
      omega
    · refine ⟨_, if_neg hn, rfl, ?_⟩
      simp only [Option.elim_some, Loc.toWait]
      omega
  | foundEmpty =>
    refine ⟨_, rfl, rfl, ?_⟩
    simp only [Option.elim_some, Loc.toWait]
    split <;> omega
  | fronted result =>
    refine ⟨_, rfl, rfl, ?_⟩
    simp only [Option.elim_some, Loc.toWait, List.length_tail]
    omega
  | foundItem | popped _ _ | uncounted _ _ => exact ⟨_, rfl, rfl, Nat.lt_succ_self _⟩

end Call

/-! ## Any number of threads -/

/-- **A queue in use**, each thread in a call or in none. -/
structure State (Tid T : Type*) where
  queue : SynchronisedQueue T
  pc : Tid → Option (Loc T)

/-- What a scheduler may do. -/
inductive Act (Tid T : Type*)
  /-- A thread calls `Enqueue`. -/
  | enqueue (t : Tid) (data : T)
  /-- A thread calls `Dequeue`. -/
  | dequeue (t : Tid)
  /-- A thread takes a step of its call. `w` is whom a notification
  wakes. -/
  | exec (t : Tid) (w : Option Tid)
  /-- A blocked thread resumes with no notification. -/
  | spurious (t : Tid)

variable [Fintype Tid] [DecidableEq Tid]

/-- A thread outside both calls makes one. -/
def State.call (s : State Tid T) (t : Tid) (l : Loc T) : Option (State Tid T) :=
  match s.pc t with
  | none => some { s with pc := Function.update s.pc t (some l) }
  | some _ => none

/-- What each action does. -/
def step (s : State Tid T) : Act Tid T → Option (State Tid T)
  | .enqueue t data => s.call t (.enqueue data)
  | .dequeue t => s.call t .dequeue
  | .exec t w =>
    (s.pc t).bind fun l => (exec l s.queue).bind fun o =>
      if o.notify = true then
        (Threads.notifyOne (fun x => (x.bind Loc.wake).map some) w
          (Function.update s.pc t o.next)).map fun pc => ⟨o.queue, pc⟩
      else some ⟨o.queue, Function.update s.pc t o.next⟩
  | .spurious t =>
    (Threads.spurious (fun x => (x.bind Loc.wake).map some) t s.pc).map fun pc => { s with pc := pc }

/-- **Threads using one queue.** -/
def machine (Tid T : Type*) [Fintype Tid] [DecidableEq Tid] :
    Machine (State Tid T) (Act Tid T) where
  Init s := s = ⟨new, fun _ => none⟩
  step := step

variable {s s' : State Tid T} {a : Act Tid T}

omit [Fintype Tid] in
theorem State.call_eq_some {t : Tid} {l : Loc T} (h : s.call t l = some s') :
    s.pc t = none ∧ s' = { s with pc := Function.update s.pc t (some l) } := by
  unfold State.call at h
  split at h
  · exact ⟨‹_›, (Option.some.inj h).symm⟩
  · cases h

theorem wake_eq_some {x x' : Option (Loc T)} (h : (x.bind Loc.wake).map some = some x') :
    x = some .blocked ∧ x' = some .woken := by
  obtain ⟨l', hl', rfl⟩ := Option.map_eq_some_iff.mp h
  obtain ⟨l, rfl, hl⟩ := Option.bind_eq_some_iff.mp hl'
  obtain ⟨rfl, rfl⟩ := Loc.wake_eq_some hl
  exact ⟨rfl, rfl⟩

/-- **What an action does**: a thread calls, takes a step that wakes none,
makes a notification that wakes one, or resumes unnotified. -/
inductive Moves (s : State Tid T) : Act Tid T → State Tid T → Prop
  | enqueue {t : Tid} {data : T} (ht : s.pc t = none) :
      Moves s (.enqueue t data) { s with pc := Function.update s.pc t (some (.enqueue data)) }
  | dequeue {t : Tid} (ht : s.pc t = none) :
      Moves s (.dequeue t) { s with pc := Function.update s.pc t (some .dequeue) }
  | exec {t : Tid} {w : Option Tid} {l : Loc T} {o : Outcome T} (ht : s.pc t = some l)
      (ho : Step s.queue l o) (hnone : o.notify = true → ∀ u, s.pc u ≠ some .blocked) :
      Moves s (.exec t w) ⟨o.queue, Function.update s.pc t o.next⟩
  | wake {t : Tid} {w : Option Tid} {u : Tid} (ht : s.pc t = some .counted)
      (hu : s.pc u = some .blocked) :
      Moves s (.exec t w)
        ⟨s.queue, Function.update (Function.update s.pc t none) u (some .woken)⟩
  | spurious {t : Tid} (ht : s.pc t = some .blocked) :
      Moves s (.spurious t) { s with pc := Function.update s.pc t (some .woken) }

omit [Fintype Tid] in
/-- A thread that notifies is not blocked, nor is it once it has. -/
theorem blocked_update_iff {t u : Tid} (ht : s.pc t = some .counted) :
    Function.update s.pc t none u = some .blocked ↔ s.pc u = some .blocked := by
  by_cases hut : u = t
  · rw [hut, Function.update_self, ht]
    simp
  · rw [Function.update_of_ne hut]

/-- **Every action does one of these.** -/
theorem moves_of_step (h : (machine Tid T).step s a = some s') : Moves s a s' := by
  change step s a = some s' at h
  cases a with
  | enqueue t data =>
    obtain ⟨ht, rfl⟩ := State.call_eq_some h
    exact .enqueue ht
  | dequeue t =>
    obtain ⟨ht, rfl⟩ := State.call_eq_some h
    exact .dequeue ht
  | exec t w =>
    obtain ⟨l, ht, h⟩ := Option.bind_eq_some_iff.mp h
    obtain ⟨o, ho, h⟩ := Option.bind_eq_some_iff.mp h
    have ho := step_of_exec ho
    by_cases hnotify : o.notify = true
    · rw [if_pos hnotify] at h
      obtain ⟨pc, hpc, rfl⟩ := Option.map_eq_some_iff.mp h
      -- only `Enqueue` notifies, as its last step
      cases ho with
      | notify =>
        obtain ⟨u, x, hu, rfl⟩ | ⟨hnone, rfl⟩ := Threads.notifyOne_cases hpc
        · obtain ⟨hb, rfl⟩ := wake_eq_some hu
          exact .wake ht ((blocked_update_iff ht).mp hb)
        · refine .exec ht .notify fun _ u hu => ?_
          have hu' := hnone u
          rw [(blocked_update_iff ht).mpr hu] at hu'
          cases hu'
      | _ => cases hnotify
    · rw [if_neg hnotify] at h
      cases h
      exact .exec ht ho fun hn => absurd hn hnotify
  | spurious t =>
    obtain ⟨pc, hpc, rfl⟩ := Option.map_eq_some_iff.mp h
    obtain ⟨x, hx, rfl⟩ := Threads.spurious_eq_some hpc
    obtain ⟨ht, rfl⟩ := wake_eq_some hx
    exact .spurious ht

/-- A run that begins with a step that notifies nobody. -/
theorem run_exec {t : Tid} {l : Loc T} {o : Outcome T} {as : List (Act Tid T)}
    (ht : s.pc t = some l) (ho : exec l s.queue = some o) (hnotify : o.notify = false) :
    (machine Tid T).run s (.exec t none :: as) =
      (machine Tid T).run ⟨o.queue, Function.update s.pc t o.next⟩ as := by
  have hstep : (machine Tid T).step s (.exec t none) =
      some ⟨o.queue, Function.update s.pc t o.next⟩ := by
    show step s (.exec t none) = _
    simp only [step, ht, ho, Option.bind_some, hnotify, Bool.false_eq_true, if_false]
  rw [Machine.run_cons, hstep, Option.bind_some]

/-! ## The mutex -/

/-- How many threads stand at a kind of location. -/
def count (p : Loc T → Bool) (pc : Tid → Option (Loc T)) : ℕ := Threads.count (Option.any p) pc

theorem count_update (p : Loc T → Bool) (pc : Tid → Option (Loc T)) (t : Tid)
    (x : Option (Loc T)) :
    count p (Function.update pc t x) + ((pc t).any p).toNat = count p pc + (x.any p).toNat :=
  Threads.count_update _ _ _ _

/-- A thread that moves within a kind, or outside it, is counted as before. -/
theorem count_update_eq {p : Loc T → Bool} {pc : Tid → Option (Loc T)} {t : Tid}
    {x : Option (Loc T)} (h : x.any p = (pc t).any p) :
    count p (Function.update pc t x) = count p pc := by
  have hmove := count_update p pc t x
  rw [h] at hmove
  omega

/-- A notification moves two threads, one out of its call and one on in its
own. -/
theorem count_wake_eq {p : Loc T → Bool} {t u : Tid} (ht : s.pc t = some .counted)
    (hu : s.pc u = some .blocked) (hp : p .counted = false) (hwoken : p .woken = p .blocked) :
    count p (Function.update (Function.update s.pc t none) u (some .woken)) = count p s.pc := by
  rw [count_update_eq, count_update_eq]
  · rw [ht, Option.any_none, Option.any_some, hp]
  · rw [(blocked_update_iff ht).mpr hu, Option.any_some, Option.any_some, hwoken]

omit [DecidableEq Tid] in
theorem count_pos_iff {p : Loc T → Bool} {pc : Tid → Option (Loc T)} :
    0 < count p pc ↔ ∃ t l, pc t = some l ∧ p l = true := by
  rw [count, Threads.count_pos_iff]
  simp only [Option.any_eq_true]

omit [DecidableEq Tid] in
/-- A wider kind counts no fewer. -/
theorem count_mono {p q : Loc T → Bool} {pc : Tid → Option (Loc T)}
    (h : ∀ t l, pc t = some l → p l = true → q l = true) : count p pc ≤ count q pc := by
  refine Threads.count_mono fun t ht => ?_
  obtain ⟨l, hl, hp⟩ := (Option.any_eq_true _ _).mp ht
  exact (Option.any_eq_true _ _).mpr ⟨l, hl, h t l hl hp⟩

/-- **Mutual exclusion**: while the mutex is held one thread is past the
lock, and while it is free none is. -/
theorem holding_eq (hs : (machine Tid T).Reachable s) :
    count Loc.holding s.pc = s.queue.mLocked.toNat := by
  refine hs.invariant (I := fun s => count Loc.holding s.pc = s.queue.mLocked.toNat) ?_ ?_
  · rintro _ rfl
    exact Threads.count_eq_zero_iff.mpr fun t => rfl
  · intro s a s' _ ih _ hstep
    cases moves_of_step hstep with
    | enqueue ht | dequeue ht | spurious ht =>
      refine (count_update_eq ?_).trans ih
      rw [ht]
      rfl
    | wake ht hu => exact (count_wake_eq ht hu rfl rfl).trans ih
    | @exec t w l o ht ho hnone =>
      have hmove := count_update Loc.holding s.pc t o.next
      rw [ht] at hmove
      cases ho with
      | lock hfree | relock hfree =>
        simp only [Option.any_some, Loc.holding, hfree, Bool.toNat_true, Bool.toNat_false]
          at hmove ih ⊢
        omega
      | wait | unlock =>
        simp only [Option.any_some, Option.any_none, Loc.holding, Bool.toNat_true,
          Bool.toNat_false] at hmove ⊢
        have := s.queue.mLocked.toNat_le
        omega
      | _ =>
        simp only [Option.any_some, Option.any_none, Loc.holding] at hmove ⊢
        omega

/-- So past the lock a thread is alone. -/
theorem holding_unique (hs : (machine Tid T).Reachable s) {t u : Tid} {l l' : Loc T}
    (ht : s.pc t = some l) (hl : l.holding = true) (hu : s.pc u = some l')
    (hl' : l'.holding = true) : t = u := by
  by_contra hne
  have hle := Threads.add_le_total (fun x => (Option.any Loc.holding x).toNat) s.pc hne
  rw [← Threads.count_eq_total] at hle
  simp only [ht, hu, Option.any_some, hl, hl', Bool.toNat_true] at hle
  have hone := (holding_eq hs).trans_le (Bool.toNat_le _)
  unfold count at hone
  omega

end SynchronisedQueue

end TestBuffer
