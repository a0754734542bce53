import TestBuffer.BlockingReaderWriterQueue.Refine
import TestBuffer.LightweightSemaphore.Wake
import TestBuffer.ReaderWriterQueue.Walk
/-!
# What `size_approx` of the blocking queue counts

`size_approx` is the number of permits the semaphore shows, not the number
of elements in `inner`. Every element is in the contents from its insertion
to its removal, so the contents are the enqueues that were accepted less
the dequeues that succeeded, but for the calls under way
(`Spec.count_run`); and the permits are the contents but for the element a
call of either thread has in hand (`sizeApprox_near`).
-/

namespace TestBuffer

namespace BlockingReaderWriterQueue

open ReaderWriterQueue (Answer)

variable {T : Type*}

/-! ## Counting -/

/-- An enqueue is accepted. -/
def Event.accepts : Event T → Bool
  | .enqueued ok => ok
  | .enqueue _ _ | .call _ | .returned _ => false

/-- The answer of a call that removed an element. -/
def removes : Answer T → Bool
  | .dequeued x => x.isSome
  | .popped ok => ok
  | .peeked _ => false

/-- A dequeue succeeds. -/
def Event.removes : Event T → Bool
  | .returned r => BlockingReaderWriterQueue.removes r
  | .enqueue _ _ | .enqueued _ | .call _ => false

/-- The enqueues a history has seen accepted. -/
def accepted (es : List (Event T)) : ℕ := es.countP Event.accepts

/-- The dequeues it has seen succeed. -/
def removed (es : List (Event T)) : ℕ := es.countP Event.removes

theorem removes_found {op : Op} (h : op ≠ .peek) (x : T) : removes (op.inner.found x) = true := by
  cases op with
  | peek => exact absurd rfl h
  | tryDequeue | waitDequeue | waitDequeueTimed | pop => rfl

theorem removes_empty (op : Op) : removes (op.inner.empty : Answer T) = false := by
  cases op <;> rfl

namespace Spec

/-- The element of an enqueue that has not returned. -/
def Producer.early : Producer T → ℕ
  | .inserted | .answered true => 1
  | .idle | .pending _ _ | .answered false => 0

theorem Producer.early_le (p : Producer T) : p.early ≤ 1 := by
  cases p with
  | inserted => exact Nat.le_refl 1
  | idle | pending => exact Nat.zero_le 1
  | answered ok =>
    cases ok with
    | false => exact Nat.zero_le 1
    | true => exact Nat.le_refl 1

/-- The element of a dequeue that has not returned. -/
def Consumer.late : Consumer T → ℕ
  | .answered r => if removes r = true then 1 else 0
  | .idle | .pending _ _ => 0

/-- What a step does to the numbers. -/
def Counts (t t' : State T) (es : List (Event T)) : Prop :=
  t'.contents.length + t'.consumer.late + removed es + t.producer.early =
    t.contents.length + t.consumer.late + accepted es + t'.producer.early

variable [DecidableEq T] {capacity : ℕ} {t t' : State T}

theorem count_effect {e : Effect} (h : step capacity t (.inner e) = some t') : Counts t t' [] := by
  obtain ⟨cs, p, c⟩ := t
  cases e with
  | insert =>
    cases p <;> cases h
    show (cs ++ [_]).length + c.late + 0 + 0 = cs.length + c.late + 0 + 1
    rw [List.length_append, List.length_singleton]
    omega
  | publish => cases p <;> cases h; rfl
  | refuse =>
    cases p with
    | idle | inserted | answered => cases h
    | pending =>
      obtain ⟨-, ⟨⟩⟩ := Option.ite_none_right_eq_some.mp h
      rfl
  | respond =>
    cases c with
    | idle | answered => cases h
    | pending op e =>
      cases cs with
      | nil => cases op <;> cases h
      | cons x xs =>
        by_cases hop : op = .peek
        · subst hop
          cases h
          rfl
        · obtain ⟨-, rfl⟩ : 0 < (⟨x :: xs, p, .pending op e⟩ : State T).ready ∧
              (⟨xs, p, .answered (op.inner.found x)⟩ : State T) = t' := by
            cases op with
            | peek => exact absurd rfl hop
            | tryDequeue | waitDequeue | waitDequeueTimed | pop =>
              obtain ⟨hr, ht⟩ := Option.ite_none_right_eq_some.mp h
              exact ⟨hr, Option.some.inj ht⟩
          show xs.length + (if removes (op.inner.found x) = true then 1 else 0) + 0 + _ =
            xs.length + 1 + 0 + 0 + _
          rw [if_pos (removes_found hop x)]
  | empty =>
    cases c with
    | idle | answered => cases h
    | pending op e =>
      obtain rfl : t' = ⟨cs, p, .answered op.inner.empty⟩ := by
        cases op with
        | waitDequeue => cases h
        | tryDequeue | waitDequeueTimed | pop | peek =>
          exact (Option.some.inj (Option.ite_none_right_eq_some.mp h).2).symm
      show cs.length + (if removes (op.inner.empty : Answer T) = true then 1 else 0) + 0 + _ = _
      rw [removes_empty]
      rfl

theorem count_event {e : Event T} (h : step capacity t (.event e) = some t') :
    Counts t t' [e] := by
  obtain ⟨cs, p, c⟩ := t
  cases e with
  | enqueue mode x => cases p <;> cases h; rfl
  | enqueued ok =>
    cases p with
    | idle | pending | inserted => cases h
    | answered ok' =>
      obtain ⟨rfl, ⟨⟩⟩ := Option.ite_none_right_eq_some.mp h
      cases ok
      · rfl
      · show cs.length + c.late + 0 + 1 = cs.length + c.late + 1 + 0
        omega
  | call op => cases c <;> cases h; rfl
  | returned r =>
    cases c with
    | idle | pending => cases h
    | answered r' =>
      obtain ⟨rfl, ⟨⟩⟩ := Option.ite_none_right_eq_some.mp h
      show cs.length + 0 + removed [.returned r] + p.early =
        cs.length + (if removes r = true then 1 else 0) + 0 + p.early
      have hone : removed [.returned r] = if removes r = true then 1 else 0 := by
        rw [removed, List.countP_singleton]
        rfl
      omega

/-- **What is held is what was accepted and not removed**, but for the
calls under way. -/
theorem count_run {as : List (Act (Event T) Effect)}
    (h : (queue T capacity).run t as = some t') : Counts t t' (Act.history as) := by
  induction as generalizing t with
  | nil =>
    cases h
    rfl
  | cons a as ih =>
    rw [Machine.run_cons, Option.bind_eq_some_iff] at h
    obtain ⟨m, hm, h⟩ := h
    have hrest := ih h
    unfold Counts at hrest ⊢
    cases a with
    | event e =>
      have hfirst := count_event hm
      unfold Counts removed accepted at hfirst
      unfold removed accepted at hrest ⊢
      rw [Act.history_cons_event, List.countP_cons, List.countP_cons]
      rw [List.countP_singleton, List.countP_singleton] at hfirst
      omega
    | inner e =>
      have hfirst := count_effect hm
      unfold Counts removed accepted at hfirst
      rw [List.countP_nil, List.countP_nil] at hfirst
      rw [Act.history_cons_inner]
      omega

end Spec

/-! ## The threads -/

section Threads

variable {contents : List T} {q : ReaderWriterQueue.Spec.Producer T}
variable {d : LightweightSemaphore.Spec.Signaller} {tp : Spec.Producer T} {withheld taken : ℕ}
variable {c : ReaderWriterQueue.Spec.Consumer T} {w : LightweightSemaphore.Spec.Waiter}
variable {tc : Spec.Consumer T} {pp : Producer T} {pc : Consumer T}

/-- What is withheld is of an enqueue that has not returned. -/
theorem ProducerOk.withheld_le_early (h : ProducerOk contents q d tp withheld pp) :
    withheld ≤ tp.early := by
  rw [← h.withheld_eq]
  cases tp with
  | inserted => exact Nat.le_refl 1
  | idle | pending | answered => exact Nat.zero_le _

/-- There is one element at most in the producer's hand: withheld, or in a
block not linked yet. -/
theorem ProducerOk.withheld_add_filled_le {capacity : ℕ} {m : ReaderWriterQueue.Members T}
    {used free : List ℕ} {vals : ℕ → List T} {l : ReaderWriterQueue.Producer T}
    (h : ProducerOk contents q d tp withheld pp)
    (hl : ReaderWriterQueue.ProducerOk capacity m used free vals q l) :
    withheld + l.filled ≤ 1 := by
  have hone : withheld ≤ 1 := by
    rw [← h.withheld_eq]
    cases tp with
    | inserted => exact Nat.le_refl 1
    | idle | pending | answered => exact Nat.zero_le 1
  cases l with
  | idle | start | readFront | write | publish | full | advance | readTail | writeNext
  | publishNext | alloc | link | answer => exact hone
  | moveTail x nb =>
    obtain ⟨hask, -⟩ := hl
    have hzero : withheld = 0 := by
      cases pp with
      | idle | start | signal | signaling | answer =>
        obtain ⟨rfl : q = .idle, -⟩ := h
        obtain ⟨mode, held, ⟨⟩⟩ | ⟨⟨⟩⟩ := hask
      | enqueuing =>
        obtain ⟨he, -⟩ := h
        cases he with
        | pending | granted | refused => rfl
        | inserted => obtain ⟨mode, held, ⟨⟩⟩ | ⟨⟨⟩⟩ := hask
    rw [hzero]
    exact Nat.le_refl 1

/-- There is one permit at most in the consumer's hand: taken, or used by a
dequeue that has not returned, or owed. -/
theorem ConsumerOk.taken_add_late_le {waiter : LightweightSemaphore.Waiter}
    (h : ConsumerOk contents c w tc taken pc)
    (ho : waiter.owes = true → ∃ op, w = .pending op) :
    taken + tc.late + waiter.debt ≤ 1 := by
  have hlate : tc.late ≤ 1 := by
    cases tc with
    | idle | pending => exact Nat.zero_le _
    | answered r =>
      show (if removes r = true then 1 else 0) ≤ 1
      split <;> omega
  have hfree : (∀ op, w ≠ .pending op) → waiter.debt = 0 := fun hw => if_neg fun hwaiter => by
    obtain ⟨op, hop⟩ := ho hwaiter
    exact hw op hop
  cases pc with
  | failed => exact h.elim
  | idle | answer =>
    obtain ⟨-, rfl, -, rfl⟩ := h
    rw [hfree nofun]
    omega
  | wait op | dequeue op =>
    obtain ⟨-, rfl, ⟨-, e, rfl⟩, rfl⟩ := h
    rw [hfree nofun]
    show _ + 0 + 0 ≤ 1
    omega
  | look =>
    obtain ⟨-, rfl, ⟨e, rfl, -⟩, rfl⟩ := h
    rw [hfree nofun]
    exact Nat.zero_le 1
  | looking =>
    obtain ⟨rfl, -, rfl⟩ := h
    rw [hfree nofun]
    omega
  | dequeuing op =>
    obtain ⟨rfl, hdeq⟩ := h
    rw [hfree nofun]
    cases hdeq with
    | pending hpend =>
      obtain ⟨-, e, rfl⟩ := hpend
      exact Nat.le_refl 1
    | taken => omega
  | waiting op =>
    obtain ⟨-, hw⟩ := h
    cases hw with
    | pending ho' hpend =>
      obtain ⟨-, e, rfl⟩ := hpend
      show 0 + 0 + waiter.debt ≤ 1
      have := waiter.debt_le
      omega
    | taken hpend =>
      obtain ⟨-, e, rfl⟩ := hpend
      rw [hfree nofun]
      exact Nat.le_refl 1
    | failed =>
      rw [hfree nofun]
      omega

end Threads

/-! ## `size_approx` -/

variable [DecidableEq T] {z : ReaderWriterQueue.Sizes} {maxBlockSize maxSize : ℕ} {s : State T}

/-- **What a run has come to**: how the queue stands to its specification,
and how many elements are held. -/
theorem exists_rel (h : ReaderWriterQueue.Config z maxBlockSize maxSize)
    {as : List (Act (Event T) (Step T))}
    (hrun : ((queue T maxBlockSize maxSize).guard timely).run (construct maxBlockSize maxSize) as =
      some s) :
    ∃ m t withheld taken, Members maxBlockSize maxSize s m ∧ Rel m t withheld taken ∧
      accepted (Act.history as) + t.producer.early =
        removed (Act.history as) + t.contents.length + t.consumer.late := by
  obtain ⟨t₀, rfl, hR₀⟩ := (refines (T := T) h).init (construct maxBlockSize maxSize)
    ⟨⟨rfl, rfl⟩, rfl⟩
  obtain ⟨bs, t, hbs, hh, m, hm, withheld, taken, hR⟩ := (refines h).run hR₀ hrun
  have hcount := Spec.count_run hbs
  rw [hh] at hcount
  have hcount : t.contents.length + t.consumer.late + removed (Act.history as) + 0 =
    0 + 0 + accepted (Act.history as) + t.producer.early := hcount
  exact ⟨m, t, withheld, taken, hm, hR, by omega⟩

/-- **`size_approx` is the number of elements accepted and not removed**,
with no call under way, and is then that of `inner`; a call of the producer
may count its element already, and one of the consumer no longer. -/
theorem sizeApprox_near (h : ReaderWriterQueue.Config z maxBlockSize maxSize)
    {as : List (Act (Event T) (Step T))}
    (hrun : ((queue T maxBlockSize maxSize).guard timely).run (construct maxBlockSize maxSize) as =
      some s) :
    ∃ n : ℕ, s.1.2.sizeApprox = some n ∧
      sizeApprox s ≤ n ∧ n ≤ sizeApprox s + 2 ∧
      removed (Act.history as) + sizeApprox s ≤ accepted (Act.history as) + 1 ∧
      accepted (Act.history as) ≤ removed (Act.history as) + sizeApprox s + 1 ∧
      (s.1.1.producer = .idle →
        removed (Act.history as) + sizeApprox s ≤ accepted (Act.history as)) ∧
      (s.1.1.consumer = .idle →
        accepted (Act.history as) ≤ removed (Act.history as) + sizeApprox s) ∧
      (s.1.1.producer = .idle → s.1.1.consumer = .idle → n = sizeApprox s) := by
  obtain ⟨m, t, withheld, taken, ⟨⟨hprog, used, free, vals, hin⟩, hsem⟩, hRel, hstart⟩ :=
    exists_rel h hrun
  have hshow := hsem.availableApprox
  have howes : s.2.waiter.owes = true → ∃ op, m.2.waiter = .pending op :=
    fun ho => hsem.pending_of_undecided (LightweightSemaphore.Waiter.undecided_of_owes ho)
  have hhand := hRel.consumer.taken_add_late_le howes
  have hfill := hRel.producer.withheld_add_filled_le hin.producer
  have hearly := hRel.producer.withheld_le_early
  have hone : t.producer.early ≤ 1 := Spec.Producer.early_le _
  have hlen := hRel.length
  have hinner : s.1.2.sizeApprox = some (t.contents.length + s.1.2.producer.filled) := by
    rw [hRel.contents]
    exact hin.sizeApprox h.mul_lt
  have hp : s.1.1.producer = .idle → t.producer.early = 0 ∧ s.1.2.producer.filled = 0 := by
    intro hidle
    have hok := hRel.producer
    rw [← hprog, hidle] at hok
    obtain ⟨hq, -, ht, -⟩ := hok
    have hok := hin.producer
    rw [hq] at hok
    rw [ht, hok.eq_idle]
    exact ⟨rfl, rfl⟩
  have hc : s.1.1.consumer = .idle → taken + t.consumer.late + s.2.waiter.debt = 0 := by
    intro hidle
    have hok := hRel.consumer
    rw [← hprog, hidle] at hok
    obtain ⟨-, hw, ht, rfl⟩ := hok
    have hdebt : s.2.waiter.debt = 0 := if_neg fun ho => by
      obtain ⟨op, hop⟩ := howes ho
      cases hop.symm.trans hw
    rw [ht, hdebt]
    rfl
  unfold sizeApprox
  refine ⟨_, hinner, by omega, by omega, by omega, by omega, fun hidle => ?_, fun hidle => ?_,
    fun hidle hidle' => ?_⟩
  · have := hp hidle
    omega
  · have := hc hidle
    omega
  · have := hp hidle
    have := hc hidle'
    omega

/-- The element enqueued is one. -/
theorem sizeApprox_near_one : ∃ s : State ℕ,
    ((queue ℕ 512 15).guard timely).run (construct 512 15) enqueueOne = some s ∧
    sizeApprox s = 1 := by
  obtain ⟨s, hrun⟩ : ∃ s, ((queue ℕ 512 15).guard timely).run (construct 512 15) enqueueOne =
      some s := ⟨_, rfl⟩
  obtain ⟨n, -, -, -, -, -, hp, hc, -⟩ := sizeApprox_near ReaderWriterQueue.config_default hrun
  have hle : (0 : ℕ) + sizeApprox s ≤ (1 : ℕ) := hp (by cases hrun; rfl)
  have hge : (1 : ℕ) ≤ (0 : ℕ) + sizeApprox s := hc (by cases hrun; rfl)
  exact ⟨s, hrun, by omega⟩

end BlockingReaderWriterQueue

end TestBuffer
