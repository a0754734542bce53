import TestBuffer.BlockingReaderWriterQueue.Size
import TestBuffer.ReaderWriterQueue.Progress
/-!
# Nobody waits for an element that is there

A consumer inside a dequeue, with an element accepted and not yet removed,
can get one by its own steps and the rest of a signal under way, with no
further call of the producer (`no_lost_element`). Where it stands says how
far it is: before the semaphore, in it, before `inner` and in it. The
semaphore lets it through where there is a permit, as `sema` loses no
wake-up; and `inner` has an element for whom it let through, so the answer
is an element.
-/

namespace TestBuffer

namespace BlockingReaderWriterQueue

open ReaderWriterQueue (Answer)

variable {T : Type*}

/-- The consumer is in a dequeue that is not decided. -/
def State.trying (s : State T) : Prop :=
  match s.1.1.consumer with
  | .wait _ | .dequeue _ | .dequeuing _ => True
  | .waiting _ => s.2.waiter = .answer true ∨ s.2.waiter.undecided = true
  | .idle | .look | .looking | .answer _ | .failed => False

/-- It has an element to return. -/
def State.got (s : State T) : Prop :=
  ∃ r, s.1.1.consumer = .answer r ∧ removes r = true

/-- How far it is from one. -/
def State.rank (s : State T) : ℕ :=
  match s.1.1.consumer with
  | .wait _ => 30
  | .waiting _ => 20 + s.2.rank
  | .dequeue _ => 15
  | .dequeuing _ => 2 + s.1.2.consumer.left
  | .idle | .look | .looking | .answer _ | .failed => 0

/-- The steps of the consumer and the rest of a signal, but for a time that
is up and for calls and returns of the queue. -/
def isOwn : Act (Event T) (Step T) → Bool
  | .inner (.object a) => LightweightSemaphore.isOwn (.inner a)
  | .inner (.shared (.call _)) | .inner (.shared (.returned _)) => true
  | .inner (.program (.object side)) => side = .consumer
  | .inner (.program (.shared (.call _))) | .inner (.program (.shared (.returned _))) => true
  | _ => false

variable [DecidableEq T] {z : ReaderWriterQueue.Sizes} {maxBlockSize maxSize : ℕ}
variable {s : State T} {pp : Producer T} {q : ReaderWriterQueue.State T}
variable {u : LightweightSemaphore.State} {m : Middle T} {t : Spec.State T}
variable {withheld taken : ℕ} {op : Op}

/-- A step of its own brings the consumer nearer. -/
def Nearer (maxBlockSize maxSize : ℕ) (s : State T) : Prop :=
  ∃ a s', isOwn a = true ∧ ((queue T maxBlockSize maxSize).guard timely).step s a = some s' ∧
    (s'.trying ∨ s'.got) ∧ s'.rank < s.rank

/-! ## One step nearer -/

/-- Before the semaphore. -/
theorem nearer_wait
    (hmem : Members maxBlockSize maxSize ((⟨pp, .wait op⟩, q), u) m)
    (hR : Rel m t withheld taken) :
    Nearer maxBlockSize maxSize ((⟨pp, .wait op⟩, q), u) := by
  obtain ⟨⟨hprog, -⟩, hsem⟩ := hmem
  have hc := hR.consumer
  rw [← hprog] at hc
  obtain ⟨-, hw, ⟨hop, -⟩, -⟩ := hc
  obtain ⟨o, ho⟩ : ∃ o, some o = op.sema := by
    cases op with
    | peek => exact absurd rfl hop
    | tryDequeue | waitDequeue | waitDequeueTimed | pop => exact ⟨_, rfl⟩
  have hidle := hsem.waiter
  rw [hw] at hidle
  have hidle := hidle.eq_idle
  obtain ⟨k, n, w, l⟩ := u
  obtain rfl : w = .idle := hidle
  have hcall : onSema ⟨pp, .wait op⟩ (.call o) = some ⟨pp, .waiting op⟩ := if_pos ho
  refine ⟨.inner (.shared (.call o)), ((⟨pp, .waiting op⟩, q), ⟨k, n, .load o, l⟩), rfl,
    Machine.guard_step_eq_some.mpr ⟨rfl, ?_⟩, Or.inl (Or.inr rfl), ?_⟩
  · show ((onSema ⟨pp, .wait op⟩ (.call o)).map _).bind _ = _
    rw [hcall]
    rfl
  · have hle := LightweightSemaphore.State.rank_le ⟨k, n, .load o, l⟩
    exact (Nat.add_le_add_left hle 20).trans_lt (show 20 + 7 < 30 by decide)

/-- In it, where there is a permit. -/
theorem nearer_waiting
    (hmem : Members maxBlockSize maxSize ((⟨pp, .waiting op⟩, q), u) m)
    (hvalue : u.waiter.undecided = true → 0 < m.2.value)
    (htry : State.trying (((⟨pp, .waiting op⟩, q), u) : State T)) :
    Nearer maxBlockSize maxSize ((⟨pp, .waiting op⟩, q), u) := by
  by_cases hlet : u.waiter = .answer true
  · obtain ⟨k, n, w, l⟩ := u
    obtain rfl : w = .answer true := hlet
    refine ⟨.inner (.shared (.returned true)), ((⟨pp, .dequeue op⟩, q), ⟨k, n, .idle, l⟩),
      rfl, Machine.guard_step_eq_some.mpr ⟨rfl, rfl⟩, Or.inl trivial, ?_⟩
    show 15 < 20 + _
    omega
  · have hu : u.waiter.undecided = true := htry.resolve_left hlet
    have hcoming : LightweightSemaphore.Coming u := Or.inr ⟨hu, m.2, hmem.2, hvalue hu⟩
    obtain ⟨a, u', hown, hclean, hstep, hcoming', hlt, -⟩ := hcoming.step hlet
    cases a with
    | event e => cases hown
    | inner b =>
      refine ⟨.inner (.object b), ((⟨pp, .waiting op⟩, q), u'), hown,
        Machine.guard_step_eq_some.mpr ⟨?_, ?_⟩, Or.inl (hcoming'.imp_right And.left),
        Nat.add_lt_add_left hlt 20⟩
      · cases b with
        | clock nsec => exact hclean
        | waiter | expire | invalid | signaller => rfl
      · show (LightweightSemaphore.step u (.inner b)).map _ = _
        rw [hstep]
        rfl

/-- Before `inner`. -/
theorem nearer_dequeue
    (hmem : Members maxBlockSize maxSize ((⟨pp, .dequeue op⟩, q), u) m)
    (hR : Rel m t withheld taken) :
    Nearer maxBlockSize maxSize ((⟨pp, .dequeue op⟩, q), u) := by
  obtain ⟨⟨hprog, used, free, vals, hin⟩, -⟩ := hmem
  have hc := hR.consumer
  rw [← hprog] at hc
  obtain ⟨hq, -⟩ := hc
  have hidle := hin.consumer
  rw [hq] at hidle
  obtain ⟨held, hidle⟩ := hidle.eq_idle
  obtain ⟨b, l, c⟩ := q
  obtain rfl : c = .idle held := hidle
  have hcall : onInner ⟨pp, .dequeue op⟩ (.call op.inner) =
      some ⟨pp, .dequeuing op⟩ := if_pos rfl
  refine ⟨.inner (.inner (.call op.inner)),
    ((⟨pp, .dequeuing op⟩, ⟨b, l, .start op.inner⟩), u), rfl,
    Machine.guard_step_eq_some.mpr ⟨rfl, ?_⟩, Or.inl trivial, ?_⟩
  · show (((onInner ⟨pp, .dequeue op⟩ (.call op.inner)).bind _)).map _ = _
    rw [hcall]
    rfl
  · show 2 + 9 < 15
    omega

omit [DecidableEq T] in
/-- It does not look only. -/
theorem Dequeuing.ne_peek {c : ReaderWriterQueue.Spec.Consumer T} {tc : Spec.Consumer T}
    (h : Dequeuing op c tc taken) (wasEmpty : Bool) : c ≠ .pending .peek wasEmpty := by
  cases h with
  | taken => exact nofun
  | pending hpend =>
    obtain ⟨hop, -⟩ := hpend
    cases op with
    | peek => exact absurd rfl hop
    | tryDequeue | waitDequeue | waitDequeueTimed | pop => exact nofun

/-- What `inner` answers to it is an element. -/
theorem Dequeuing.removes_of_returned {b : ReaderWriterQueue.Members T}
    {used : List ℕ} {vals : ℕ → List T} {l : ReaderWriterQueue.Producer T}
    {k : ReaderWriterQueue.Consumer T} {c : ReaderWriterQueue.Spec.Consumer T}
    {tc : Spec.Consumer T} {r : Answer T} (h : Dequeuing op c tc taken)
    (hk : ReaderWriterQueue.ConsumerOk b used vals c k)
    (hs : (ReaderWriterQueue.step maxBlockSize ⟨b, l, k⟩ (.event (.returned r))).isSome) :
    success r = true ∧ removes r = true := by
  cases k with
  | idle | start | readTail | readTailBlock | reread | readNext | readNextTail | moveFront | take
  | publish => cases hs
  | pointer a =>
    cases a with
    | none => exact absurd hk (h.ne_peek true)
    | some a =>
      obtain ⟨⟨e, he, -⟩, -⟩ := hk
      exact absurd he (h.ne_peek e)
  | answer r' =>
    obtain rfl : c = .answered r' := hk
    cases h with
    | @taken x hop =>
      obtain ⟨_, hs⟩ := Option.isSome_iff_exists.mp hs
      obtain ⟨rfl, -⟩ := Option.ite_none_right_eq_some.mp hs
      refine ⟨?_, removes_found hop x⟩
      cases op <;> rfl

/-- In `inner`. -/
theorem nearer_dequeuing
    (hmem : Members maxBlockSize maxSize ((⟨pp, .dequeuing op⟩, q), u) m)
    (hR : Rel m t withheld taken) :
    Nearer maxBlockSize maxSize ((⟨pp, .dequeuing op⟩, q), u) := by
  obtain ⟨⟨hprog, used, free, vals, hin⟩, -⟩ := hmem
  have hc := hR.consumer
  rw [← hprog] at hc
  obtain ⟨-, hdeq⟩ := hc
  obtain ⟨b, l, k⟩ := q
  have hbusy : ∀ held, k ≠ .idle held := by
    rintro held rfl
    obtain ⟨hq, -⟩ := hin.consumer
    rw [hq] at hdeq
    cases hdeq
  obtain ⟨a, ha | ha, hs⟩ := hin.exists_consume hbusy
  · cases a with
    | event e => cases e <;> cases ha
    | inner side =>
      obtain rfl : ReaderWriterQueue.Side.consumer = side := of_decide_eq_true ha
      obtain ⟨q', hq'⟩ := Option.isSome_iff_exists.mp hs
      refine ⟨.inner (.program (.object .consumer)), ((⟨pp, .dequeuing op⟩, q'), u), rfl,
        Machine.guard_step_eq_some.mpr ⟨rfl, ?_⟩, Or.inl trivial,
        Nat.add_lt_add_left (ReaderWriterQueue.left_of_consume hq').1 2⟩
      show ((ReaderWriterQueue.step maxBlockSize _ (.inner .consumer)).map _).map _ = _
      rw [hq']
      rfl
  · cases a with
    | inner side => cases ha
    | event e =>
      cases e with
      | enqueue | malloc | call => cases ha
      | enqueued => cases ha
      | returned r =>
        obtain ⟨hsuccess, hremoves⟩ := hdeq.removes_of_returned hin.consumer hs
        obtain ⟨q', hq'⟩ := Option.isSome_iff_exists.mp hs
        have hreturn : onInner ⟨pp, .dequeuing op⟩ (.returned r) =
            some ⟨pp, .answer r⟩ :=
          congrArg (fun c => some (⟨pp, c⟩ : Program T)) (if_pos hsuccess)
        refine ⟨.inner (.inner (.returned r)), ((⟨pp, .answer r⟩, q'), u), rfl,
          Machine.guard_step_eq_some.mpr ⟨rfl, ?_⟩, Or.inr ⟨r, rfl, hremoves⟩, ?_⟩
        · show ((onInner ⟨pp, .dequeuing op⟩ (.returned r)).bind fun p' =>
            (ReaderWriterQueue.step maxBlockSize _ (.event (.returned r))).map _).map _ = _
          rw [hreturn, Option.bind_some, hq']
          rfl
        · show 0 < 2 + _
          omega

/-! ## All of them -/

/-- What the consumer needs: to be trying, with an element accepted and not
removed. -/
def Ahead (maxBlockSize maxSize : ℕ) (s : State T) : Prop :=
  s.trying ∧ ∃ as, ((queue T maxBlockSize maxSize).guard timely).run
    (construct maxBlockSize maxSize) as = some s ∧
      removed (Act.history as) < accepted (Act.history as)

/-- **One step nearer**, wherever the consumer stands. -/
theorem Ahead.nearer (h : ReaderWriterQueue.Config z maxBlockSize maxSize)
    (hs : Ahead maxBlockSize maxSize s) : Nearer maxBlockSize maxSize s := by
  obtain ⟨htry, as, hrun, hlt⟩ := hs
  obtain ⟨m, t, withheld, taken, hmem, hR, hcount⟩ := exists_rel h hrun
  obtain ⟨⟨⟨pp, pc⟩, q⟩, u⟩ := s
  cases pc with
  | idle | look | looking | answer | failed => exact htry.elim
  | wait op => exact nearer_wait hmem hR
  | dequeue op => exact nearer_dequeue hmem hR
  | dequeuing op => exact nearer_dequeuing hmem hR
  | waiting op =>
    refine nearer_waiting hmem (fun hu => ?_) htry
    -- no permit is taken, so what is accepted and not removed has one
    obtain ⟨o, ho⟩ := hmem.2.pending_of_undecided hu
    have hlen := hR.length
    have hearly := hR.producer.withheld_le_early
    have hc := hR.consumer
    rw [← hmem.1.1] at hc
    obtain ⟨-, hw⟩ := hc
    rw [ho] at hw
    cases hw with
    | pending ho' hpend =>
      obtain ⟨-, e, he⟩ := hpend
      rw [he] at hcount
      have hlate : (Spec.Consumer.pending op e : Spec.Consumer T).late = 0 := rfl
      omega

/-- It is so of the next state, until there is an element. -/
theorem Ahead.step (h : ReaderWriterQueue.Config z maxBlockSize maxSize)
    (hs : Ahead maxBlockSize maxSize s) :
    ∃ a s', ((queue T maxBlockSize maxSize).guard fun s a => timely s a && isOwn a).step s a =
      some s' ∧ (Ahead maxBlockSize maxSize s' ∨ s'.got) ∧ s'.rank < s.rank := by
  obtain ⟨a, s', hown, hstep, hor, hrank⟩ := hs.nearer h
  obtain ⟨-, as, hrun, hlt⟩ := hs
  obtain ⟨htimely, hqueue⟩ := Machine.guard_step_eq_some.mp hstep
  refine ⟨a, s', Machine.guard_step_eq_some.mpr ⟨?_, hqueue⟩, hor.imp_left fun htry => ?_, hrank⟩
  · rw [htimely, hown]
    rfl
  · refine ⟨htry, as ++ [a], ?_, ?_⟩
    · rw [Machine.run_append, hrun, Option.bind_some, Machine.run_singleton, hstep]
    · -- nothing has returned in between
      cases a with
      | event e => cases hown
      | inner b =>
        rw [Act.history_append, Act.history_cons_inner, Act.history_nil, List.append_nil]
        exact hlt

/-- **No element is lost to a consumer.** Inside a dequeue that is not
decided, with more elements accepted than removed, the consumer can get one
by its own steps and the rest of a signal under way. -/
theorem no_lost_element (h : ReaderWriterQueue.Config z maxBlockSize maxSize)
    {as : List (Act (Event T) (Step T))}
    (hrun : ((queue T maxBlockSize maxSize).guard timely).run (construct maxBlockSize maxSize) as =
      some s) (htry : s.trying)
    (hlt : removed (Act.history as) < accepted (Act.history as)) :
    ∃ bs s', ((queue T maxBlockSize maxSize).guard fun s a => timely s a && isOwn a).run s bs =
      some s' ∧ s'.got := by
  obtain ⟨bs, s', hbs, -, hgot⟩ :=
    Machine.exists_run_of_decreasing
      (M := (queue T maxBlockSize maxSize).guard fun s a => timely s a && isOwn a)
      (I := fun s => Ahead maxBlockSize maxSize s ∨ s.got) (G := State.got) State.rank
      (fun s hI hG => (hI.resolve_right hG).step h) (Or.inl ⟨htry, as, hrun, hlt⟩)
  exact ⟨bs, s', hbs, hgot⟩

/-- The consumer found no permit and turns in the loop, and an element is
enqueued. -/
def enqueueOneAwaited : List (Act (Event ℕ) (Step ℕ)) :=
  [.event (.call .waitDequeue), .inner (.shared (.call (.wait (-1)))), .inner (.object .waiter)] ++
    enqueueOne

theorem no_lost_element_one : ∃ s bs s',
    ((queue ℕ 512 15).guard timely).run (construct 512 15) enqueueOneAwaited = some s ∧
    ((queue ℕ 512 15).guard fun s a => timely s a && isOwn a).run s bs = some s' ∧ s'.got := by
  obtain ⟨s, hrun⟩ : ∃ s, ((queue ℕ 512 15).guard timely).run (construct 512 15)
      enqueueOneAwaited = some s := ⟨_, rfl⟩
  have htry : s.trying := by
    cases hrun
    exact Or.inr rfl
  obtain ⟨bs, s', hbs, hgot⟩ :=
    no_lost_element ReaderWriterQueue.config_default hrun htry (by decide)
  exact ⟨s, bs, s', hrun, hbs, hgot⟩

end BlockingReaderWriterQueue

end TestBuffer
