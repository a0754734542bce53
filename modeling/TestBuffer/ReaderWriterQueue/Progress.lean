import TestBuffer.ReaderWriterQueue.Fifo
/-!
# No operation waits

A thread inside a call can always take its next step, whatever the other
is doing: no assertion fails, no null pointer is followed and no element
is read that is not there. And a call takes a bounded number of its own
thread's steps, however the other's are put between them (`left_run`): the
queue is wait-free, but for `malloc` (`wait_free`).
-/

namespace TestBuffer

namespace ReaderWriterQueue

variable {T : Type*}

/-! ## Counting steps -/

/-- A thread calls. -/
def isCall (side : Side) : Act (Event T) Side → Bool
  | .event (.enqueue _ _) => side = .producer
  | .event (.call _) => side = .consumer
  | _ => false

/-- A thread's call returns. -/
def isReturn (side : Side) : Act (Event T) Side → Bool
  | .event (.enqueued _) => side = .producer
  | .event (.returned _) => side = .consumer
  | _ => false

/-- A thread takes a step within a call. -/
def isStep (side : Side) : Act (Event T) Side → Bool
  | .event (.malloc _) => side = .producer
  | .inner side' => side = side'
  | _ => false

/-- The most steps a call can take. -/
def callSteps : Side → ℕ
  | .producer => 8
  | .consumer => 9

/-- The most steps the producer has left. -/
def Producer.left : Producer T → ℕ
  | .start _ _ => 8
  | .readFront .. => 7
  | .full .. => 6
  | .advance .. => 5
  | .readTail .. => 4
  | .writeNext .. | .alloc .. => 3
  | .publishNext .. | .link .. | .write .. => 2
  | .moveTail .. | .publish .. => 1
  | .idle | .answer _ => 0

/-- The most steps the consumer has left. -/
def Consumer.left : Consumer T → ℕ
  | .start _ => 9
  | .readTail .. => 8
  | .readTailBlock .. => 7
  | .reread _ => 6
  | .readNext .. => 5
  | .readNextTail .. => 4
  | .moveFront .. => 3
  | .take .. => 2
  | .publish .. => 1
  | .idle _ | .pointer _ | .answer _ => 0

/-- The most steps a thread has left. -/
def State.left (s : State T) : Side → ℕ
  | .producer => s.producer.left
  | .consumer => s.consumer.left

/-- A call has no more steps left than it may take. -/
theorem left_le (s : State T) (side : Side) : s.left side ≤ callSteps side := by
  cases side with
  | producer =>
    show s.producer.left ≤ 8
    unfold Producer.left
    split <;> omega
  | consumer =>
    show s.consumer.left ≤ 9
    unfold Consumer.left
    split <;> omega

/-- A thread is inside a call. -/
def State.Busy (s : State T) : Side → Prop
  | .producer => s.producer ≠ .idle
  | .consumer => ∀ held, s.consumer ≠ .idle held

variable {s s' : State T} {side : Side}

theorem Op.left_atElement_le (op : Op) (blk i : ℕ) :
    (op.atElement blk i : Consumer T).left ≤ 2 := by
  cases op
  · exact le_rfl
  · exact le_rfl
  · exact Nat.zero_le _

theorem Op.left_atEmpty (op : Op) : (op.atEmpty : Consumer T).left = 0 := by
  cases op <;> rfl

/-- A step of the producer brings its call nearer to the end, and is no
step of the consumer's. -/
theorem left_of_produce (hs : produce s = some s') :
    s'.producer.left < s.producer.left ∧ s'.consumer = s.consumer := by
  obtain ⟨m, l, c⟩ := s
  cases l with
  | idle | alloc | answer => cases hs
  | write | publish | writeNext | publishNext | link | moveTail =>
    cases hs
    exact ⟨Nat.lt_succ_self _, rfl⟩
  | start | readFront | readTail =>
    unfold produce at hs
    dsimp only at hs
    split at hs <;> cases hs <;> exact ⟨by simp [Producer.left], rfl⟩
  | full mode x blk =>
    unfold produce at hs
    dsimp only at hs
    split at hs
    · cases hs
      exact ⟨by simp [Producer.left], rfl⟩
    · cases mode <;> cases hs <;> exact ⟨by simp [Producer.left], rfl⟩
  | advance x blk =>
    unfold produce at hs
    dsimp only at hs
    split at hs <;> cases hs
    exact ⟨by simp [Producer.left], rfl⟩

/-- The allocation too. -/
theorem left_of_allocate {maxBlockSize : ℕ} {ok : Bool}
    (hs : allocate maxBlockSize s ok = some s') :
    s'.producer.left < s.producer.left ∧ s'.consumer = s.consumer := by
  obtain ⟨m, l, c⟩ := s
  cases l with
  | alloc x blk => cases ok <;> cases hs <;> exact ⟨by simp [Producer.left], rfl⟩
  | idle | start | readFront | write | publish | full | advance | readTail | writeNext
  | publishNext | link | moveTail | answer => cases hs

/-- A step of the consumer. -/
theorem left_of_consume (hs : consume s = some s') :
    s'.consumer.left < s.consumer.left ∧ s'.producer = s.producer := by
  obtain ⟨m, l, c⟩ := s
  cases c with
  | idle | pointer | answer => cases hs
  | moveFront | publish =>
    cases hs
    exact ⟨Nat.lt_succ_self _, rfl⟩
  | start op | readTail op | reread op =>
    unfold consume at hs
    dsimp only at hs
    split at hs <;> cases hs
    · exact ⟨lt_of_le_of_lt (Op.left_atElement_le op _ _) (by simp [Consumer.left]), rfl⟩
    · exact ⟨by simp [Consumer.left], rfl⟩
  | readTailBlock op blk =>
    unfold consume at hs
    dsimp only at hs
    split at hs <;> cases hs
    · exact ⟨by simp [Consumer.left], rfl⟩
    · exact ⟨lt_of_eq_of_lt (Op.left_atEmpty op) (by simp [Consumer.left]), rfl⟩
  | readNext | take =>
    unfold consume at hs
    dsimp only at hs
    split at hs <;> cases hs
    exact ⟨by simp [Consumer.left], rfl⟩
  | readNextTail op nb nbf =>
    unfold consume at hs
    dsimp only at hs
    split at hs
    · cases hs
    · split at hs <;> cases hs <;> exact ⟨by simp [Consumer.left], rfl⟩

/-! ## Every call is short -/

variable [DecidableEq T] {z : Sizes} {maxBlockSize maxSize : ℕ}

/-- What the returns and calls lead to. -/
theorem event_cases {e : Event T} (hs : step maxBlockSize s (.event e) = some s') :
    (∃ ok, e = .malloc ok ∧ allocate maxBlockSize s ok = some s') ∨
    (∃ mode x, e = .enqueue mode x ∧ s.producer = .idle ∧
      s' = { s with producer := .start mode x }) ∨
    (∃ ok, e = .enqueued ok ∧ s.producer = .answer ok ∧ s' = { s with producer := .idle }) ∨
    (∃ op held, e = .call op ∧ s.consumer = .idle held ∧
      s' = { s with consumer := .start op }) ∨
    ∃ r held, e = .returned r ∧ s.consumer.left = 0 ∧ s' = { s with consumer := .idle held } := by
  obtain ⟨m, l, c⟩ := s
  cases e with
  | enqueue mode x =>
    cases l <;> cases hs
    exact Or.inr (Or.inl ⟨mode, x, rfl, rfl, rfl⟩)
  | malloc ok => exact Or.inl ⟨ok, rfl, hs⟩
  | enqueued ok =>
    refine Or.inr (Or.inr (Or.inl ⟨ok, rfl, ?_⟩))
    cases l with
    | answer ok' =>
      obtain ⟨rfl, ⟨⟩⟩ := Option.ite_none_right_eq_some.mp hs
      exact ⟨rfl, rfl⟩
    | idle | start | readFront | write | publish | full | advance | readTail | writeNext
    | publishNext | alloc | link | moveTail => cases hs
  | call op =>
    cases c <;> cases hs
    exact Or.inr (Or.inr (Or.inr (Or.inl ⟨op, _, rfl, rfl, rfl⟩)))
  | returned r =>
    refine Or.inr (Or.inr (Or.inr (Or.inr ?_)))
    cases c with
    | answer r' =>
      obtain ⟨-, ⟨⟩⟩ := Option.ite_none_right_eq_some.mp hs
      exact ⟨r, none, rfl, rfl, rfl⟩
    | pointer p =>
      cases p with
      | none =>
        obtain ⟨-, ⟨⟩⟩ := Option.ite_none_right_eq_some.mp hs
        exact ⟨r, none, rfl, rfl, rfl⟩
      | some p =>
        cases hp : m.deref p with
        | none =>
          unfold step at hs
          dsimp only at hs
          rw [hp] at hs
          cases hs
        | some x =>
          rw [step_returned_pointer hp] at hs
          obtain ⟨-, ⟨⟩⟩ := Option.ite_none_right_eq_some.mp hs
          exact ⟨r, some p, rfl, rfl, rfl⟩
    | idle | start | readTail | readTailBlock | reread | readNext | readNextTail | moveFront
    | take | publish => cases hs

/-- **One action**: a step of a thread uses up one of those it has left,
and only its own call gives it more. -/
theorem left_step (side : Side) {a : Act (Event T) Side}
    (hs : step maxBlockSize s a = some s') :
    (if isStep side a = true then 1 else 0) + s'.left side ≤
      s.left side + if isCall side a = true then callSteps side else 0 := by
  have hproduce : s'.producer.left < s.producer.left ∧ s'.consumer = s.consumer →
      (if side = .producer then 1 else 0) + s'.left side ≤ s.left side := by
    rintro ⟨hlt, he⟩
    cases side with
    | producer =>
      show 1 + s'.producer.left ≤ s.producer.left
      omega
    | consumer =>
      show 0 + s'.consumer.left ≤ s.consumer.left
      rw [he, Nat.zero_add]
  rcases a with e | side'
  · rcases event_cases hs with ⟨ok, rfl, hs⟩ | ⟨mode, x, rfl, hl, rfl⟩ | ⟨ok, rfl, hl, rfl⟩ |
      ⟨op, held, rfl, hl, rfl⟩ | ⟨r, held, rfl, hl, rfl⟩
    · have := hproduce (left_of_allocate hs)
      simpa [isStep, isCall] using this
    · cases side <;> simp [isStep, isCall, State.left, callSteps, Producer.left, hl]
    · cases side <;> simp [isStep, isCall, State.left, Producer.left, hl]
    · cases side <;> simp [isStep, isCall, State.left, callSteps, Consumer.left, hl]
    · cases side <;> simp [isStep, isCall, State.left, Consumer.left]
  · cases side' with
    | producer =>
      have := hproduce (left_of_produce hs)
      simpa [isStep, isCall] using this
    | consumer =>
      obtain ⟨hlt, he⟩ := left_of_consume hs
      cases side with
      | producer => simp [isStep, isCall, State.left, he]
      | consumer =>
        show 1 + s'.consumer.left ≤ s.consumer.left + 0
        omega

/-- **A run**: the steps of a thread are no more than its calls allow. -/
theorem left_run (side : Side) {as : List (Act (Event T) Side)}
    (hs : (queue T maxBlockSize maxSize).run s as = some s') :
    as.countP (isStep side) + s'.left side ≤
      s.left side + callSteps side * as.countP (isCall side) := by
  induction as generalizing s with
  | nil =>
    cases hs
    simp
  | cons a as ih =>
    rw [Machine.run_cons, Option.bind_eq_some_iff] at hs
    obtain ⟨m, hm, hs⟩ := hs
    have hstep := left_step side hm
    have hrun := ih hs
    rw [List.countP_cons, List.countP_cons, Nat.mul_add, mul_ite, mul_one, mul_zero]
    omega

/-! ## No thread is stuck -/

variable {capacity : ℕ} {m : Members T} {l : Producer T} {c : Consumer T} {t : Spec.State T}
variable {used free : List ℕ} {vals : ℕ → List T}

/-- The producer can go on. -/
theorem Related.exists_produce (h : Related maxBlockSize capacity m l c t used free vals)
    (hb : l ≠ .idle) : ∃ a, (isStep .producer a = true ∨ isReturn .producer a = true) ∧
      (step maxBlockSize ⟨m, l, c⟩ a).isSome := by
  have hinner : (ReaderWriterQueue.produce ⟨m, l, c⟩).isSome →
      ∃ a, (isStep .producer a = true ∨ isReturn .producer a = true) ∧
        (step maxBlockSize ⟨m, l, c⟩ a).isSome :=
    fun hs => ⟨.inner .producer, Or.inl rfl, hs⟩
  obtain ⟨hl, -, -, hp, -⟩ := h
  cases l with
  | idle => exact absurd rfl hb
  | write | publish | writeNext | publishNext | link | moveTail => exact hinner rfl
  | start | readFront =>
    refine hinner ?_
    unfold ReaderWriterQueue.produce
    dsimp only
    split <;> rfl
  | full mode x blk =>
    refine hinner ?_
    unfold ReaderWriterQueue.produce
    dsimp only
    split
    · rfl
    · cases mode <;> rfl
  | advance x blk =>
    obtain ⟨-, rfl, -, -⟩ := hp
    refine hinner ?_
    unfold ReaderWriterQueue.produce
    dsimp only
    rw [hl.next_tailBlock]
    rfl
  | readTail x nb nextBlockFront =>
    -- the block ahead is empty, as the assertion says
    obtain ⟨-, -, ⟨hhead, -⟩, rfl⟩ := hp
    have hfree := List.mem_of_mem_head? hhead
    have hholds := hl.holds nb (List.mem_append_right _ hfree)
    have he := hholds.eq_nil_iff.mp (hl.free_eq_nil nb hfree nofun)
    refine hinner ?_
    unfold ReaderWriterQueue.produce
    dsimp only
    rw [if_pos he]
    rfl
  | alloc x blk => exact ⟨.event (.malloc true), Or.inl rfl, rfl⟩
  | answer ok => exact ⟨.event (.enqueued ok), Or.inr rfl, by simp [step]⟩

/-- The consumer can go on. -/
theorem Related.exists_consume (h : Related maxBlockSize capacity m l c t used free vals)
    (hb : ∀ held, c ≠ .idle held) :
    ∃ a, (isStep .consumer a = true ∨ isReturn .consumer a = true) ∧
      (step maxBlockSize ⟨m, l, c⟩ a).isSome := by
  have hinner : (ReaderWriterQueue.consume ⟨m, l, c⟩).isSome →
      ∃ a, (isStep .consumer a = true ∨ isReturn .consumer a = true) ∧
        (step maxBlockSize ⟨m, l, c⟩ a).isSome :=
    fun hs => ⟨.inner .consumer, Or.inl rfl, hs⟩
  obtain ⟨hl, -, -, -, hk⟩ := h
  cases c with
  | idle held => exact absurd rfl (hb held)
  | moveFront | publish => exact hinner rfl
  | start | readTail | readTailBlock | reread =>
    refine hinner ?_
    unfold ReaderWriterQueue.consume
    dsimp only
    split <;> rfl
  | readNext op blk =>
    obtain ⟨-, rfl, ht, -⟩ := hk
    obtain ⟨nb, rest, rfl⟩ := hl.exists_used_eq_cons_cons ht
    refine hinner ?_
    unfold ReaderWriterQueue.consume
    dsimp only
    rw [hl.next_frontBlock]
    rfl
  | readNextTail op nb nextBlockFront =>
    -- the block after the front one is not empty, as the assertion says
    obtain ⟨-, hn, rfl⟩ := hk
    obtain ⟨-, rest, rfl⟩ := hn
    have hmem : nb ∈ m.frontBlock :: nb :: rest := List.mem_cons_of_mem _ List.mem_cons_self
    have hne : nb ≠ m.frontBlock := by
      rintro rfl
      exact (List.nodup_cons.mp hl.nodup).1 List.mem_cons_self
    have hnot : ¬(m.heap nb).front = (m.heap nb).tail := fun he =>
      hl.ne_nil nb hmem hne ((hl.holds nb (hl.used_subset hmem)).eq_nil_iff.mpr he)
    refine hinner ?_
    unfold ReaderWriterQueue.consume
    dsimp only
    rw [if_neg hnot]
    split <;> rfl
  | take op blk blockFront =>
    obtain ⟨⟨-, -, hne⟩, rfl, rfl⟩ := hk
    have hholds := hl.holds _ (hl.used_subset hl.frontBlock_mem)
    obtain ⟨v, vs, hv⟩ := List.exists_cons_of_ne_nil (hholds.ne_nil hne)
    rw [hv] at hholds
    refine hinner ?_
    unfold ReaderWriterQueue.consume
    dsimp only
    rw [Block.Holds.front_eq hholds]
    rfl
  | pointer p =>
    cases p with
    | none => exact ⟨.event (.returned (.peeked none)), Or.inr rfl, by simp [step]⟩
    | some p =>
      obtain ⟨v, vs, -, hv⟩ := hk.2.deref hl
      refine ⟨.event (.returned (.peeked (some v))), Or.inr rfl, ?_⟩
      rw [step_returned_pointer hv, if_pos rfl]
      rfl
  | answer r => exact ⟨.event (.returned r), Or.inr rfl, by simp [step]⟩

/-- **The queue is wait-free.** In every reachable state a thread inside a
call has a step it can take, or can return; and a thread takes no more than
eight steps a call as the producer, nine as the consumer, in a stretch of a
run in which it does not call again and over a whole run. -/
theorem wait_free (h : Config z maxBlockSize maxSize) (side : Side) :
    (∀ s, (queue T maxBlockSize maxSize).Reachable s → s.Busy side →
      ∃ a, (isStep side a = true ∨ isReturn side a = true) ∧ (step maxBlockSize s a).isSome) ∧
    (∀ s as s', (queue T maxBlockSize maxSize).run s as = some s' →
      (∀ a ∈ as, isCall side a = false) → as.countP (isStep side) ≤ callSteps side) ∧
    ∀ as s', (queue T maxBlockSize maxSize).run (construct maxBlockSize maxSize) as = some s' →
      as.countP (isStep side) ≤ callSteps side * as.countP (isCall side) := by
  refine ⟨?_, ?_, ?_⟩
  · intro s hs hb
    obtain ⟨t, -, used, free, vals, hR⟩ := (refines h).reachable hs
    cases side with
    | producer => exact hR.exists_produce hb
    | consumer => exact hR.exists_consume hb
  · intro s as s' hs hcall
    have hrun := left_run side hs
    have hzero : as.countP (isCall side) = 0 :=
      List.countP_eq_zero.mpr fun a ha => by rw [hcall a ha]; exact Bool.false_ne_true
    rw [hzero, Nat.mul_zero, Nat.add_zero] at hrun
    exact (Nat.le_add_right _ _).trans (hrun.trans (left_le s side))
  · intro as s' hs
    obtain ⟨hp, hc⟩ := construct_idle (T := T) maxBlockSize maxSize
    have h0 : (construct maxBlockSize maxSize : State T).left side = 0 := by
      cases side with
      | producer => exact congrArg Producer.left hp
      | consumer => exact congrArg Consumer.left hc
    have hrun := left_run side hs
    omega

theorem wait_free_passOne :
    (∃ a, (isStep .producer a = true ∨ isReturn .producer a = true) ∧
      ((queue ℕ 512 15).run (construct 512 15) [.event (.enqueue .canAlloc 7), a]).isSome) ∧
    (passOne.drop 1).countP (isStep .producer) ≤ 8 ∧
    passOne.countP (isStep .producer) ≤ 8 * passOne.countP (isCall .producer) := by
  have h := wait_free (T := ℕ) config_default .producer
  refine ⟨?_, ?_, h.2.2 passOne _ rfl⟩
  · have hrun : (queue ℕ 512 15).run (construct 512 15) [.event (.enqueue .canAlloc 7)] =
        some { (construct 512 15 : State ℕ) with producer := .start .canAlloc 7 } := rfl
    obtain ⟨a, ha, hs⟩ := h.1 _ (Machine.reachable_of_run (.init rfl) _ hrun) nofun
    refine ⟨a, ha, ?_⟩
    rw [← List.singleton_append, Machine.run_append, hrun, Option.bind_some,
      Machine.run_singleton]
    exact hs
  · exact h.2.1 { (construct 512 15 : State ℕ) with producer := .start .canAlloc 7 }
      (passOne.drop 1) _ rfl (by decide)

end ReaderWriterQueue

end TestBuffer
