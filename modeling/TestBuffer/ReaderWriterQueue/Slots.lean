import TestBuffer.ReaderWriterQueue.Progress
/-!
# Who may touch which slot

The two threads share the slots without a lock. In every reachable state
the slot the producer is about to construct an element in is one of its
block and empty, and the slot the consumer is about to move out of, or
points to, is one of its block and has an element (`slots_apart`): the two
are never the same, nothing is constructed twice and nothing is read that
is not there. A pointer from `peek` stays good until the consumer's own
next call (`held_run`).
-/

namespace TestBuffer

namespace ReaderWriterQueue

variable {T : Type*}

/-- The slot the producer is about to construct an element in. -/
def Producer.constructs : Producer T → Option (ℕ × ℕ)
  | .write _ blk blockTail _ => some (blk, blockTail)
  | .writeNext _ nb nextBlockTail => some (nb, nextBlockTail)
  | _ => none

/-- The slot the consumer is about to take an element out of, or has a
pointer to. -/
def Consumer.reads : Consumer T → Option (ℕ × ℕ)
  | .take _ blk blockFront => some (blk, blockFront)
  | .pointer p | .idle p => p
  | _ => none

/-- A slot of a block that is allocated. -/
def Members.InBounds (m : Members T) (p : ℕ × ℕ) : Prop :=
  p.1 < m.blocks ∧ p.2 < (m.heap p.1).size

variable {maxBlockSize capacity : ℕ} {m : Members T} {l : Producer T} {c : Consumer T}
variable {t : Spec.State T} {used free : List ℕ} {vals : ℕ → List T} {p : ℕ × ℕ}

/-- The slot past the tail of a block is empty. -/
theorem Layout.deref_tail {moved : Bool} {ahead : Option ℕ} {b : ℕ} (x : T)
    (h : Layout m used free vals moved (fun _ => none) ahead) (hb : b ∈ used ++ free) :
    m.InBounds (b, (m.heap b).tail) ∧ m.deref (b, (m.heap b).tail) = none := by
  have hholds := h.holds b hb
  refine ⟨⟨h.lt_blocks b hb, hholds.tail_lt⟩, (hholds.write (x := x) fun hm => ?_).1⟩
  rw [Bool.and_eq_true, beq_iff_eq] at hm
  rw [hm.2]
  exact h.moved_ne_nil hm.1

/-- A pointer to the oldest element is to a slot. -/
theorem Points.inBounds {moved : Bool} {extra : ℕ → Option T} {ahead : Option ℕ}
    (hp : Points m used vals p) (hl : Layout m used free vals moved extra ahead) :
    m.InBounds p := by
  have hfront : ∀ b ∈ used, m.InBounds (b, (m.heap b).front) := fun b hb =>
    ⟨hl.lt_blocks b (hl.used_subset hb), (hl.holds b (hl.used_subset hb)).front_lt⟩
  rcases hp with ⟨-, rfl⟩ | ⟨nb, hn, rfl⟩
  · exact hfront _ hl.frontBlock_mem
  · exact hfront nb (Kept.next_mem hn)

/-- The element about to be taken is the oldest. -/
theorem Takes.points {moved : Bool} {extra : ℕ → Option T} {ahead : Option ℕ}
    {q : Spec.Consumer T} {op : Op} (h : Takes m used vals q op m.frontBlock)
    (hl : Layout m used free vals moved extra ahead) :
    Points m used vals (m.frontBlock, (m.heap m.frontBlock).front) :=
  Or.inl ⟨(hl.holds _ (hl.used_subset hl.frontBlock_mem)).ne_nil h.2.2, rfl⟩

namespace Related

theorem constructs (h : Related maxBlockSize capacity m l c t used free vals)
    (hp : l.constructs = some p) : m.InBounds p ∧ m.deref p = none := by
  obtain ⟨hl, -, -, hok, -⟩ := h
  cases l with
  | write x blk blockTail nextBlockTail =>
    cases hp
    obtain ⟨-, ⟨rfl, -, -⟩, rfl⟩ := hok
    exact hl.deref_tail x (hl.used_subset hl.tailBlock_mem)
  | writeNext x nb nextBlockTail =>
    cases hp
    obtain ⟨-, -, ⟨hhead, -⟩, rfl⟩ := hok
    exact hl.deref_tail x (List.mem_append_right _ (List.mem_of_mem_head? hhead))
  | idle | start | readFront | publish | full | advance | readTail | publishNext | alloc | link
  | moveTail | answer => cases hp

/-- What the consumer reads is the oldest element. -/
theorem reads (h : Related maxBlockSize capacity m l c t used free vals)
    (hp : c.reads = some p) : Points m used vals p ∧ c.moved = false := by
  obtain ⟨hl, -, -, -, hok⟩ := h
  cases c with
  | take op blk blockFront =>
    cases hp
    obtain ⟨ht, rfl, rfl⟩ := hok
    exact ⟨ht.points hl, rfl⟩
  | pointer q =>
    obtain rfl : q = some p := hp
    exact ⟨hok.2, rfl⟩
  | idle q => exact ⟨hok.2 p hp, rfl⟩
  | start | readTail | readTailBlock | reread | readNext | readNextTail | moveFront | publish
  | answer => cases hp

theorem deref_reads (h : Related maxBlockSize capacity m l c t used free vals)
    (hp : c.reads = some p) :
    m.InBounds p ∧ ∃ v vs, t.contents = v :: vs ∧ m.deref p = some v := by
  obtain ⟨hpt, hm⟩ := h.reads hp
  have hl := h.layout
  rw [hm] at hl
  obtain ⟨v, vs, hflat, hv⟩ := hpt.deref hl
  exact ⟨hpt.inBounds hl, v, vs, h.contents.trans hflat, hv⟩

/-- No block is larger than twice the maximum: those of the circle are not,
and the one that may not be in it yet is as large as the largest. -/
theorem size_le (h : Related maxBlockSize capacity m l c t used free vals) {b : ℕ}
    (hb : b < m.blocks) : (m.heap b).size ≤ maxBlockSize * 2 := by
  obtain ⟨hl, hz, -, hp, -⟩ := h
  by_cases hmem : b ∈ used ++ free
  · exact (hz.size_le b hmem).trans hz.largest_le
  have hblocks := hz.blocks
  have hlen : ∀ bs : List ℕ, bs.Nodup → (∀ a ∈ bs, a < m.blocks) → bs.length ≤ m.blocks := by
    intro bs hnd hlt
    have hsub : bs.Subperm (List.range m.blocks) :=
      hnd.subperm fun a ha => List.mem_range.mpr (hlt a ha)
    simpa using hsub.length_le
  have hcons := hlen (b :: (used ++ free)) (List.nodup_cons.mpr ⟨hmem, hl.nodup⟩)
    (List.forall_mem_cons.mpr ⟨hb, hl.lt_blocks⟩)
  rw [List.length_cons] at hcons
  cases l with
  | link x blk nb =>
    obtain ⟨-, -, -, hnew⟩ := hp
    by_cases hne : b = nb
    · subst hne
      rw [hnew.size]
      exact hz.largest_le
    · have hnd : (b :: nb :: (used ++ free)).Nodup := by
        rw [List.nodup_cons, List.mem_cons, not_or]
        exact ⟨⟨hne, hmem⟩, List.nodup_cons.mpr ⟨hnew.not_mem, hl.nodup⟩⟩
      have hcons := hlen _ hnd (List.forall_mem_cons.mpr
        ⟨hb, List.forall_mem_cons.mpr ⟨hnew.lt_blocks, hl.lt_blocks⟩⟩)
      have hone : (Producer.link x blk nb).unlinked = 1 := rfl
      rw [List.length_cons, List.length_cons] at hcons
      omega
  | idle | start | readFront | write | publish | full | advance | readTail | writeNext
  | publishNext | alloc | moveTail | answer =>
    have hblocks : m.blocks = (used ++ free).length + 0 := hblocks
    omega

end Related

/-- More is asked for more. -/
theorem Sizes.request_mono (z : Sizes) {a b : ℕ} (h : a ≤ b) : z.request a ≤ z.request b := by
  unfold request
  have := Nat.mul_le_mul_left z.element h
  omega

variable [DecidableEq T] {z : Sizes} {maxSize : ℕ} {s s' : State T}

/-- **The threads touch different slots.** Where the producer constructs
there is nothing, and where the consumer reads there is an element; and
`malloc` was asked for as many bytes as the slots of a block take. -/
theorem slots_apart (h : Config z maxBlockSize maxSize)
    (hs : (queue T maxBlockSize maxSize).Reachable s) :
    (∀ p, s.producer.constructs = some p → s.InBounds p ∧ s.deref p = none) ∧
    (∀ p, s.consumer.reads = some p → s.InBounds p ∧ (s.deref p).isSome) ∧
    (∀ p, s.producer.constructs = some p → s.consumer.reads ≠ some p) ∧
    ∀ b < s.blocks, z.request (s.heap b).size < 2 ^ 64 := by
  obtain ⟨t, -, used, free, vals, hR⟩ := (refines h).reachable hs
  have hconstructs : ∀ p, s.producer.constructs = some p → s.InBounds p ∧ s.deref p = none :=
    fun p hp => hR.constructs hp
  have hreads : ∀ p, s.consumer.reads = some p → s.InBounds p ∧ (s.deref p).isSome := by
    intro p hp
    obtain ⟨hb, v, vs, -, hv⟩ := hR.deref_reads hp
    exact ⟨hb, by rw [hv]; rfl⟩
  refine ⟨hconstructs, hreads, fun p hp hp' => ?_,
    fun b hb => (z.request_mono (hR.size_le hb)).trans_lt h.request_lt⟩
  have hsome := (hreads p hp').2
  rw [(hconstructs p hp).2] at hsome
  cases hsome

/-- Both threads inside a call, at neighbouring slots. -/
def neighbours : List (Act (Event ℕ) Side) :=
  [.event (.enqueue .canAlloc 7), .inner .producer, .inner .producer, .inner .producer,
    .event (.enqueued true), .event (.enqueue .canAlloc 8), .inner .producer,
    .event (.call .pop), .inner .consumer, .inner .consumer]

theorem slots_apart_neighbours :
    ∃ s, (queue ℕ 512 15).run (construct 512 15) neighbours = some s ∧
      s.deref (0, 1) = none ∧ (s.deref (0, 0)).isSome ∧
      Sizes.int.request (s.heap 0).size < 2 ^ 64 := by
  refine ⟨_, rfl, ?_⟩
  have h := slots_apart config_default (Machine.reachable_of_run (.init rfl) neighbours rfl)
  exact ⟨(h.1 (0, 1) rfl).2, (h.2.1 (0, 0) rfl).2, h.2.2.2 0 Nat.one_pos⟩

/-! ## A pointer from `peek` -/

/-- A call or return of the producer's, or its request for memory. -/
def Event.ofProducer : Event T → Bool
  | .enqueue _ _ | .malloc _ | .enqueued _ => true
  | .call _ | .returned _ => false

/-- An action of the producer's. -/
def isProducer : Act (Event T) Side → Bool
  | .event e => e.ofProducer
  | .inner side => side = .producer

/-- The producer leaves the consumer where it is. -/
theorem consumer_of_isProducer {a : Act (Event T) Side} (ha : isProducer a = true)
    (hs : step maxBlockSize s a = some s') : s'.consumer = s.consumer := by
  rcases a with e | side
  · rcases event_cases hs with ⟨ok, rfl, hs⟩ | ⟨mode, x, rfl, -, rfl⟩ | ⟨ok, rfl, -, rfl⟩ |
      ⟨op, held, rfl, -, rfl⟩ | ⟨r, held, rfl, -, rfl⟩
    · exact (left_of_allocate hs).2
    · rfl
    · rfl
    · cases ha
    · cases ha
  · cases side with
    | producer => exact (left_of_produce hs).2
    | consumer => cases ha

namespace Spec

variable {t t' : State T} {x : T}

/-- While the consumer has not called, the oldest element stays. -/
theorem head?_step {a : Act (Event T) Effect} (hidle : t.consumer = .idle)
    (hx : t.contents.head? = some x) (ha : ∀ e, a.event? = some e → e.ofProducer = true)
    (hs : (queue T capacity).step t a = some t') :
    t'.consumer = .idle ∧ t'.contents.head? = some x := by
  obtain ⟨cs, q, d⟩ := t
  obtain rfl : d = .idle := hidle
  rcases a with e | e
  · have he := ha e rfl
    cases e with
    | enqueue mode y =>
      cases q <;> cases hs
      exact ⟨rfl, hx⟩
    | malloc ok =>
      cases q with
      | idle | granted | answered => cases hs
      | pending mode y held =>
        cases mode with
        | cannotAlloc => cases hs
        | canAlloc =>
          obtain ⟨-, ⟨⟩⟩ := Option.ite_none_right_eq_some.mp hs
          exact ⟨rfl, hx⟩
    | enqueued ok =>
      cases q with
      | idle | granted | pending => cases hs
      | answered ok' =>
        obtain ⟨-, ⟨⟩⟩ := Option.ite_none_right_eq_some.mp hs
        exact ⟨rfl, hx⟩
    | call op => cases he
    | returned r => cases he
  · cases e with
    | insert =>
      have happend : ∀ y, (cs ++ [y]).head? = some x := fun y => by
        rw [List.head?_append, show cs.head? = some x from hx]
        rfl
      cases q <;> cases hs <;> exact ⟨rfl, happend _⟩
    | refuse =>
      cases q with
      | idle | granted | answered => cases hs
      | pending mode y held =>
        cases mode with
        | canAlloc => cases hs
        | cannotAlloc =>
          obtain ⟨-, ⟨⟩⟩ := Option.ite_none_right_eq_some.mp hs
          exact ⟨rfl, hx⟩
    | respond => cases hs
    | empty => cases hs

theorem head?_run {as : List (Act (Event T) Effect)} (hidle : t.consumer = .idle)
    (hx : t.contents.head? = some x) (ha : ∀ e ∈ Act.history as, e.ofProducer = true)
    (hs : (queue T capacity).run t as = some t') :
    t'.consumer = .idle ∧ t'.contents.head? = some x := by
  induction as generalizing t with
  | nil =>
    cases hs
    exact ⟨hidle, hx⟩
  | cons a as ih =>
    rw [Machine.run_cons, Option.bind_eq_some_iff] at hs
    obtain ⟨m, hm, hs⟩ := hs
    have hfirst : ∀ e, a.event? = some e → e.ofProducer = true := by
      intro e he
      cases a with
      | event e' =>
        obtain rfl : e' = e := Option.some.inj he
        exact ha e' List.mem_cons_self
      | inner => cases he
    have hrest : ∀ e ∈ Act.history as, e.ofProducer = true := by
      intro e he
      cases a with
      | event e' => exact ha e (List.mem_cons_of_mem _ he)
      | inner => exact ha e he
    obtain ⟨hidle, hx⟩ := head?_step hidle hx hfirst hm
    exact ih hidle hx hrest hs

end Spec

/-- The consumer stays where it is through a run of the producer's. -/
theorem consumer_of_run {as : List (Act (Event T) Side)} (ha : ∀ a ∈ as, isProducer a = true)
    (hs : (queue T maxBlockSize maxSize).run s as = some s') : s'.consumer = s.consumer := by
  induction as generalizing s with
  | nil =>
    cases hs
    rfl
  | cons a as ih =>
    rw [Machine.run_cons, Option.bind_eq_some_iff] at hs
    obtain ⟨m, hm, hs⟩ := hs
    rw [ih (fun b hb => ha b (List.mem_cons_of_mem _ hb)) hs]
    exact consumer_of_isProducer (ha a List.mem_cons_self) hm

/-- **A pointer from `peek` stays good.** Whatever the producer does before
the consumer calls again, it points to the same element. -/
theorem held_run (h : Config z maxBlockSize maxSize)
    (hs : (queue T maxBlockSize maxSize).Reachable s) (hheld : s.consumer = .idle (some p))
    {as : List (Act (Event T) Side)} (ha : ∀ a ∈ as, isProducer a = true)
    (hrun : (queue T maxBlockSize maxSize).run s as = some s') :
    s'.consumer = .idle (some p) ∧ (s.deref p).isSome ∧ s'.deref p = s.deref p := by
  obtain ⟨t, -, hR⟩ := (refines h).reachable hs
  obtain ⟨bs, t', hb, hh, hR'⟩ := (refines h).run hR hrun
  have hheld' := (consumer_of_run ha hrun).trans hheld
  obtain ⟨used, free, vals, hR⟩ := hR
  obtain ⟨used', free', vals', hR'⟩ := hR'
  obtain ⟨-, v, vs, hcs, hv⟩ := hR.deref_reads (p := p) (by rw [hheld]; rfl)
  obtain ⟨-, v', vs', hcs', hv'⟩ := hR'.deref_reads (p := p) (by rw [hheld']; rfl)
  have hidle : t.consumer = .idle := by
    have hok := hR.consumer
    rw [hheld] at hok
    exact hok.1
  have hof : ∀ e ∈ Act.history bs, e.ofProducer = true := by
    rw [hh]
    intro e he
    obtain ⟨a, hmem, hae⟩ := List.mem_filterMap.mp he
    have := ha a hmem
    cases a with
    | event e' =>
      obtain rfl : e' = e := Option.some.inj hae
      exact this
    | inner => cases hae
  have hhead := (Spec.head?_run hidle (by rw [hcs]; rfl) hof hb).2
  rw [hcs', List.head?_cons, Option.some.injEq] at hhead
  exact ⟨hheld', by rw [hv]; rfl, by rw [hv', hv, hhead]⟩

theorem held_run_another : ∃ s s',
    (queue ℕ 512 15).run (construct 512 15) (passOne.take 9) = some s ∧
    (queue ℕ 512 15).run s another = some s' ∧ s'.deref (0, 0) = s.deref (0, 0) := by
  refine ⟨_, _, rfl, rfl, ?_⟩
  have hs := Machine.reachable_of_run (M := queue ℕ 512 15) (.init rfl) (passOne.take 9) rfl
  have ha : ∀ a ∈ another, isProducer a = true := by decide
  exact (held_run config_default hs (p := (0, 0)) rfl ha rfl).2.2

end ReaderWriterQueue

end TestBuffer
