import TestBuffer.ReaderWriterQueue.Fifo
/-!
# The law of the histories

What the two threads may see, said of what they see alone: a ledger of the
elements whose enqueue was answered, and of how many have been given out,
is kept from the calls and returns in order, and says at every return
whether it may be (`Ledger.next`). An element given out, or looked at, is
the next of those enqueued, the one being enqueued included; the answer
that there is none needs every element accepted before the call to have
been given out before it; a refusal, or a request for memory, needs
`capacity` elements accepted and not given out before its call. Every
history of the queue passes (`isHistory_ledger`).

`Sight.next` follows the consumer alone, for what `peek` promises: the
element it finds is the one that the next call finds, whatever the
producer does between the two (`isHistory_sight`).
-/

namespace TestBuffer

namespace ReaderWriterQueue

variable {T : Type*}

/-- **The ledger.** The places of the two threads are those of the
specification, with `held` and `wasEmpty` as far as the answers tell. -/
structure Ledger (T : Type*) where
  /-- The elements of the enqueues that were answered, oldest first. -/
  accepted : List T
  /-- The number of elements given out. -/
  removed : ℕ
  producer : Spec.Producer T
  consumer : Spec.Consumer T

namespace Ledger

/-- Nothing has been called. -/
def init : Ledger T := ⟨[], 0, .idle, .idle⟩

/-- The element being enqueued. -/
def asking (L : Ledger T) : Option T :=
  match L.producer with
  | .pending _ x _ | .granted x => some x
  | .idle | .answered _ => none

/-- The elements that may have entered the queue, oldest first. -/
def entered (L : Ledger T) : List T := L.accepted ++ L.asking.toList

variable [DecidableEq T]

/-- **What may be seen next**, and the ledger then. -/
def next (capacity : ℕ) (L : Ledger T) : Event T → Option (Ledger T)
  | .enqueue mode x =>
    match L.producer with
    | .idle => some { L with producer := .pending mode x (L.accepted.length - L.removed) }
    | _ => none
  | .malloc ok =>
    match L.producer with
    | .pending .canAlloc x held =>
      if capacity ≤ held then
        some { L with producer := if ok = true then .granted x else .answered false }
      else none
    | _ => none
  | .enqueued true =>
    match L.asking with
    | some x => some { L with accepted := L.accepted ++ [x], producer := .idle }
    | none => none
  | .enqueued false =>
    match L.producer with
    | .pending .cannotAlloc _ held =>
      if capacity ≤ held then some { L with producer := .idle } else none
    | .answered false => some { L with producer := .idle }
    | _ => none
  | .call op =>
    match L.consumer with
    | .idle => some { L with consumer := .pending op (L.accepted.length ≤ L.removed) }
    | _ => none
  | .returned r =>
    match L.consumer with
    | .pending op wasEmpty =>
      if r = op.empty then
        if wasEmpty = true then some { L with consumer := .idle } else none
      else
        match L.entered[L.removed]? with
        | some x =>
          if r = op.found x then
            some { L with
              removed := if op = .peek then L.removed else L.removed + 1, consumer := .idle }
          else none
        | none => none
    | _ => none

end Ledger

theorem Op.found_ne_empty (op : Op) (x : T) : op.found x ≠ op.empty := by
  cases op <;> simp [Op.found, Op.empty]

/-! ## The ledger keeps up -/

/-- What the ledger has of the producer; `inserted` is in the queue and not
answered yet. -/
def ProducerFits (capacity : ℕ) (L : Ledger T) (inserted : List T) : Spec.Producer T → Prop
  | .idle => L.producer = .idle ∧ inserted = []
  | .pending mode x held =>
    (∃ n, L.producer = .pending mode x n ∧ held ≤ n) ∧ inserted = []
  | .granted x => L.producer = .granted x ∧ inserted = []
  | .answered true => ∃ x, L.asking = some x ∧ inserted = [x]
  | .answered false =>
    (L.producer = .answered false ∨
      ∃ x n, L.producer = .pending .cannotAlloc x n ∧ capacity ≤ n) ∧ inserted = []

/-- What it has of the consumer; `taking` elements are out of the queue and
not given out yet. -/
def ConsumerFits (all : List T) (removed taking : ℕ) (c : Spec.Consumer T) :
    Spec.Consumer T → Prop
  | .idle => c = .idle ∧ taking = 0
  | .pending op wasEmpty =>
    (∃ w, c = .pending op w ∧ (wasEmpty = true → w = true)) ∧ taking = 0
  | .answered r => ∃ op w, c = .pending op w ∧
    (r = op.empty ∧ w = true ∧ taking = 0 ∨
      ∃ x, r = op.found x ∧ all[removed]? = some x ∧ taking = if op = .peek then 0 else 1)

/-- **What the ledger says of the queue.** -/
structure Ledger.Keeps (capacity : ℕ) (t : Spec.State T) (L : Ledger T) (inserted : List T)
    (taking : ℕ) : Prop where
  contents : t.contents = (L.accepted ++ inserted).drop (L.removed + taking)
  le : L.removed + taking ≤ (L.accepted ++ inserted).length
  producer : ProducerFits capacity L inserted t.producer
  consumer : ConsumerFits (L.accepted ++ inserted) L.removed taking L.consumer t.consumer

variable {capacity : ℕ} {L : Ledger T} {inserted all more : List T} {taking removed : ℕ}
variable {p : Spec.Producer T} {c d : Spec.Consumer T} {t t' : Spec.State T}

/-- What is inserted is being enqueued. -/
theorem ProducerFits.prefix_entered (h : ProducerFits capacity L inserted p) :
    L.accepted ++ inserted <+: L.entered := by
  have hnil : inserted = [] → L.accepted ++ inserted <+: L.entered := by
    rintro rfl
    rw [List.append_nil]
    exact List.prefix_append _ _
  cases p with
  | idle => exact hnil h.2
  | pending mode x held => exact hnil h.2
  | granted x => exact hnil h.2
  | answered ok =>
    cases ok with
    | false => exact hnil h.2
    | true =>
      obtain ⟨x, hx, rfl⟩ := h
      rw [Ledger.entered, hx]
      exact List.prefix_rfl

theorem ConsumerFits.append (h : ConsumerFits all removed taking c d) :
    ConsumerFits (all ++ more) removed taking c d := by
  cases d with
  | idle => exact h
  | pending op w => exact h
  | answered r =>
    obtain ⟨op, w, hc, he | ⟨x, hr, hx, ht⟩⟩ := h
    · exact ⟨op, w, hc, Or.inl he⟩
    · refine ⟨op, w, hc, Or.inr ⟨x, hr, ?_, ht⟩⟩
      rw [List.getElem?_append_left (List.getElem?_eq_some_iff.mp hx).1, hx]

namespace Ledger.Keeps

/-- An element enters the queue. -/
theorem insert (h : Keeps capacity t L inserted taking) {x : T}
    (hx : (∃ mode held, t.producer = .pending mode x held) ∨ t.producer = .granted x) :
    Keeps capacity { t with contents := t.contents ++ [x], producer := .answered true } L [x]
      taking := by
  have hp : L.asking = some x ∧ inserted = [] := by
    have hp := h.producer
    rcases hx with ⟨mode, held, hx⟩ | hx
    · rw [hx] at hp
      obtain ⟨⟨n, hn, -⟩, hi⟩ := hp
      exact ⟨by rw [Ledger.asking, hn], hi⟩
    · rw [hx] at hp
      exact ⟨by rw [Ledger.asking, hp.1], hp.2⟩
  obtain ⟨ha, rfl⟩ := hp
  have hle := h.le
  have hcons := h.consumer
  have hcont := h.contents
  rw [List.append_nil] at hle hcons hcont
  refine ⟨?_, ?_, ⟨x, ha, rfl⟩, hcons.append⟩
  · show t.contents ++ [x] = _
    rw [hcont, List.drop_append_of_le_length hle]
  · rw [List.length_append]
    exact hle.trans (Nat.le_add_right _ _)

/-- **The consumer finds the next element.** -/
theorem getElem? (h : Keeps capacity t L inserted 0) {x : T} {xs : List T}
    (hx : t.contents = x :: xs) :
    (L.accepted ++ inserted)[L.removed]? = some x ∧
      xs = (L.accepted ++ inserted).drop (L.removed + 1) := by
  have hc := h.contents.symm.trans hx
  rw [Nat.add_zero] at hc
  constructor
  · have := List.head?_drop (l := L.accepted ++ inserted) (i := L.removed)
    rw [← this, hc]
    rfl
  · rw [← List.tail_drop, hc]
    rfl

variable [DecidableEq T]

/-- What the consumer is told passes. -/
theorem returned (h : Keeps capacity t L inserted taking) {r : Answer T}
    (hr : t.consumer = .answered r) :
    ∃ L', L.next capacity (.returned r) = some L' ∧
      Keeps capacity { t with consumer := .idle } L' inserted 0 := by
  have hc := h.consumer
  rw [hr] at hc
  obtain ⟨op, w, hw, ⟨rfl, rfl, rfl⟩ | ⟨x, rfl, hx, rfl⟩⟩ := hc
  · refine ⟨{ L with consumer := .idle }, ?_, h.contents, h.le, h.producer, rfl, rfl⟩
    simp only [Ledger.next, hw, if_true]
  · have hent : L.entered[L.removed]? = some x := by
      obtain ⟨zs, hz⟩ := h.producer.prefix_entered
      rw [← hz, List.getElem?_append_left (List.getElem?_eq_some_iff.mp hx).1, hx]
    refine ⟨{ L with
      removed := if op = .peek then L.removed else L.removed + 1, consumer := .idle }, ?_, ?_⟩
    · simp only [Ledger.next, hw, hent, if_neg (op.found_ne_empty x), if_true]
    · have hcont := h.contents
      have hle := h.le
      by_cases hop : op = .peek
      · rw [if_pos hop] at hcont hle ⊢
        exact ⟨hcont, hle, h.producer, rfl, rfl⟩
      · rw [if_neg hop] at hcont hle ⊢
        exact ⟨hcont, hle, h.producer, rfl, rfl⟩

/-- What the producer is told passes. -/
theorem enqueued (h : Keeps capacity t L inserted taking) {ok : Bool}
    (hp : t.producer = .answered ok) :
    ∃ L', L.next capacity (.enqueued ok) = some L' ∧
      Keeps capacity { t with producer := .idle } L' [] taking := by
  have hf := h.producer
  have hcont := h.contents
  have hle := h.le
  have hcons := h.consumer
  rw [hp] at hf
  cases ok with
  | true =>
    obtain ⟨x, hx, rfl⟩ := hf
    refine ⟨{ L with accepted := L.accepted ++ [x], producer := .idle }, ?_, ?_⟩
    · simp only [Ledger.next, hx]
    · rw [← List.append_nil (L.accepted ++ [x])] at hcont hle hcons
      exact ⟨hcont, hle, ⟨rfl, rfl⟩, hcons⟩
  | false =>
    obtain ⟨hf, rfl⟩ := hf
    refine ⟨{ L with producer := .idle }, ?_, hcont, hle, ⟨rfl, rfl⟩, hcons⟩
    rcases hf with hf | ⟨x, n, hf, hn⟩
    · simp only [Ledger.next, hf]
    · simp only [Ledger.next, hf, if_pos hn]

/-- Every event of the specification passes. -/
theorem event (h : Keeps capacity t L inserted taking) {e : Event T}
    (hs : (Spec.queue T capacity).step t (.event e) = some t') :
    ∃ L', L.next capacity e = some L' ∧
      ∃ inserted taking, Keeps capacity t' L' inserted taking := by
  have hf := h.producer
  have hk := h.consumer
  have hcont := h.contents
  have hle := h.le
  obtain ⟨cs, q, d⟩ := t
  cases e with
  | enqueue mode x =>
    cases q <;> cases hs
    obtain ⟨hL, rfl⟩ := hf
    rw [List.append_nil] at hcont hle
    refine ⟨{ L with producer := .pending mode x (L.accepted.length - L.removed) }, ?_, [],
      taking, ?_, ?_, ⟨⟨_, rfl, ?_⟩, rfl⟩, hk⟩
    · simp only [Ledger.next, hL]
    · rw [List.append_nil]
      exact hcont
    · rw [List.append_nil]
      exact hle
    · show cs.length ≤ _
      rw [show cs = _ from hcont, List.length_drop]
      omega
  | malloc ok =>
    cases q with
    | idle | granted | answered => cases hs
    | pending mode x held =>
      cases mode with
      | cannotAlloc => cases hs
      | canAlloc =>
        obtain ⟨hcap, ⟨⟩⟩ := Option.ite_none_right_eq_some.mp hs
        obtain ⟨⟨n, hL, hn⟩, rfl⟩ := hf
        refine ⟨{ L with producer := if ok = true then .granted x else .answered false }, ?_, [],
          taking, hcont, hle, ?_, hk⟩
        · simp only [Ledger.next, hL, if_pos (hcap.trans hn)]
        · cases ok with
          | false => exact ⟨Or.inl rfl, rfl⟩
          | true => exact ⟨rfl, rfl⟩
  | enqueued ok =>
    cases q with
    | idle | granted | pending => cases hs
    | answered ok' =>
      obtain ⟨rfl, ⟨⟩⟩ := Option.ite_none_right_eq_some.mp hs
      obtain ⟨L', hL, h'⟩ := h.enqueued rfl
      exact ⟨L', hL, [], taking, h'⟩
  | call op =>
    cases d <;> cases hs
    obtain ⟨hL, rfl⟩ := hk
    refine ⟨{ L with consumer := .pending op (L.accepted.length ≤ L.removed) }, ?_, inserted, 0,
      hcont, hle, hf, ⟨_, rfl, fun hw => ?_⟩, rfl⟩
    · simp only [Ledger.next, hL]
    · have hnil := hcont.symm.trans (List.isEmpty_iff.mp hw)
      rw [List.drop_eq_nil_iff, List.length_append] at hnil
      rw [decide_eq_true_eq]
      omega
  | returned r =>
    cases d with
    | idle | pending => cases hs
    | answered r' =>
      obtain ⟨rfl, ⟨⟩⟩ := Option.ite_none_right_eq_some.mp hs
      obtain ⟨L', hL, h'⟩ := h.returned rfl
      exact ⟨L', hL, inserted, 0, h'⟩

/-- What the specification does within a call leaves the ledger as it is. -/
theorem effect (h : Keeps capacity t L inserted taking) {e : Spec.Effect}
    (hs : (Spec.queue T capacity).step t (.inner e) = some t') :
    ∃ inserted taking, Keeps capacity t' L inserted taking := by
  have hf := h.producer
  have hk := h.consumer
  obtain ⟨cs, q, d⟩ := t
  cases e with
  | insert =>
    cases q with
    | idle | answered => cases hs
    | pending mode x held =>
      cases hs
      exact ⟨_, taking, h.insert (Or.inl ⟨mode, held, rfl⟩)⟩
    | granted x =>
      cases hs
      exact ⟨_, taking, h.insert (Or.inr rfl)⟩
  | refuse =>
    cases q with
    | idle | granted | answered => cases hs
    | pending mode x held =>
      cases mode with
      | canAlloc => cases hs
      | cannotAlloc =>
        obtain ⟨hcap, ⟨⟩⟩ := Option.ite_none_right_eq_some.mp hs
        obtain ⟨⟨n, hL, hn⟩, rfl⟩ := hf
        exact ⟨[], taking, h.contents, h.le, ⟨Or.inr ⟨x, n, hL, hcap.trans hn⟩, rfl⟩, hk⟩
  | respond =>
    cases d with
    | idle | answered => cases hs
    | pending op w =>
      obtain ⟨⟨w', hL, hw⟩, rfl⟩ := hk
      cases cs with
      | nil => cases op <;> cases hs
      | cons x xs =>
        obtain ⟨hx, hxs⟩ := h.getElem? rfl
        have hlt := (List.getElem?_eq_some_iff.mp hx).1
        cases op with
        | peek =>
          cases hs
          exact ⟨inserted, 0, h.contents, h.le, hf, .peek, w', hL, Or.inr ⟨x, rfl, hx, rfl⟩⟩
        | tryDequeue =>
          cases hs
          exact ⟨inserted, 1, hxs, hlt, hf, .tryDequeue, w', hL, Or.inr ⟨x, rfl, hx, rfl⟩⟩
        | pop =>
          cases hs
          exact ⟨inserted, 1, hxs, hlt, hf, .pop, w', hL, Or.inr ⟨x, rfl, hx, rfl⟩⟩
  | empty =>
    cases d with
    | idle | answered => cases hs
    | pending op w =>
      cases w with
      | false => cases hs
      | true =>
        cases hs
        obtain ⟨⟨w', hL, hw⟩, rfl⟩ := hk
        exact ⟨inserted, 0, h.contents, h.le, hf, op, w', hL, Or.inl ⟨rfl, hw rfl, rfl⟩⟩

end Ledger.Keeps

variable [DecidableEq T] {z : Sizes} {maxBlockSize maxSize : ℕ}

/-- The ledger follows the specification. -/
theorem Ledger.follows (capacity : ℕ) :
    Object.Simulation (Spec.queue T capacity) (Object.observer (Ledger.next capacity) Ledger.init)
      fun t L => ∃ inserted taking, Ledger.Keeps capacity t L inserted taking where
  init := by
    rintro t rfl
    exact ⟨_, rfl, [], 0, rfl, le_rfl, ⟨rfl, rfl⟩, rfl, rfl⟩
  step := by
    rintro t L a t' ⟨inserted, taking, h⟩ hs
    rcases a with e | e
    · obtain ⟨L', hL, h'⟩ := h.event hs
      exact ⟨[.event e], L', Machine.run_singleton.trans hL, rfl, h'⟩
    · exact ⟨[], L, rfl, rfl, h.effect hs⟩

/-- What a run leads to, the ledger of its history says. -/
theorem exists_ledger (h : Config z maxBlockSize maxSize) {as : List (Act (Event T) Side)}
    {s : State T} (hrun : (queue T maxBlockSize maxSize).run (construct maxBlockSize maxSize) as =
      some s) :
    ∃ L t inserted taking,
      (Act.history as).foldlM (Ledger.next maxSize) Ledger.init = some L ∧
        Rel maxBlockSize maxSize s t ∧ L.Keeps maxSize t inserted taking := by
  obtain ⟨t₀, rfl, hR⟩ := (refines h).init (construct maxBlockSize maxSize : State T) rfl
  obtain ⟨L₀, rfl, hK⟩ := (Ledger.follows (T := T) maxSize).init _ rfl
  obtain ⟨bs, t, hbs, hb, hR⟩ := (refines h).run hR hrun
  obtain ⟨cs, L, hcs, hc, inserted, taking, hK⟩ := (Ledger.follows maxSize).run hK hbs
  rw [Object.observer_run, hc, hb] at hcs
  exact ⟨L, t, inserted, taking, hcs, hR, hK⟩

/-- What the consumer has seen: the element its last call looked at and
left, and the call under way. -/
structure Sight (T : Type*) where
  seen : Option T
  op : Option Op

namespace Sight

/-- What a call leaves seen. -/
def after : Answer T → Option T
  | .peeked x => x
  | .dequeued _ | .popped _ => none

/-- **A call finds what was seen before it.** -/
def next (v : Sight T) : Event T → Option (Sight T)
  | .call op => some { v with op := some op }
  | .returned r =>
    match v.op, v.seen with
    | some op, some x => if r = op.found x then some ⟨after r, none⟩ else none
    | some _, none => some ⟨after r, none⟩
    | none, _ => none
  | .enqueue _ _ | .malloc _ | .enqueued _ => some v

/-- What has been seen is still there. -/
def Fits (t : Spec.State T) (v : Sight T) : Prop :=
  match t.consumer with
  | .idle => v.op = none ∧ ∀ x, v.seen = some x → t.contents.head? = some x
  | .pending op wasEmpty =>
    v.op = some op ∧ ∀ x, v.seen = some x → wasEmpty = false ∧ t.contents.head? = some x
  | .answered r => (∃ op, v.op = some op ∧ ∀ x, v.seen = some x → r = op.found x) ∧
    ∀ x, after r = some x → t.contents.head? = some x

variable {v : Sight T} {r : Answer T} {q : Spec.Producer T} {cs : List T}

omit [DecidableEq T] in
/-- The producer only adds. -/
theorem Fits.append {d : Spec.Consumer T} (h : Fits ⟨cs, p, d⟩ v) (ys : List T) :
    Fits ⟨cs ++ ys, q, d⟩ v := by
  have hhead : ∀ x, cs.head? = some x → (cs ++ ys).head? = some x := fun x hx => by
    rw [List.head?_append, hx]
    rfl
  cases d with
  | idle => exact ⟨h.1, fun x hx => hhead x (h.2 x hx)⟩
  | pending op w => exact ⟨h.1, fun x hx => ⟨(h.2 x hx).1, hhead x (h.2 x hx).2⟩⟩
  | answered r => exact ⟨h.1, fun x hx => hhead x (h.2 x hx)⟩

/-- What the consumer is told agrees with what it saw. -/
theorem Fits.returned (h : Fits ⟨cs, q, .answered r⟩ v) :
    ∃ v', v.next (.returned r) = some v' ∧ Fits ⟨cs, q, .idle⟩ v' := by
  obtain ⟨⟨op, hop, hr⟩, hafter⟩ := h
  refine ⟨⟨after r, none⟩, ?_, rfl, hafter⟩
  cases hv : v.seen with
  | none => simp only [next, hop, hv]
  | some x => simp only [next, hop, hv, if_pos (hr x hv)]

omit [DecidableEq T] in
/-- The consumer is given the oldest element. -/
theorem Fits.found {op : Op} {w : Bool} {x : T} (h : Fits ⟨x :: cs, q, .pending op w⟩ v) :
    Fits ⟨if op = .peek then x :: cs else cs, q, .answered (op.found x)⟩ v := by
  refine ⟨⟨op, h.1, fun y hy => ?_⟩, fun y hy => ?_⟩
  · obtain rfl : x = y := Option.some.inj (h.2 y hy).2
    rfl
  · cases op with
    | peek => exact hy
    | tryDequeue | pop => cases hy

/-- What is seen fits the specification. -/
theorem follows (capacity : ℕ) :
    Object.Simulation (Spec.queue T capacity) (Object.observer Sight.next ⟨none, none⟩)
      Fits where
  init := by
    rintro t rfl
    exact ⟨_, rfl, rfl, nofun⟩
  step := by
    rintro ⟨cs, q, d⟩ v a t' h hs
    have hsame : ∀ q' ys, Fits ⟨cs ++ ys, q', d⟩ v := fun _ ys => h.append ys
    have hkeep : ∀ {q'}, Fits ⟨cs, q', d⟩ v := fun {q'} => by
      have := hsame q' []
      rwa [List.append_nil] at this
    rcases a with e | e
    · have hevent : (∃ v', v.next e = some v' ∧ Fits t' v') →
          ∃ bs v', (Object.observer Sight.next ⟨none, none⟩).run v bs = some v' ∧
            Act.history bs = [e] ∧ Fits t' v' := by
        rintro ⟨v', hv, h'⟩
        exact ⟨[.event e], v', Machine.run_singleton.trans hv, rfl, h'⟩
      refine hevent ?_
      cases e with
      | enqueue mode x =>
        cases q <;> cases hs
        exact ⟨v, rfl, hkeep⟩
      | malloc ok =>
        cases q with
        | idle | granted | answered => cases hs
        | pending mode x held =>
          cases mode with
          | cannotAlloc => cases hs
          | canAlloc =>
            obtain ⟨-, ⟨⟩⟩ := Option.ite_none_right_eq_some.mp hs
            exact ⟨v, rfl, hkeep⟩
      | enqueued ok =>
        cases q with
        | idle | granted | pending => cases hs
        | answered ok' =>
          obtain ⟨-, ⟨⟩⟩ := Option.ite_none_right_eq_some.mp hs
          exact ⟨v, rfl, hkeep⟩
      | call op =>
        cases d <;> cases hs
        refine ⟨{ v with op := some op }, rfl, rfl, fun x hx => ?_⟩
        have hhead := h.2 x hx
        obtain ⟨xs, rfl⟩ := List.head?_eq_some_iff.mp hhead
        exact ⟨rfl, rfl⟩
      | returned r =>
        cases d with
        | idle | pending => cases hs
        | answered r' =>
          obtain ⟨rfl, ⟨⟩⟩ := Option.ite_none_right_eq_some.mp hs
          exact h.returned
    · refine ⟨[], v, rfl, rfl, ?_⟩
      cases e with
      | insert => cases q <;> cases hs <;> exact hsame _ _
      | refuse =>
        cases q with
        | idle | granted | answered => cases hs
        | pending mode x held =>
          cases mode with
          | canAlloc => cases hs
          | cannotAlloc =>
            obtain ⟨-, ⟨⟩⟩ := Option.ite_none_right_eq_some.mp hs
            exact hkeep
      | respond =>
        cases d with
        | idle | answered => cases hs
        | pending op w =>
          cases cs with
          | nil => cases op <;> cases hs
          | cons x xs => cases op <;> cases hs <;> exact h.found
      | empty =>
        cases d with
        | idle | answered => cases hs
        | pending op w =>
          cases w with
          | false => cases hs
          | true =>
            cases hs
            refine ⟨⟨op, h.1, fun x hx => absurd (h.2 x hx).1 nofun⟩, fun x hx => ?_⟩
            cases op <;> cases hx

end Sight

/-- **What `peek` finds, the next call finds.** -/
theorem isHistory_sight (h : Config z maxBlockSize maxSize) {es : List (Event T)}
    (hh : (queue T maxBlockSize maxSize).IsHistory es) :
    (es.foldlM Sight.next ⟨none, none⟩).isSome :=
  Object.observer_isHistory_iff.mp ((Sight.follows maxSize).isHistory ((refines h).isHistory hh))

/-- Another element is enqueued between the two. -/
theorem isHistory_sight_passOne : (List.foldlM Sight.next (⟨none, none⟩ : Sight ℕ)
    [.enqueue .canAlloc 7, .enqueued true, .call .peek, .returned (.peeked (some 7)),
      .enqueue .canAlloc 8, .enqueued true, .call .tryDequeue,
      .returned (.dequeued (some 7))]).isSome :=
  isHistory_sight config_default ⟨_, passOne.take 9 ++ another ++ passOne.drop 9, _, rfl, rfl, rfl⟩

end ReaderWriterQueue

end TestBuffer
