import TestBuffer.BlockingReaderWriterQueue.Spec
import TestBuffer.LightweightSemaphore.Refine
import TestBuffer.ReaderWriterQueue.Fifo
/-!
# The blocking queue is one

The members are replaced by what they are for (`Object.Simulation.on`),
and what is left is a program on a queue and a number of permits. Every
element in `inner` is one of three: there is a permit for it, the consumer
has taken its permit and not yet the element, or the producer has not
signaled it (`Rel.length`). So a dequeue that was let through finds an
element, and the assertion that it does never fails.

The semaphore is held to fewer than `2 ^ 63` permits and to deadlines off
the whole second (`timely`); that each signal is for something the program
sees to itself.
-/

namespace TestBuffer

namespace BlockingReaderWriterQueue

open ReaderWriterQueue (Answer)

variable {T : Type*}

/-! ## The relation -/

/-- The program on what its members are for. -/
abbrev Middle (T : Type*) :=
  (Program T × ReaderWriterQueue.Spec.State T) × LightweightSemaphore.Spec.State

/-- The element is in `inner`, or will be, or will not. -/
inductive Enqueuing : ReaderWriterQueue.Spec.Producer T → Spec.Producer T → ℕ → Prop
  | pending {mode : ReaderWriterQueue.AllocationMode} {x : T} {held held' : ℕ}
      (h : held ≤ held') : Enqueuing (.pending mode x held) (.pending x held') 0
  | granted {x : T} {held : ℕ} : Enqueuing (.granted x) (.pending x held) 0
  | inserted : Enqueuing (.answered true) .inserted 1
  | refused : Enqueuing (.answered false) (.answered false) 0

/-- The signal has been given or will be. -/
inductive Signaling : LightweightSemaphore.Spec.Signaller → Spec.Producer T → ℕ → Prop
  | pending : Signaling (.pending 1) .inserted 1
  | answered : Signaling .answered (.answered true) 0

/-- **What holds where the producer stands**; the last number is of the
elements it has inserted and not signaled. -/
def ProducerOk (contents : List T) (q : ReaderWriterQueue.Spec.Producer T)
    (d : LightweightSemaphore.Spec.Signaller) (t : Spec.Producer T) (withheld : ℕ) :
    Producer T → Prop
  | .idle => q = .idle ∧ d = .idle ∧ t = .idle ∧ withheld = 0
  | .start _ x => q = .idle ∧ d = .idle ∧
      (∃ held, contents.length ≤ held ∧ t = .pending x held) ∧ withheld = 0
  | .enqueuing => Enqueuing q t withheld ∧ d = .idle
  | .signal => q = .idle ∧ d = .idle ∧ t = .inserted ∧ withheld = 1
  | .signaling => q = .idle ∧ Signaling d t withheld
  | .answer ok => q = .idle ∧ d = .idle ∧ t = .answered ok ∧ withheld = 0

/-- The consumer has called a dequeue that is not decided. -/
def Pending (op : Op) (t : Spec.Consumer T) : Prop :=
  op ≠ .peek ∧ ∃ wasEmpty, t = .pending op wasEmpty

/-- It waits, or was let through, or was not. -/
inductive Waiting (op : Op) : LightweightSemaphore.Spec.Waiter → Spec.Consumer T → ℕ → Prop
  | pending {o : LightweightSemaphore.Op} {t : Spec.Consumer T} (ho : op.sema = some o)
      (h : Pending op t) : Waiting op (.pending o) t 0
  | taken {t : Spec.Consumer T} (h : Pending op t) : Waiting op (.answered true) t 1
  | failed (h : op.mayFail = true) : Waiting op (.answered false) (.answered op.inner.empty) 0

/-- It is to take the first element, or has. -/
inductive Dequeuing (op : Op) : ReaderWriterQueue.Spec.Consumer T → Spec.Consumer T → ℕ → Prop
  | pending {t : Spec.Consumer T} (h : Pending op t) :
      Dequeuing op (.pending op.inner false) t 1
  | taken {x : T} (h : op ≠ .peek) :
      Dequeuing op (.answered (op.inner.found x)) (.answered (op.inner.found x)) 0

/-- It is to look at the first element, or has. -/
inductive Looking : ReaderWriterQueue.Spec.Consumer T → Spec.Consumer T → Prop
  | pending {wasEmpty wasEmpty' : Bool} (h : wasEmpty = true → wasEmpty' = true) :
      Looking (.pending .peek wasEmpty) (.pending .peek wasEmpty')
  | answered {r : Answer T} : Looking (.answered r) (.answered r)

/-- **What holds where the consumer stands**; the last number is of the
permits it has taken and not used. -/
def ConsumerOk (contents : List T) (q : ReaderWriterQueue.Spec.Consumer T)
    (w : LightweightSemaphore.Spec.Waiter) (t : Spec.Consumer T) (taken : ℕ) :
    Consumer T → Prop
  | .idle => q = .idle ∧ w = .idle ∧ t = .idle ∧ taken = 0
  | .wait op => q = .idle ∧ w = .idle ∧ Pending op t ∧ taken = 0
  | .waiting op => q = .idle ∧ Waiting op w t taken
  | .dequeue op => q = .idle ∧ w = .idle ∧ Pending op t ∧ taken = 1
  | .dequeuing op => w = .idle ∧ Dequeuing op q t taken
  | .look => q = .idle ∧ w = .idle ∧
      (∃ wasEmpty, t = .pending .peek wasEmpty ∧ (contents = [] → wasEmpty = true)) ∧ taken = 0
  | .looking => w = .idle ∧ Looking q t ∧ taken = 0
  | .answer r => q = .idle ∧ w = .idle ∧ t = .answered r ∧ taken = 0
  | .failed => False

/-- **How the program on its members stands to the specification.** -/
structure Rel (s : Middle T) (t : Spec.State T) (withheld taken : ℕ) : Prop where
  contents : t.contents = s.1.2.contents
  /-- An element has a permit, or the consumer has its permit, or it is not
  signaled. -/
  length : t.contents.length = s.2.value + taken + withheld
  producer : ProducerOk t.contents s.1.2.producer s.2.signaller t.producer withheld s.1.1.producer
  consumer : ConsumerOk t.contents s.1.2.consumer s.2.waiter t.consumer taken s.1.1.consumer

variable {contents : List T} {q : ReaderWriterQueue.Spec.Producer T}
variable {d : LightweightSemaphore.Spec.Signaller} {tp : Spec.Producer T} {withheld taken : ℕ}
variable {c : ReaderWriterQueue.Spec.Consumer T} {w : LightweightSemaphore.Spec.Waiter}
variable {tc : Spec.Consumer T} {pp : Producer T} {pc : Consumer T}

/-- What is withheld is what the specification withholds. -/
theorem ProducerOk.withheld_eq (h : ProducerOk contents q d tp withheld pp) :
    tp.withheld = withheld := by
  cases pp with
  | idle | signal | answer =>
    obtain ⟨-, -, rfl, rfl⟩ := h
    rfl
  | start =>
    obtain ⟨-, -, ⟨held, -, rfl⟩, rfl⟩ := h
    rfl
  | enqueuing => cases h.1 <;> rfl
  | signaling => cases h.2 <;> rfl

/-- What the producer knows stays true where there is less. -/
theorem ProducerOk.shrink (h : ProducerOk contents q d tp withheld pp) {contents' : List T}
    (hle : contents'.length ≤ contents.length) : ProducerOk contents' q d tp withheld pp := by
  cases pp with
  | idle | enqueuing | signal | signaling | answer => exact h
  | start =>
    obtain ⟨hq, hd, ⟨held, hheld, ht⟩, hw⟩ := h
    exact ⟨hq, hd, ⟨held, hle.trans hheld, ht⟩, hw⟩

/-- What the consumer knows stays true where there is more. -/
theorem ConsumerOk.grow (h : ConsumerOk contents c w tc taken pc) (x : T) :
    ConsumerOk (contents ++ [x]) c w tc taken pc := by
  cases pc with
  | idle | wait | waiting | dequeue | dequeuing | looking | answer | failed => exact h
  | look =>
    obtain ⟨hc, hw, ⟨e, ht, -⟩, htaken⟩ := h
    exact ⟨hc, hw, ⟨e, ht, fun hnil => absurd hnil (by simp)⟩, htaken⟩

/-- The number of elements a dequeue may get. -/
theorem Rel.ready_eq {s : Middle T} {t : Spec.State T} (h : Rel s t withheld taken) :
    t.ready = s.2.value + taken := by
  have hlen := h.length
  rw [Spec.State.ready, h.producer.withheld_eq]
  omega

variable [DecidableEq T] {capacity : ℕ}

/-- A state the specification gets to from `t` by `es`. -/
def Simulated (capacity : ℕ) (t : Spec.State T) (es : List (Event T)) (s' : Middle T) : Prop :=
  ∃ bs t', (Spec.queue T capacity).run t bs = some t' ∧ Act.history bs = es ∧
    ∃ withheld taken, Rel s' t' withheld taken

theorem Rel.stay {s' : Middle T} {t : Spec.State T} {n k : ℕ} (h : Rel s' t n k) :
    Simulated capacity t [] s' := ⟨[], t, rfl, rfl, _, _, h⟩

theorem Rel.after {s' : Middle T} {t : Spec.State T} (e : Spec.Effect) (t' : Spec.State T)
    {n k : ℕ} (hs : Spec.step capacity t (.inner e) = some t') (h : Rel s' t' n k) :
    Simulated capacity t [] s' :=
  ⟨[.inner e], t', Machine.run_singleton.trans hs, rfl, _, _, h⟩

theorem Rel.event {s' : Middle T} {t : Spec.State T} (e : Event T) (t' : Spec.State T)
    {n k : ℕ} (hs : Spec.step capacity t (.event e) = some t') (h : Rel s' t' n k) :
    Simulated capacity t [e] s' :=
  ⟨[.event e], t', Machine.run_singleton.trans hs, rfl, _, _, h⟩

/-! ## What the members do -/

variable {p p' : Program T} {q₁ q₁' : ReaderWriterQueue.Spec.State T}
variable {u u' : LightweightSemaphore.Spec.State} {t : Spec.State T}

/-- The specification takes the first element. -/
theorem respond_step {op : Op} {x : T} {xs : List T} (hp : Pending op tc)
    (hready : 0 < (⟨x :: xs, tp, tc⟩ : Spec.State T).ready) :
    Spec.step capacity ⟨x :: xs, tp, tc⟩ (.inner .respond) =
      some ⟨xs, tp, .answered (op.inner.found x)⟩ := by
  obtain ⟨hne, e, rfl⟩ := hp
  cases op with
  | peek => exact absurd rfl hne
  | tryDequeue | waitDequeue | waitDequeueTimed | pop => exact if_pos hready

/-- The specification finds nothing to take. -/
theorem empty_step {op : Op} {cs : List T} (hp : Pending op tc) (hfail : op.mayFail = true)
    (hready : (⟨cs, tp, tc⟩ : Spec.State T).ready = 0) :
    Spec.step capacity ⟨cs, tp, tc⟩ (.inner .empty) =
      some ⟨cs, tp, .answered op.inner.empty⟩ := by
  obtain ⟨hne, e, rfl⟩ := hp
  cases op with
  | peek => exact absurd rfl hne
  | waitDequeue => cases hfail
  | tryDequeue | waitDequeueTimed | pop => exact if_pos ⟨hfail, hready⟩

/-- A step of `inner`. -/
theorem Rel.inner_step (h : Rel ((p, q₁), u) t withheld taken) {e : ReaderWriterQueue.Spec.Effect}
    (hs : ReaderWriterQueue.Spec.step capacity q₁ (.inner e) = some q₁') :
    Simulated capacity t [] ((p, q₁'), u) := by
  have hready := h.ready_eq
  obtain ⟨pp, pc⟩ := p
  obtain ⟨_, q, c⟩ := q₁
  obtain ⟨v, w, d⟩ := u
  obtain ⟨cs, tp, tc⟩ := t
  obtain ⟨rfl, hlen, hp, hc⟩ := h
  cases e with
  | insert =>
    -- only a producer inside `inner` has something to insert
    have hinsert : ∀ x, Enqueuing q tp withheld → pp = .enqueuing → d = .idle →
        (∃ held, tp = .pending x held) → withheld = 0 →
        q₁' = ⟨cs ++ [x], .answered true, c⟩ →
        Simulated capacity ⟨cs, tp, tc⟩ [] ((⟨pp, pc⟩, q₁'), ⟨v, w, d⟩) := by
      rintro x - rfl rfl ⟨held, rfl⟩ rfl rfl
      refine Rel.after (n := 1) (k := taken) .insert ⟨cs ++ [x], .inserted, tc⟩ rfl
        ⟨rfl, ?_, ⟨.inserted, rfl⟩, hc.grow x⟩
      have hlen : cs.length = v + taken + 0 := hlen
      show (cs ++ [x]).length = v + taken + 1
      rw [List.length_append, List.length_singleton, hlen]
    cases pp with
    | idle | start | signal | signaling | answer =>
      obtain ⟨rfl : q = .idle, -⟩ := hp
      cases hs
    | enqueuing =>
      obtain ⟨he, rfl⟩ := hp
      cases he with
      | pending hle =>
        cases hs
        exact hinsert _ (.pending hle) rfl rfl ⟨_, rfl⟩ rfl rfl
      | granted =>
        cases hs
        exact hinsert _ .granted rfl rfl ⟨_, rfl⟩ rfl rfl
      | inserted | refused => cases hs
  | refuse =>
    cases pp with
    | idle | start | signal | signaling | answer =>
      obtain ⟨rfl : q = .idle, -⟩ := hp
      cases hs
    | enqueuing =>
      obtain ⟨he, rfl⟩ := hp
      cases he with
      | @pending mode x held held' hle =>
        cases mode with
        | canAlloc => cases hs
        | cannotAlloc =>
          obtain ⟨hcap, ⟨⟩⟩ := Option.ite_none_right_eq_some.mp hs
          exact Rel.after .refuse ⟨cs, .answered false, tc⟩ (if_pos (hcap.trans hle))
            ⟨rfl, hlen, ⟨.refused, rfl⟩, hc⟩
      | granted | inserted | refused => cases hs
  | respond =>
    cases pc with
    | failed => exact hc.elim
    | idle | wait | waiting | dequeue | look | answer =>
      obtain ⟨rfl : c = .idle, -⟩ := hc
      cases hs
    | looking =>
      obtain ⟨rfl, hlook, rfl⟩ := hc
      cases hlook with
      | answered => cases hs
      | pending he =>
        cases cs with
        | nil => cases hs
        | cons x xs =>
          cases hs
          exact Rel.after .respond ⟨x :: xs, tp, .answered (.peeked (some x))⟩ rfl
            ⟨rfl, hlen, hp, ⟨rfl, .answered, rfl⟩⟩
    | dequeuing op =>
      obtain ⟨rfl, hdeq⟩ := hc
      cases hdeq with
      | taken => cases hs
      | pending hpend =>
        cases cs with
        | nil =>
          have hlen : 0 = v + 1 + withheld := hlen
          omega
        | cons x xs =>
          have hne := hpend.1
          obtain rfl : q₁' = ⟨xs, q, .answered (op.inner.found x)⟩ := by
            cases op with
            | peek => exact absurd rfl hne
            | tryDequeue | waitDequeue | waitDequeueTimed | pop =>
              cases hs
              rfl
          have hlen : xs.length + 1 = v + 1 + withheld := hlen
          refine Rel.after (n := withheld) (k := 0) .respond _
            (respond_step hpend (by rw [hready]; exact Nat.succ_pos _))
            ⟨rfl, ?_, hp.shrink (Nat.le_succ _), ⟨rfl, .taken hne⟩⟩
          show xs.length = v + 0 + withheld
          omega
  | empty =>
    cases pc with
    | failed => exact hc.elim
    | idle | wait | waiting | dequeue | look | answer =>
      obtain ⟨rfl : c = .idle, -⟩ := hc
      cases hs
    | looking =>
      obtain ⟨rfl, hlook, rfl⟩ := hc
      cases hlook with
      | answered => cases hs
      | @pending wasEmpty wasEmpty' he =>
        cases wasEmpty with
        | false => cases hs
        | true =>
          cases hs
          exact Rel.after .empty ⟨cs, tp, .answered (.peeked none)⟩ (if_pos (he rfl))
            ⟨rfl, hlen, hp, ⟨rfl, .answered, rfl⟩⟩
    | dequeuing op =>
      obtain ⟨rfl, hdeq⟩ := hc
      cases hdeq <;> cases hs

/-- A step of `sema`. -/
theorem Rel.sema_step (h : Rel ((p, q₁), u) t withheld taken)
    {e : LightweightSemaphore.Spec.Effect}
    (hs : LightweightSemaphore.Spec.step u (.inner e) = some u') :
    Simulated capacity t [] ((p, q₁), u') := by
  have hready := h.ready_eq
  obtain ⟨pp, pc⟩ := p
  obtain ⟨_, q, c⟩ := q₁
  obtain ⟨v, w, d⟩ := u
  obtain ⟨cs, tp, tc⟩ := t
  obtain ⟨rfl, hlen, hp, hc⟩ := h
  cases e with
  | take =>
    cases pc with
    | failed => exact hc.elim
    | idle | wait | dequeue | look | answer =>
      obtain ⟨-, rfl : w = .idle, -⟩ := hc
      cases hs
    | dequeuing | looking =>
      obtain ⟨rfl : w = .idle, -⟩ := hc
      cases hs
    | waiting op =>
      obtain ⟨rfl, hw⟩ := hc
      cases hw with
      | taken | failed => cases hs
      | pending ho hpend =>
        cases v with
        | zero => cases hs
        | succ v =>
          cases hs
          have hlen : cs.length = v + 1 + 0 + withheld := hlen
          exact Rel.stay (n := withheld) (k := 1)
            ⟨rfl, hlen, hp, rfl, .taken hpend⟩
  | fail =>
    cases pc with
    | failed => exact hc.elim
    | idle | wait | dequeue | look | answer =>
      obtain ⟨-, rfl : w = .idle, -⟩ := hc
      cases hs
    | dequeuing | looking =>
      obtain ⟨rfl : w = .idle, -⟩ := hc
      cases hs
    | waiting op =>
      obtain ⟨rfl, hw⟩ := hc
      cases hw with
      | taken | failed => cases hs
      | @pending o _ ho hpend =>
        cases v with
        | succ v => cases hs
        | zero =>
          obtain ⟨hmay, ⟨⟩⟩ := Option.ite_none_right_eq_some.mp hs
          have hfail : op.mayFail = true := by
            cases op <;> cases ho
            · rfl
            · exact absurd hmay (by decide)
            · exact hmay
            · rfl
          exact Rel.after .empty _ (empty_step hpend hfail hready)
            ⟨rfl, hlen, hp, rfl, .failed hfail⟩
  | add =>
    cases pp with
    | idle | start | signal | answer =>
      obtain ⟨-, rfl : d = .idle, -⟩ := hp
      cases hs
    | enqueuing =>
      obtain ⟨-, rfl : d = .idle⟩ := hp
      cases hs
    | signaling =>
      obtain ⟨rfl, hd⟩ := hp
      cases hd with
      | answered => cases hs
      | pending =>
        cases hs
        have hlen : cs.length = v + taken + 1 := hlen
        refine Rel.after (n := 0) (k := taken) .publish ⟨cs, .answered true, tc⟩ rfl
          ⟨rfl, ?_, ⟨rfl, .answered⟩, hc⟩
        show cs.length = v + 1 + taken + 0
        omega

/-! ## What the program does -/

/-- A call or return of `inner`. -/
theorem Rel.inner_event (h : Rel ((p, q₁), u) t withheld taken) {e : ReaderWriterQueue.Event T}
    (hs : onInner p e = some p') (hq : ReaderWriterQueue.Spec.step capacity q₁ (.event e) = some q₁') :
    Simulated capacity t [] ((p', q₁'), u) := by
  obtain ⟨pp, pc⟩ := p
  obtain ⟨_, q, c⟩ := q₁
  obtain ⟨v, w, d⟩ := u
  obtain ⟨cs, tp, tc⟩ := t
  obtain ⟨rfl, hlen, hp, hc⟩ := h
  cases e with
  | enqueue mode x =>
    cases pp with
    | idle | enqueuing | signal | signaling | answer => cases hs
    | start mode' x' =>
      obtain ⟨⟨rfl, rfl⟩, ⟨⟩⟩ := Option.ite_none_right_eq_some.mp hs
      obtain ⟨rfl, rfl, ⟨held, hheld, rfl⟩, rfl⟩ := hp
      cases hq
      exact Rel.stay ⟨rfl, hlen, ⟨.pending hheld, rfl⟩, hc⟩
  | malloc ok =>
    cases pp with
    | idle | start | signal | signaling | answer => cases hs
    | enqueuing =>
      cases hs
      obtain ⟨he, rfl⟩ := hp
      cases he with
      | granted | inserted | refused => cases hq
      | @pending mode x held held' hle =>
        cases mode with
        | cannotAlloc => cases hq
        | canAlloc =>
          obtain ⟨hcap, ⟨⟩⟩ := Option.ite_none_right_eq_some.mp hq
          cases ok with
          | true => exact Rel.stay ⟨rfl, hlen, ⟨.granted, rfl⟩, hc⟩
          | false =>
            exact Rel.after .refuse ⟨cs, .answered false, tc⟩ (if_pos (hcap.trans hle))
              ⟨rfl, hlen, ⟨.refused, rfl⟩, hc⟩
  | enqueued ok =>
    cases pp with
    | idle | start | signal | signaling | answer => cases hs
    | enqueuing =>
      cases hs
      obtain ⟨he, rfl⟩ := hp
      cases he with
      | pending | granted => cases hq
      | inserted =>
        obtain ⟨rfl, ⟨⟩⟩ := Option.ite_none_right_eq_some.mp hq
        exact Rel.stay ⟨rfl, hlen, ⟨rfl, rfl, rfl, rfl⟩, hc⟩
      | refused =>
        obtain ⟨rfl, ⟨⟩⟩ := Option.ite_none_right_eq_some.mp hq
        exact Rel.stay ⟨rfl, hlen, ⟨rfl, rfl, rfl, rfl⟩, hc⟩
  | call op =>
    cases pc with
    | idle | wait | waiting | dequeuing | looking | answer | failed => cases hs
    | look =>
      obtain ⟨rfl, ⟨⟩⟩ := Option.ite_none_right_eq_some.mp hs
      obtain ⟨rfl, rfl, ⟨e, rfl, he⟩, rfl⟩ := hc
      cases hq
      exact Rel.stay ⟨rfl, hlen, hp, rfl, .pending fun hnil => he (List.isEmpty_iff.mp hnil), rfl⟩
    | dequeue op' =>
      obtain ⟨rfl, ⟨⟩⟩ := Option.ite_none_right_eq_some.mp hs
      obtain ⟨rfl, rfl, hpend, rfl⟩ := hc
      cases hq
      cases cs with
      | nil =>
        have hlen : 0 = v + 1 + withheld := hlen
        omega
      | cons x xs => exact Rel.stay ⟨rfl, hlen, hp, rfl, .pending hpend⟩
  | returned r =>
    cases pc with
    | idle | wait | waiting | dequeue | look | answer | failed => cases hs
    | looking =>
      cases hs
      obtain ⟨rfl, hlook, rfl⟩ := hc
      cases hlook with
      | pending => cases hq
      | answered =>
        obtain ⟨rfl, ⟨⟩⟩ := Option.ite_none_right_eq_some.mp hq
        exact Rel.stay ⟨rfl, hlen, hp, rfl, rfl, rfl, rfl⟩
    | dequeuing op =>
      cases hs
      obtain ⟨rfl, hdeq⟩ := hc
      cases hdeq with
      | pending => cases hq
      | @taken x hne =>
        obtain ⟨rfl, ⟨⟩⟩ := Option.ite_none_right_eq_some.mp hq
        have hsuccess : success (op.inner.found x) = true := by cases op <;> rfl
        rw [if_pos hsuccess]
        exact Rel.stay ⟨rfl, hlen, hp, rfl, rfl, rfl, rfl⟩

/-- A call or return of `sema`. -/
theorem Rel.sema_event (h : Rel ((p, q₁), u) t withheld taken) {e : LightweightSemaphore.Event}
    (hs : onSema p e = some p') (hu : LightweightSemaphore.Spec.step u (.event e) = some u') :
    Simulated capacity t [] ((p', q₁), u') := by
  obtain ⟨pp, pc⟩ := p
  obtain ⟨_, q, c⟩ := q₁
  obtain ⟨v, w, d⟩ := u
  obtain ⟨cs, tp, tc⟩ := t
  obtain ⟨rfl, hlen, hp, hc⟩ := h
  cases e with
  | call o =>
    cases pc with
    | idle | waiting | dequeue | dequeuing | look | looking | answer | failed => cases hs
    | wait op =>
      obtain ⟨ho, ⟨⟩⟩ := Option.ite_none_right_eq_some.mp hs
      obtain ⟨rfl, rfl, hpend, rfl⟩ := hc
      cases hu
      exact Rel.stay ⟨rfl, hlen, hp, rfl, .pending ho.symm hpend⟩
  | returned ok =>
    cases pc with
    | idle | wait | dequeue | dequeuing | look | looking | answer | failed => cases hs
    | waiting op =>
      obtain ⟨rfl, hw⟩ := hc
      cases hw with
      | pending => cases hu
      | taken hpend =>
        obtain ⟨rfl, ⟨⟩⟩ := Option.ite_none_right_eq_some.mp hu
        cases hs
        exact Rel.stay ⟨rfl, hlen, hp, rfl, rfl, hpend, rfl⟩
      | failed hfail =>
        obtain ⟨rfl, ⟨⟩⟩ := Option.ite_none_right_eq_some.mp hu
        have hne : ¬(false = true ∨ op = .waitDequeue) := by
          rintro (hf | rfl)
          · cases hf
          · cases hfail
        have hs : (if false = true ∨ op = .waitDequeue then _ else _) = some p' := hs
        rw [if_neg hne] at hs
        cases hs
        exact Rel.stay ⟨rfl, hlen, hp, rfl, rfl, rfl, rfl⟩
  | signal n =>
    cases pp with
    | idle | start | enqueuing | signaling | answer => cases hs
    | signal =>
      obtain ⟨rfl, ⟨⟩⟩ := Option.ite_none_right_eq_some.mp hs
      obtain ⟨rfl, rfl, rfl, rfl⟩ := hp
      cases hu
      exact Rel.stay ⟨rfl, hlen, ⟨rfl, .pending⟩, hc⟩
  | signaled =>
    cases pp with
    | idle | start | enqueuing | signal | answer => cases hs
    | signaling =>
      cases hs
      obtain ⟨rfl, hd⟩ := hp
      cases hd with
      | pending => cases hu
      | answered =>
        cases hu
        exact Rel.stay ⟨rfl, hlen, ⟨rfl, rfl, rfl, rfl⟩, hc⟩

/-- A call or return of the queue. -/
theorem Rel.outer_event (h : Rel ((p, q₁), u) t withheld taken) {e : Event T}
    (hs : onOuter p e = some p') : Simulated capacity t [e] ((p', q₁), u) := by
  obtain ⟨pp, pc⟩ := p
  obtain ⟨_, q, c⟩ := q₁
  obtain ⟨v, w, d⟩ := u
  obtain ⟨cs, tp, tc⟩ := t
  obtain ⟨rfl, hlen, hp, hc⟩ := h
  cases e with
  | enqueue mode x =>
    cases pp with
    | start | enqueuing | signal | signaling | answer => cases hs
    | idle =>
      cases hs
      obtain ⟨rfl, rfl, rfl, rfl⟩ := hp
      exact Rel.event _ ⟨cs, .pending x cs.length, tc⟩ rfl
        ⟨rfl, hlen, ⟨rfl, rfl, ⟨_, le_rfl, rfl⟩, rfl⟩, hc⟩
  | enqueued ok =>
    cases pp with
    | idle | start | enqueuing | signal | signaling => cases hs
    | answer ok' =>
      obtain ⟨rfl, ⟨⟩⟩ := Option.ite_none_right_eq_some.mp hs
      obtain ⟨rfl, rfl, rfl, rfl⟩ := hp
      exact Rel.event _ ⟨cs, .idle, tc⟩ (if_pos rfl) ⟨rfl, hlen, ⟨rfl, rfl, rfl, rfl⟩, hc⟩
  | call op =>
    cases pc with
    | wait | waiting | dequeue | dequeuing | look | looking | answer | failed => cases hs
    | idle =>
      cases hs
      obtain ⟨rfl, rfl, rfl, rfl⟩ := hc
      refine Rel.event _ ⟨cs, tp, .pending op cs.isEmpty⟩ rfl ⟨rfl, hlen, hp, ?_⟩
      by_cases hop : op = .peek
      · subst hop
        exact ⟨rfl, rfl, ⟨_, rfl, List.isEmpty_iff.mpr⟩, rfl⟩
      · rw [if_neg hop]
        exact ⟨rfl, rfl, ⟨hop, _, rfl⟩, rfl⟩
  | returned r =>
    cases pc with
    | idle | wait | waiting | dequeue | dequeuing | look | looking | failed => cases hs
    | answer r' =>
      obtain ⟨rfl, ⟨⟩⟩ := Option.ite_none_right_eq_some.mp hs
      obtain ⟨rfl, rfl, rfl, rfl⟩ := hc
      exact Rel.event _ ⟨cs, tp, .idle⟩ (if_pos rfl) ⟨rfl, hlen, hp, rfl, rfl, rfl, rfl⟩

/-! ## Refinement -/

/-- The program on what its members are for. -/
abbrev middle (T : Type*) [DecidableEq T] (capacity : ℕ) :=
  ((program T).on (ReaderWriterQueue.Spec.queue T capacity)).on
    (LightweightSemaphore.Spec.semaphore 0)

/-- **The program on what its members are for refines its specification.** -/
theorem middle_refines (capacity : ℕ) :
    Object.Simulation (middle T capacity) (Spec.queue T capacity)
      fun s t => ∃ withheld taken, Rel s t withheld taken where
  init := by
    rintro ⟨⟨p, q⟩, u⟩ ⟨⟨rfl, rfl⟩, rfl⟩
    exact ⟨_, rfl, 0, 0, rfl, rfl, ⟨rfl, rfl, rfl, rfl⟩, rfl, rfl, rfl, rfl⟩
  step := by
    rintro ⟨⟨p, q⟩, u⟩ t a s' ⟨withheld, taken, hR⟩ hs
    rcases a with e | ⟨b | f | e⟩ | f | f
    · obtain ⟨m, hm, ⟨⟩⟩ := Option.map_eq_some_iff.mp hs
      obtain ⟨p', hp, ⟨⟩⟩ := Option.map_eq_some_iff.mp hm
      exact hR.outer_event hp
    · exact b.elim
    · obtain ⟨m, hm, ⟨⟩⟩ := Option.map_eq_some_iff.mp hs
      obtain ⟨q', hq, ⟨⟩⟩ := Option.map_eq_some_iff.mp hm
      exact hR.inner_step hq
    · obtain ⟨m, hm, ⟨⟩⟩ := Option.map_eq_some_iff.mp hs
      obtain ⟨p', hp, hm⟩ := Option.bind_eq_some_iff.mp hm
      obtain ⟨q', hq, ⟨⟩⟩ := Option.map_eq_some_iff.mp hm
      exact hR.inner_event hp hq
    · obtain ⟨u', hu, ⟨⟩⟩ := Option.map_eq_some_iff.mp hs
      exact hR.sema_step hu
    · obtain ⟨m, hm, hs⟩ := Option.bind_eq_some_iff.mp hs
      obtain ⟨p', hp, ⟨⟩⟩ := Option.map_eq_some_iff.mp hm
      obtain ⟨u', hu, ⟨⟩⟩ := Option.map_eq_some_iff.mp hs
      exact hR.sema_event hp hu

/-- **What the queue needs**: that a signal leaves fewer than `2 ^ 63`
permits, and no wait's deadline falls on a whole second. -/
def timely (s : State T) : Act (Event T) (Step T) → Bool
  | .inner (.shared (.signal count)) => s.2.permits + count < 9223372036854775808
  | .inner (.object (.clock nsec)) => LightweightSemaphore.clean s.2 (.inner (.clock nsec))
  | _ => true

/-- How the queue stands to the program on what its members are for. -/
def Members (maxBlockSize maxSize : ℕ) (s : State T) (m : Middle T) : Prop :=
  (s.1.1 = m.1.1 ∧ ReaderWriterQueue.Rel maxBlockSize maxSize s.1.2 m.1.2) ∧
    LightweightSemaphore.Rel s.2 m.2

variable {z : ReaderWriterQueue.Sizes} {maxBlockSize maxSize : ℕ}

/-- **The members may be replaced by what they are for**: each keeps to it,
and the semaphore has what it needs, as each signal is for one. -/
theorem members_refine (h : ReaderWriterQueue.Config z maxBlockSize maxSize) :
    Object.Simulation ((queue T maxBlockSize maxSize).guard timely) (middle T maxSize)
      (Members maxBlockSize maxSize) := by
  refine Object.Simulation.restrict
    (((Object.Simulation.refl (program T)).on (ReaderWriterQueue.refines h)).on
      (LightweightSemaphore.refines (by decide))) (fun _ h0 => h0) ?_
  rintro ⟨x, u⟩ a s' hs
  obtain ⟨ht, hs⟩ := Machine.guard_step_eq_some.mp hs
  rcases a with e | b | f | f
  · exact hs
  · exact hs
  · -- a step of the semaphore
    obtain ⟨u', hu, ⟨⟩⟩ := Option.map_eq_some_iff.mp hs
    refine Option.map_eq_some_iff.mpr ⟨u', Machine.guard_step_eq_some.mpr ⟨?_, hu⟩, rfl⟩
    cases f with
    | clock nsec => exact ht
    | waiter | expire | invalid | signaller => rfl
  · -- a call of it, or a return
    obtain ⟨x', hx, hs⟩ := Option.bind_eq_some_iff.mp hs
    obtain ⟨u', hu, ⟨⟩⟩ := Option.map_eq_some_iff.mp hs
    refine Option.bind_eq_some_iff.mpr ⟨x', hx, Option.map_eq_some_iff.mpr
      ⟨u', Machine.guard_step_eq_some.mpr ⟨?_, hu⟩, rfl⟩⟩
    cases f with
    | call | returned | signaled => rfl
    | signal n =>
      obtain ⟨p', hp, -⟩ := Option.map_eq_some_iff.mp hx
      obtain ⟨⟨pp, pc⟩, q⟩ := x
      cases pp with
      | idle | start | enqueuing | signaling | answer => cases hp
      | signal =>
        obtain ⟨rfl, -⟩ := Option.ite_none_right_eq_some.mp hp
        exact decide_eq_true ⟨Nat.one_pos, of_decide_eq_true ht⟩

/-- **How the queue stands to the specification.** -/
def Stands (maxBlockSize maxSize : ℕ) (s : State T) (t : Spec.State T) : Prop :=
  ∃ m, Members maxBlockSize maxSize s m ∧ ∃ withheld taken, Rel m t withheld taken

/-- **The blocking queue refines its specification.** -/
theorem refines (h : ReaderWriterQueue.Config z maxBlockSize maxSize) :
    Object.Simulation ((queue T maxBlockSize maxSize).guard timely) (Spec.queue T maxSize)
      (Stands maxBlockSize maxSize) :=
  (members_refine h).trans (middle_refines maxSize)

/-- A call or return of `inner`. -/
abbrev Step.inner (e : ReaderWriterQueue.Event T) : Step T := .program (.shared e)

/-- One element is enqueued and signaled. -/
def enqueueOne : List (Act (Event ℕ) (Step ℕ)) :=
  [.event (.enqueue .canAlloc 7), .inner (.inner (.enqueue .canAlloc 7)),
    .inner (.program (.object .producer)), .inner (.program (.object .producer)),
    .inner (.program (.object .producer)), .inner (.inner (.enqueued true)),
    .inner (.shared (.signal 1)), .inner (.object .signaller), .inner (.shared .signaled),
    .event (.enqueued true)]

end BlockingReaderWriterQueue

end TestBuffer
