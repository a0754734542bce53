import TestBuffer.SynchronisedQueue.Model
/-!
# `SynchronisedQueue<T>` — exactly once and in order

`Dequeue` tests, reads and removes in three steps, and pushes land between
them. The mutex keeps the other `Dequeue`s out, so nothing is removed
there; and a push joins at the back, which neither empties the queue nor
changes its front. So what the thread past the lock has found out stays
true until it uses it (`Loc.Knows`), and the value it returns is the one
it removes (`Delivers`).
-/

namespace TestBuffer

namespace SynchronisedQueue

variable {Tid T : Type*} {q : SynchronisedQueue T} {l l' : Loc T} {o : Outcome T}

/-- **What a `Dequeue` knows** of the queue, at each location past its
test. -/
def Loc.Knows (q : SynchronisedQueue T) : Loc T → Prop
  | foundItem => q.mQueue ≠ []
  | fronted result => ∃ x, q.mQueue.head? = some x ∧ result = some x
  | popped result removed => ∃ x, result = some x ∧ removed = some x ∧ q.pops.getLast? = some x
  | uncounted result removed =>
    ∃ x, result = some x ∧ removed = some x ∧ q.pops.getLast? = some x
  | _ => True

/-- Nothing is known without the mutex. -/
theorem Loc.knows_of_not_holding (hl : l.holding = false) : l.Knows q := by
  cases l <;> trivial

/-- **A step finds out** what the thread knows after it. -/
theorem Step.knows_self (ho : Step q l o) (hl : l.Knows q) (hnext : o.next = some l') :
    l'.Knows o.queue := by
  cases ho with
  | findItem hq =>
    cases hnext
    exact hq
  | front =>
    cases hnext
    obtain ⟨x, rest, hq⟩ := List.exists_cons_of_ne_nil hl
    exact ⟨x, by rw [hq, List.head?_cons], by rw [hq, List.head?_cons]⟩
  | pop =>
    cases hnext
    obtain ⟨x, hx, hresult⟩ := hl
    refine ⟨x, hresult, hx, ?_⟩
    rw [hx, Option.toList_some, List.getLast?_concat]
  | uncount =>
    cases hnext
    exact hl
  | notify | unlock => cases hnext
  | push | count | lock _ | findEmpty _ | wait | relock _ =>
    cases hnext
    trivial

/-- **And another thread's step leaves it true**: the only one that may be
past the lock cannot remove anything, and a push joins at the back. -/
theorem Step.knows_other (ho : Step q l o) (hone : l'.holding = true → l.holding = false)
    (hl : l'.Knows q) : l'.Knows o.queue := by
  by_cases hholding : l'.holding = true
  · have hl := hone hholding
    cases ho with
    | push =>
      cases l' with
      | foundItem => exact List.append_ne_nil_of_left_ne_nil ‹_› _
      | fronted result =>
        obtain ⟨x, hx, hresult⟩ := ‹Loc.Knows q (.fronted result)›
        refine ⟨x, ?_, hresult⟩
        rw [List.head?_append, hx]
        rfl
      | popped _ _ | uncounted _ _ => assumption
      | locked | foundEmpty => trivial
      | _ => cases hholding
    | count | notify | lock _ | relock _ => cases l' <;> assumption
    | _ => cases hl
  · exact Loc.knows_of_not_holding (Bool.not_eq_true _ ▸ hholding)

/-- **A push adds to what is held, a pop moves to what was taken.** -/
theorem Step.fifo (ho : Step q l o) (hq : q.pops ++ q.mQueue = q.pushes) :
    o.queue.pops ++ o.queue.mQueue = o.queue.pushes := by
  cases ho with
  | push => rw [← List.append_assoc, hq]
  | pop =>
    rw [← hq, List.append_assoc]
    cases q.mQueue <;> rfl
  | _ => exact hq

variable {s s' : State Tid T} {a : Act Tid T}

/-- Where one thread moves, what the others know and what it knows. -/
theorem knows_update [DecidableEq Tid] {pc : Tid → Option (Loc T)} {t : Tid} {x : Option (Loc T)}
    (hothers : ∀ u l, u ≠ t → pc u = some l → l.Knows q) (hx : ∀ l, x = some l → l.Knows q)
    (u : Tid) (l : Loc T) (hu : Function.update pc t x u = some l) : l.Knows q := by
  rcases eq_or_ne u t with rfl | hne
  · rw [Function.update_self] at hu
    exact hx l hu
  · rw [Function.update_of_ne hne] at hu
    exact hothers u l hne hu

variable [Fintype Tid] [DecidableEq Tid]

/-- **The values taken, followed by those held, are the values pushed.** -/
theorem fifo_of_reachable (hs : (machine Tid T).Reachable s) :
    s.queue.pops ++ s.queue.mQueue = s.queue.pushes := by
  refine hs.invariant (I := fun s => s.queue.pops ++ s.queue.mQueue = s.queue.pushes) ?_ ?_
  · rintro _ rfl
    rfl
  · intro s a s' _ ih _ hstep
    cases moves_of_step hstep with
    | exec _ ho _ => exact ho.fifo ih
    | enqueue _ | dequeue _ | wake _ _ | spurious _ => exact ih

/-- **What a thread knows stays true** while it holds the mutex. -/
theorem knows_of_reachable (hs : (machine Tid T).Reachable s) :
    ∀ t l, s.pc t = some l → l.Knows s.queue := by
  refine hs.invariant (I := fun s => ∀ t l, s.pc t = some l → l.Knows s.queue) ?_ ?_
  · rintro _ rfl t l ht
    cases ht
  · intro s a s' hr ih _ hstep
    cases moves_of_step hstep with
    | enqueue _ | dequeue _ | spurious _ =>
      refine knows_update (fun u l _ hu => ih u l hu) ?_
      rintro l ⟨⟩
      trivial
    | @wake t w u _ _ =>
      have hreturned : ∀ v l, Function.update s.pc t none v = some l → l.Knows s.queue :=
        knows_update (fun v l _ hv => ih v l hv) nofun
      refine knows_update (fun v l _ hv => hreturned v l hv) ?_
      rintro l ⟨⟩
      trivial
    | @exec t w l o ht ho _ =>
      refine knows_update (fun u l' hne hu => ?_) fun l' hnext => ho.knows_self (ih t l ht) hnext
      refine ho.knows_other (fun hl' => ?_) (ih u l' hu)
      by_contra hl
      exact hne (holding_unique hr hu hl' ht (Bool.not_eq_false _ ▸ hl))

/-- **Exactly once and in order**, with no lock in `Enqueue`. -/
structure Delivers (s : State Tid T) : Prop where
  /-- The values taken so far, followed by those held, are the values
  pushed, in the order of the pushes. -/
  fifo : s.queue.pops ++ s.queue.mQueue = s.queue.pushes
  /-- `front` finds an item, -/
  front : ∀ t, s.pc t = some .foundItem → s.queue.mQueue ≠ []
  /-- and `pop` finds the item `front` gave. -/
  pop : ∀ t result, s.pc t = some (.fronted result) →
    s.queue.mQueue ≠ [] ∧ result = s.queue.mQueue.head?
  /-- A `Dequeue` returns what its own pop removed, which is the value
  last taken. -/
  returns : ∀ t result removed o, s.pc t = some (.uncounted result removed) →
    exec (.uncounted result removed) s.queue = some o →
      ∃ x, o.result = some x ∧ removed = some x ∧ s.queue.pops.getLast? = some x

/-- **The queue delivers exactly once and in order**, in every reachable
state of any number of threads. -/
theorem delivers (hs : (machine Tid T).Reachable s) : Delivers s := by
  have hknows := knows_of_reachable hs
  refine ⟨fifo_of_reachable hs, fun t ht => hknows t _ ht, fun t result ht => ?_, ?_⟩
  · obtain ⟨x, hx, hresult⟩ := hknows t _ ht
    refine ⟨fun hq => ?_, hresult.trans hx.symm⟩
    rw [hq] at hx
    cases hx
  · intro t result removed o ht ho
    cases ho
    exact hknows t _ ht

/-- Two values pushed, and a `Dequeue` about to return the first. -/
theorem delivers_of_pushes :
    ∃ s, (machine (Fin 2) ℤ).Reachable s ∧ s.queue.pushes = [7, 8] ∧ s.queue.mQueue = [8] ∧
      s.pc 1 = some (.uncounted (some 7) (some 7)) ∧ Delivers s := by
  have hrun : (machine (Fin 2) ℤ).Reachable _ :=
    Machine.reachable_of_run (.init rfl)
      [.enqueue 0 7, .exec 0 none, .exec 0 none, .exec 0 none, .dequeue 1, .exec 1 none,
        .exec 1 none, .enqueue 0 8, .exec 1 none, .exec 0 none, .exec 1 none, .exec 1 none] rfl
  exact ⟨_, hrun, rfl, rfl, rfl, delivers hrun⟩

end SynchronisedQueue

end TestBuffer
