import TestBuffer.Common.Outline
/-!
# One record for each completion

Where the handler that a completion runs has the turn until it has handed
its record over, no other completion comes in between: the record is
computed from what the buffer held when that completion was the last one.
So the records handed over are, in order, one for each completion, computed
from the buffer after it (`Handover.offers_prefix_handed`).
-/

namespace TestBuffer

namespace Pool

variable {words : ℕ} {Tid Task Loc MainLoc Shared Record : Type*}

/-- **The records due**, one for each completion, from the buffer after
it. -/
def handed (record : Buffer words → Record) (b : Buffer words) (cs : List Completion) :
    List (Offer Record) :=
  (List.range cs.length).map fun k => ⟨some k, record (bufferAfter b (cs.take (k + 1)))⟩

variable {record : Buffer words → Record} {b : Buffer words}

@[simp] theorem length_handed (cs : List Completion) : (handed record b cs).length = cs.length := by
  rw [handed, List.length_map, List.length_range]

theorem handed_concat (cs : List Completion) (c : Completion) :
    handed record b (cs ++ [c]) =
      handed record b cs ++ [⟨some cs.length, record (bufferAfter b (cs ++ [c]))⟩] := by
  rw [handed, List.length_append, List.length_singleton, List.range_succ, List.map_append, handed]
  congr 1
  · refine List.map_congr_left fun k hk => ?_
    rw [List.take_append_of_le_length (List.mem_range.mp hk)]
  · rw [List.map_singleton, List.take_of_length_le (by simp)]

theorem getElem?_handed {cs : List Completion} {k : ℕ} (hk : k < cs.length) :
    (handed record b cs)[k]? = some ⟨some k, record (bufferAfter b (cs.take (k + 1)))⟩ := by
  rw [handed, List.getElem?_map, List.getElem?_range hk]
  rfl

variable {P : Program words Task Loc MainLoc Shared Record}

/-- **A handler that hands over before it passes its turn on.** -/
structure Handover (W : Weight P) (record : Buffer words → Record) where
  /-- The handler of a completion, and its record not yet handed over. -/
  before : Loc → Bool
  /-- What it has computed from the buffer. -/
  carries : Loc → Option Record
  receive_pos : 0 < W.receive
  main_one : W.main P.mainInit = 1
  entry_carries : ∀ τ, carries (P.entry τ) = none
  completion_before : ∀ e n, before (P.entry (P.completion e n)) = true
  /-- A step before: the record is handed over, or the handler goes on. -/
  exec_before : ∀ {l sh st b o}, 0 < W.loc l → P.exec l sh st b = some o → before l = true →
    (∀ r, carries l = some r → r = record b) →
    (o.offer = some (record b) ∧ ∀ l', o.next = some l' → before l' = false) ∨
      (o.offer = none ∧ o.receive = false ∧ ∃ l', o.next = some l' ∧ 0 < W.loc l' ∧
        before l' = true ∧ ∀ r, carries l' = some r → r = record b)
  /-- A step after: nothing more is handed over. -/
  exec_after : ∀ {l sh st b o}, P.exec l sh st b = some o → before l = false →
    o.offer = none ∧ ∀ l', o.next = some l' → before l' = false
  /-- Only a handler with the turn is before its handover. -/
  before_pos : ∀ {l}, before l = true → 0 < W.loc l
  main_post : ∀ {m sh st j o τ}, P.main m sh st j = some o → o.post = some τ →
    before (P.entry τ) = false
  wake_eq : ∀ {l l'}, P.wake l = some l' → before l' = before l ∧ carries l' = carries l

namespace Handover

variable {W : Weight P} (H : Handover W record)

/-- Every completion so far has its record handed over. -/
structure Done (record : Buffer words → Record) (b : Buffer words) (w : World words Shared Record) :
    Prop where
  buffer_eq : w.buffer = bufferAfter b w.completions
  offers_eq : w.offers = handed record b w.completions

/-- Every completion so far but the last, the one that `cause` is. -/
structure Pending (record : Buffer words → Record) (b : Buffer words) (cause : Option ℕ)
    (w : World words Shared Record) : Prop where
  buffer_eq : w.buffer = bufferAfter b w.completions
  offers_eq : ∃ cs c, w.completions = cs ++ [c] ∧ cause = some cs.length ∧
    w.offers = handed record b cs

/-- **The outline of a handover.** -/
def assertion (b : Buffer words) : Place Task Loc MainLoc → World words Shared Record → Prop
  | .job j, w =>
    if H.before (P.entry j.task) = true then Pending record b j.cause w else Done record b w
  | .loc l cause, w =>
    if H.before l = true then
      Pending record b cause w ∧ ∀ r, H.carries l = some r → r = record w.buffer
    else Done record b w
  | _, w => Done record b w

variable {w : World words Shared Record} {o : Outcome Loc Shared Record} {cause : Option ℕ}

theorem assertion_job {j : Job Task} : H.assertion b (.job j) w =
    if H.before (P.entry j.task) = true then Pending record b j.cause w else Done record b w :=
  rfl

theorem assertion_loc {l : Loc} : H.assertion b (.loc l cause) w =
    if H.before l = true then
      Pending record b cause w ∧ ∀ r, H.carries l = some r → r = record w.buffer
    else Done record b w :=
  rfl

/-- The outline is about the buffer, the completions and the records. -/
theorem assertion_congr (w w' : World words Shared Record) (hbuffer : w'.buffer = w.buffer)
    (hcompletions : w'.completions = w.completions) (hoffers : w'.offers = w.offers)
    {p : Place Task Loc MainLoc} (hA : H.assertion b p w) : H.assertion b p w' := by
  have hdone : Done record b w → Done record b w' := by
    rintro ⟨h₁, h₂⟩
    exact ⟨by rw [hbuffer, hcompletions]; exact h₁, by rw [hoffers, hcompletions]; exact h₂⟩
  have hpending : ∀ {cause}, Pending record b cause w → Pending record b cause w' := by
    rintro cause ⟨h₁, cs, c, h₂, h₃, h₄⟩
    exact ⟨by rw [hbuffer, hcompletions]; exact h₁, cs, c, hcompletions.trans h₂, h₃,
      hoffers.trans h₄⟩
  cases p with
  | main m => exact hdone hA
  | receiving => exact hdone hA
  | spent => exact hdone hA
  | job j =>
    rw [assertion_job] at hA ⊢
    split
    · rw [if_pos ‹_›] at hA
      exact hpending hA
    · rw [if_neg ‹_›] at hA
      exact hdone hA
  | loc l cause =>
    rw [assertion_loc] at hA ⊢
    split
    · rw [if_pos ‹_›] at hA
      rw [hbuffer]
      exact ⟨hpending hA.1, hA.2⟩
    · rw [if_neg ‹_›] at hA
      exact hdone hA

/-- A step that hands nothing over disturbs nothing. -/
theorem assertion_after {p : Place Task Loc MainLoc} (ho : o.offer = none)
    (hA : H.assertion b p w) : H.assertion b p (w.after o cause) := by
  have hoffers : w.offers ++ (o.offer.map (Offer.mk cause)).toList = w.offers := by
    rw [ho]
    exact List.append_nil _
  exact H.assertion_congr w (w.after o cause) rfl rfl hoffers hA

/-- The step that hands the record over leaves everything done. -/
theorem Pending.handOver (h : Pending record b cause w) (ho : o.offer = some (record w.buffer)) :
    Done record b (w.after o cause) := by
  obtain ⟨cs, c, hcs, rfl, hoffers⟩ := h.offers_eq
  refine ⟨h.buffer_eq, ?_⟩
  show w.offers ++ (o.offer.map (Offer.mk (some cs.length))).toList = handed record b w.completions
  rw [ho, hoffers, hcs, handed_concat, ← hcs, ← h.buffer_eq]
  rfl

/-- Where everything is done, the outline holds wherever the turn goes
next, unless to a handler before its handover. -/
theorem assertion_placeAfter (h : Done record b w)
    (hnext : ∀ l', o.next = some l' → H.before l' = false) :
    H.assertion b (W.placeAfter o cause) w := by
  unfold Weight.placeAfter
  split
  · exact h
  · split
    · split
      · rw [assertion, hnext _ ‹_›]
        exact h
      · exact h
    · exact h

theorem outline (b : Buffer words) : Outline W (H.assertion b) where
  start {w j} _ hA := by
    rw [assertion_job] at hA
    rw [assertion_loc, H.entry_carries]
    split
    · rw [if_pos ‹_›] at hA
      exact ⟨hA, nofun⟩
    · rw [if_neg ‹_›] at hA
      exact hA
  complete {w c} _ hA := by
    have hbefore : H.before (P.entry (P.queued c)) = true := by
      cases c with
      | success payload => exact H.completion_before _ _
      | failure => exact H.completion_before _ _
    have hdone : Done record b w := hA
    rw [assertion_job, if_pos hbefore]
    refine ⟨?_, w.completions, c, rfl, rfl, hdone.offers_eq⟩
    show c.receive w.buffer = bufferAfter b (w.completions ++ [c])
    rw [bufferAfter_concat, hdone.buffer_eq]
  exec {w l cause o} hl ho hA := by
    by_cases hbefore : H.before l = true
    · -- no receive is out yet, so the buffer is still the one of this completion
      rw [assertion_loc, if_pos hbefore] at hA
      obtain ⟨hoffer, hnext⟩ | ⟨hoffer, hreceive, l', hnext, hl', hbefore', hcarries⟩ :=
        H.exec_before hl ho hbefore hA.2
      · exact H.assertion_placeAfter (hA.1.handOver hoffer) hnext
      · refine H.assertion_after hoffer ?_
        rw [W.placeAfter_next hreceive hnext hl', assertion_loc, if_pos hbefore']
        exact ⟨hA.1, hcarries⟩
    · obtain ⟨hoffer, hnext⟩ := H.exec_after ho (by simpa using hbefore)
      rw [assertion_loc, if_neg hbefore] at hA
      exact H.assertion_after hoffer (H.assertion_placeAfter hA hnext)
  mainStep {w m joined o} _ ho hA := by
    have hdone : Done record b (w.afterMain o) := ⟨hA.buffer_eq, hA.offers_eq⟩
    unfold Weight.placeAfterMain
    split
    · exact hdone
    · split
      · split
        · rw [assertion_job, H.main_post ho ‹_›]
          exact hdone
        · exact hdone
      · exact hdone
  wake {w l l' cause} hl hA := by
    rw [assertion_loc] at hA ⊢
    rw [(H.wake_eq hl).1, (H.wake_eq hl).2]
    exact hA
  complete_stable {w c p} hzero := absurd hzero H.receive_pos.ne'
  exec_stable {w l cause o p} hzero ho hA := by
    have hbefore : H.before l = false := by
      by_contra hb
      have := H.before_pos (by simpa using hb : H.before l = true)
      omega
    exact H.assertion_after (H.exec_after ho hbefore).1 hA
  main_stable {w m joined o p} _ _ hA := H.assertion_congr w (w.afterMain o) rfl rfl rfl hA

variable {Tid : Type*} [Fintype Tid] [DecidableEq Tid]
variable {s : State words Tid Task Loc MainLoc Shared Record}
include H

/-- **The records handed over are those due, in order**, for every
completion but the last, and for that one if its handler is past its
handover. -/
theorem offers_prefix_handed (hs : (machine Tid P b).Reachable s) :
    s.world.offers <+: handed record b s.world.completions := by
  have hm := (H.outline b).meets H.main_one ⟨rfl, rfl⟩ hs
  have hdone : Done record b s.world → s.world.offers <+: handed record b s.world.completions :=
    fun h => h.offers_eq ▸ List.prefix_refl _
  have hpending : ∀ cause, Pending record b cause s.world →
      s.world.offers <+: handed record b s.world.completions := by
    rintro cause ⟨_, cs, c, hcs, _, hoffers⟩
    rw [hoffers, hcs, handed_concat]
    exact List.prefix_append _ _
  obtain ⟨p, hp⟩ := W.exists_occupied s
  have hA := hm.2 p hp
  cases p with
  | main m => exact hdone hA
  | receiving => exact hdone hA
  | spent => exact hdone hA
  | job j =>
    rw [assertion_job] at hA
    split at hA
    · exact hpending _ hA
    · exact hdone hA
  | loc l cause =>
    rw [assertion_loc] at hA
    split at hA
    · exact hpending _ hA.1
    · exact hdone hA

/-- Each record handed over is computed from what the buffer held right
after the completion it is for. -/
theorem record_eq (hs : (machine Tid P b).Reachable s) {x : Offer Record}
    (hx : x ∈ s.world.offers) :
    ∃ k < s.world.completions.length, x.cause = some k ∧
      x.record = record (bufferAfter b (s.world.completions.take (k + 1))) := by
  have hmem := (H.offers_prefix_handed hs).subset hx
  obtain ⟨k, hk, rfl⟩ := List.mem_map.mp hmem
  exact ⟨k, List.mem_range.mp hk, rfl, rfl⟩

end Handover

end Pool

end TestBuffer
