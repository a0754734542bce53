import TestBuffer.Common.Handover
/-!
# Whether a record is the completion's own

Where one record is handed over for each completion, computed from the
first `m` bytes of the buffer after it, the record is the completion's own
exactly when the completion brought these bytes: a datagram shorter than
that leaves some as they were, and a receive that failed leaves all
(`Handover.ownRecord_iff`).
-/

namespace TestBuffer

/-- A completion brings the first `m` bytes of the buffer. -/
def Completion.Covers (m : ℕ) : Completion → Prop
  | success payload => m ≤ payload.length
  | failure => False

namespace Pool

variable {words : ℕ} {Task Loc MainLoc Shared Record : Type*}

/-- `r` was handed over for `c`, the last completion so far. -/
def HandedFor {Tid : Type*} (c : Completion) (r : Record)
    (s : State words Tid Task Loc MainLoc Shared Record) : Prop :=
  ∃ cs, s.world.completions = cs ++ [c] ∧ ⟨some cs.length, r⟩ ∈ s.world.offers

/-- **The record of a completion is its own**, in every run that has it
last. -/
structure OwnRecord (Tid : Type*) [Fintype Tid] [DecidableEq Tid]
    (P : Program words Task Loc MainLoc Shared Record) (b : Buffer words) (c : Completion) :
    Prop where
  /-- A receive that failed has no record. -/
  error : c = .failure → ∀ s r, (machine Tid P b).Reachable s → ¬ HandedFor c r s
  /-- What came before a datagram makes no difference to its record. -/
  same : ∀ payload, c = .success payload → ∀ s s' r r', (machine Tid P b).Reachable s →
    (machine Tid P b).Reachable s' → HandedFor c r s → HandedFor c r' s' → r = r'

/-- **Any completion may follow a datagram as long as the buffer**, and
have its record handed over. -/
def Follows (Tid : Type*) [Fintype Tid] [DecidableEq Tid]
    (P : Program words Task Loc MainLoc Shared Record) (b : Buffer words) : Prop :=
  ∀ (b₀ : Buffer words) (c : Completion), ∃ s, (machine Tid P b).Reachable s ∧
    s.world.completions = [.success (List.ofFn b₀), c] ∧ s.world.offers.length = 2

namespace Handover

variable {P : Program words Task Loc MainLoc Shared Record} {W : Weight P}
variable {record : Buffer words → Record} (H : Handover W record)
variable {Tid : Type*} [Fintype Tid] [DecidableEq Tid] {b : Buffer words} {c : Completion}
variable {s : State words Tid Task Loc MainLoc Shared Record}
include H

/-- A record handed over is the one computed from the buffer the
completion left. -/
theorem eq_of_handedFor (hs : (machine Tid P b).Reachable s) {r : Record}
    (h : HandedFor c r s) : ∃ cs, r = record (c.receive (bufferAfter b cs)) := by
  obtain ⟨cs, hcs, hmem⟩ := h
  obtain ⟨k, _, hk, hr⟩ := H.record_eq hs hmem
  refine ⟨cs, hr.trans ?_⟩
  rw [← Option.some.inj hk, hcs, List.take_of_length_le (by simp), bufferAfter_concat]

/-- And where as many were handed over as completed, it was. -/
theorem handedFor_last (hs : (machine Tid P b).Reachable s) (cs : List Completion)
    (hcs : s.world.completions = cs ++ [c])
    (hlength : s.world.offers.length = s.world.completions.length) :
    HandedFor c (record (c.receive (bufferAfter b cs))) s := by
  have hoffers : s.world.offers = handed record b s.world.completions := by
    refine (H.offers_prefix_handed hs).eq_of_length ?_
    rw [hlength, length_handed]
  refine ⟨cs, hcs, ?_⟩
  rw [hoffers, hcs, handed_concat, bufferAfter_concat]
  exact List.mem_append_right _ List.mem_cons_self

/-- **The record is the completion's own exactly where it covers what the
record is computed from.** -/
theorem ownRecord_iff {m : ℕ} (hr : Reads record m) (hm : m ≤ 4 * words)
    (hruns : Follows Tid P b) : OwnRecord Tid P b c ↔ c.Covers m := by
  have hlast : ∀ b₀ c, ∃ s, (machine Tid P b).Reachable s ∧
      HandedFor c (record (c.receive b₀)) s := by
    intro b₀ c
    obtain ⟨s, hs, hcs, hlength⟩ := hruns b₀ c
    have h := H.handedFor_last hs [.success (List.ofFn b₀)] hcs (by rw [hlength, hcs]; rfl)
    have hbuffer : bufferAfter b [.success (List.ofFn b₀)] = b₀ := fill_ofFn
    rw [hbuffer] at h
    exact ⟨s, hs, h⟩
  cases c with
  | failure =>
    refine ⟨fun h => ?_, fun h => h.elim⟩
    obtain ⟨s, hs, hhanded⟩ := hlast b .failure
    exact h.error rfl s _ hs hhanded
  | success payload =>
    rw [Completion.Covers, ← record_fill_iff hr hm]
    constructor
    · intro h b₁ b₂
      obtain ⟨s₁, hs₁, h₁⟩ := hlast b₁ (.success payload)
      obtain ⟨s₂, hs₂, h₂⟩ := hlast b₂ (.success payload)
      exact h.same payload rfl s₁ s₂ _ _ hs₁ hs₂ h₁ h₂
    · intro h
      refine ⟨nofun, fun _ _ s s' r r' hs hs' hhanded hhanded' => ?_⟩
      obtain ⟨cs, rfl⟩ := H.eq_of_handedFor hs hhanded
      obtain ⟨cs', rfl⟩ := H.eq_of_handedFor hs' hhanded'
      exact h _ _

end Handover

end Pool

end TestBuffer
