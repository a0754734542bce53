import TestBuffer.Common.Circular
import TestBuffer.ReaderWriterQueue.Model
/-!
# What a block holds

`Block.Holds b vs moved extra`: the slots of the block from `front` up to
`tail` hold `vs`, the first of them destroyed already where `moved`, one
more constructed at `tail` where there is `extra`, and every other slot is
empty. The two copies are within what has been held: `localFront` is so
little behind `front` that the slots from there to `tail` are not all of
them, `localTail` is not past `tail`. Each access of either thread to a
block has its lemma here, and no later module looks into a block.
-/

namespace TestBuffer

namespace ReaderWriterQueue

open Circular

variable {T : Type*}

/-- The number of slots. -/
def Block.size (b : Block T) : ℕ := b.sizeMask + 1

/-- **What a block holds.** -/
structure Block.Holds (b : Block T) (vs : List T) (moved : Bool) (extra : Option T) : Prop where
  pow : ∃ k, b.size = 2 ^ (k + 1)
  front_lt : b.front < b.size
  localTail_lt : b.localTail < b.size
  tail_lt : b.tail < b.size
  localFront_lt : b.localFront < b.size
  length : vs.length = gap b.size b.front b.tail
  localFront : gap b.size b.localFront b.front + vs.length < b.size
  localTail : gap b.size b.front b.localTail ≤ vs.length
  slot : ∀ i < b.size, b.data (shift b.size b.front i) =
    if moved = true ∧ i = 0 then none else (vs ++ extra.toList)[i]?

namespace Block.Holds

variable {b : Block T} {vs : List T} {moved : Bool} {extra : Option T} {x v : T}

theorem length_lt (h : b.Holds vs moved extra) : vs.length < b.size :=
  lt_of_le_of_lt (Nat.le_add_left _ _) h.localFront

theorem eq_nil_iff (h : b.Holds vs moved extra) : vs = [] ↔ b.front = b.tail := by
  rw [← List.length_eq_zero_iff, h.length, gap_eq_zero_iff h.front_lt]

/-- The slot after `tail`, as the code computes it. -/
theorem succ_and (h : b.Holds vs moved extra) {a : ℕ} (ha : a < b.size) :
    (a + 1) &&& b.sizeMask = shift b.size a 1 := by
  obtain ⟨k, hk⟩ := h.pow
  exact succ_and_eq_shift hk (Nat.lt_succ_iff.mp ha)

theorem succ_tail (h : b.Holds vs moved extra) :
    (b.tail + 1) &&& b.sizeMask = shift b.size b.tail 1 :=
  h.succ_and h.tail_lt

/-- The next tail at the copy of `front`: the slots from there on are as
many as may be used. -/
theorem localFront_eq_iff (h : b.Holds vs moved extra) :
    (b.tail + 1) &&& b.sizeMask = b.localFront ↔
      gap b.size b.localFront b.front + vs.length + 1 = b.size := by
  rw [h.succ_tail, shift_one_eq_iff h.localFront_lt h.tail_lt, h.length]
  have hf := h.front_lt
  have hl := h.localFront_lt
  have ht := h.tail_lt
  have hlt := h.localFront
  rw [h.length] at hlt
  revert hlt
  unfold gap
  split <;> split <;> split <;> omega

/-- The next tail at `front`: the block is full. -/
theorem full_iff (h : b.Holds vs moved extra) :
    (b.tail + 1) &&& b.sizeMask = b.front ↔ vs.length = b.sizeMask := by
  rw [h.succ_tail, shift_one_eq_iff h.front_lt h.tail_lt, h.length]
  exact Nat.succ_inj

/-- An empty block has room, once `front` was looked at. -/
theorem room_of_nil (h : b.Holds vs moved extra) (hv : vs = [])
    (hl : b.localFront = b.front) : (b.tail + 1) &&& b.sizeMask ≠ b.localFront := by
  rw [Ne, h.localFront_eq_iff, hl, gap_self, hv]
  obtain ⟨k, hk⟩ := h.pow
  have := Nat.two_pow_pos k
  rw [hk, pow_succ]
  simp only [List.length_nil]
  omega

/-! ## The producer -/

/-- The producer looks at `front`. -/
theorem readFront (h : b.Holds vs moved extra) :
    ({ b with localFront := b.front } : Block T).Holds vs moved extra where
  pow := h.pow
  front_lt := h.front_lt
  localTail_lt := h.localTail_lt
  tail_lt := h.tail_lt
  localFront_lt := h.front_lt
  length := h.length
  localFront := by
    show gap b.size b.front b.front + vs.length < b.size
    rw [gap_self, Nat.zero_add]
    exact h.length_lt
  localTail := h.localTail
  slot := h.slot

/-- **The producer constructs an element at `tail`**, where nothing was. -/
theorem write (h : b.Holds vs moved none) (hm : moved = true → vs ≠ []) :
    b.data b.tail = none ∧
      ({ b with data := Function.update b.data b.tail (some x) } : Block T).Holds vs moved
        (some x) := by
  have htail : shift b.size b.front vs.length = b.tail := by
    rw [h.length, shift_gap h.front_lt h.tail_lt]
  have hnot : ¬(moved = true ∧ vs.length = 0) := by
    rintro ⟨hmoved, hlen⟩
    exact hm hmoved (List.length_eq_zero_iff.mp hlen)
  constructor
  · rw [← htail, h.slot _ h.length_lt, if_neg hnot, Option.toList_none, List.append_nil]
    exact List.getElem?_eq_none le_rfl
  · refine ⟨h.pow, h.front_lt, h.localTail_lt, h.tail_lt, h.localFront_lt, h.length,
      h.localFront, h.localTail, fun i hi => ?_⟩
    show Function.update b.data b.tail (some x) (shift b.size b.front i) = _
    rw [← htail, update_shift _ _ h.front_lt hi h.length_lt, h.slot i hi, Option.toList_none,
      Option.toList_some, List.append_nil]
    by_cases he : i = vs.length
    · subst he
      rw [if_pos rfl, if_neg hnot, List.getElem?_append_right le_rfl, Nat.sub_self]
      rfl
    · rw [if_neg he]
      rcases Nat.lt_or_gt_of_ne he with hlt | hgt
      · rw [List.getElem?_append_left hlt]
      · rw [List.getElem?_eq_none hgt.le, List.getElem?_eq_none]
        rw [List.length_append]
        exact hgt

/-- **The producer moves `tail` on**: the element is held. -/
theorem publish (h : b.Holds vs moved (some x))
    (hroom : (b.tail + 1) &&& b.sizeMask ≠ b.localFront) :
    ({ b with tail := (b.tail + 1) &&& b.sizeMask } : Block T).Holds (vs ++ [x]) moved none := by
  have hlt := h.localFront
  have hne : gap b.size b.localFront b.front + vs.length + 1 ≠ b.size :=
    fun he => hroom (h.localFront_eq_iff.mpr he)
  have hf : shift b.size b.tail 1 ≠ b.front := by
    rw [Ne, shift_one_eq_iff h.front_lt h.tail_lt, ← h.length]
    omega
  refine ⟨h.pow, h.front_lt, h.localTail_lt, ?_, h.localFront_lt, ?_, ?_, ?_, ?_⟩
  · show (b.tail + 1) &&& b.sizeMask < b.size
    rw [h.succ_tail]
    exact shift_lt h.tail_lt (Nat.succ_le_of_lt (Nat.zero_lt_of_lt h.tail_lt))
  · show _ = gap b.size b.front ((b.tail + 1) &&& b.sizeMask)
    rw [h.succ_tail, gap_shift_one h.front_lt h.tail_lt hf, ← h.length, List.length_append]
    rfl
  · show gap b.size b.localFront b.front + (vs ++ [x]).length < b.size
    rw [List.length_append, List.length_singleton]
    omega
  · show gap b.size b.front b.localTail ≤ (vs ++ [x]).length
    rw [List.length_append]
    exact h.localTail.trans (Nat.le_add_right _ _)
  · intro i hi
    rw [Option.toList_none, List.append_nil]
    exact h.slot i hi

/-! ## The consumer -/

/-- The consumer looks at `tail`. -/
theorem readTail (h : b.Holds vs moved extra) :
    ({ b with localTail := b.tail } : Block T).Holds vs moved extra where
  pow := h.pow
  front_lt := h.front_lt
  localTail_lt := h.tail_lt
  tail_lt := h.tail_lt
  localFront_lt := h.localFront_lt
  length := h.length
  localFront := h.localFront
  localTail := h.length.symm.le
  slot := h.slot

/-- A copy of `tail` other than `front` says there is an element. -/
theorem ne_nil (h : b.Holds vs moved extra) (hne : b.front ≠ b.localTail) : vs ≠ [] := by
  rintro rfl
  have h0 := Nat.le_zero.mp h.localTail
  exact hne ((gap_eq_zero_iff h.front_lt).mp h0)

/-- The slot at `front` holds the oldest element. -/
theorem front_eq (h : b.Holds (v :: vs) false extra) : b.data b.front = some v := by
  have := h.slot 0 (Nat.zero_lt_of_lt h.front_lt)
  rw [shift_zero h.front_lt, if_neg (by simp)] at this
  exact this

/-- **The consumer moves the oldest element out and destroys it.** -/
theorem take (h : b.Holds (v :: vs) false extra) :
    ({ b with data := Function.update b.data b.front none } : Block T).Holds (v :: vs) true
      extra := by
  refine ⟨h.pow, h.front_lt, h.localTail_lt, h.tail_lt, h.localFront_lt, h.length,
    h.localFront, h.localTail, fun i hi => ?_⟩
  have hpos := Nat.zero_lt_of_lt h.front_lt
  show Function.update b.data b.front none (shift b.size b.front i) = _
  have hu := update_shift b.data none h.front_lt hi hpos
  rw [shift_zero h.front_lt] at hu
  rw [hu, h.slot i hi]
  by_cases h0 : i = 0
  · rw [if_pos h0, if_pos ⟨rfl, h0⟩]
  · rw [if_neg h0, if_neg (fun hc => h0 hc.2), if_neg (fun hc => h0 hc.2)]

/-- **The consumer moves `front` on**: the slot is free. -/
theorem pop (h : b.Holds (v :: vs) true extra) (hne : b.front ≠ b.localTail) :
    ({ b with front := (b.front + 1) &&& b.sizeMask } : Block T).Holds vs false extra := by
  have hlen : vs.length + 1 = gap b.size b.front b.tail := h.length
  have hlt : gap b.size b.localFront b.front + (vs.length + 1) < b.size := h.localFront
  have hpos := Nat.zero_lt_of_lt h.front_lt
  have hsucc := h.succ_and h.front_lt
  have hnext : shift b.size b.front 1 < b.size :=
    shift_lt h.front_lt (Nat.succ_le_of_lt hpos)
  refine ⟨h.pow, ?_, h.localTail_lt, h.tail_lt, h.localFront_lt, ?_, ?_, ?_, ?_⟩
  · show (b.front + 1) &&& b.sizeMask < b.size
    rwa [hsucc]
  · show vs.length = gap b.size ((b.front + 1) &&& b.sizeMask) b.tail
    have hft : b.front ≠ b.tail := by
      rw [Ne, ← gap_eq_zero_iff h.front_lt, ← hlen]
      exact Nat.succ_ne_zero _
    have := gap_shift_one_left h.front_lt h.tail_lt hft
    rw [hsucc]
    omega
  · show gap b.size b.localFront ((b.front + 1) &&& b.sizeMask) + vs.length < b.size
    have hlf : shift b.size b.front 1 ≠ b.localFront := by
      rw [Ne, shift_one_eq_iff h.localFront_lt h.front_lt]
      omega
    rw [hsucc, gap_shift_one h.localFront_lt h.front_lt hlf]
    omega
  · show gap b.size ((b.front + 1) &&& b.sizeMask) b.localTail ≤ vs.length
    have := gap_shift_one_left h.front_lt h.localTail_lt hne
    have hlt' : gap b.size b.front b.localTail ≤ vs.length + 1 := h.localTail
    rw [hsucc]
    omega
  · intro i hi
    show b.data (shift b.size ((b.front + 1) &&& b.sizeMask) i) = _
    rw [hsucc, if_neg (fun hc => Bool.false_ne_true hc.1)]
    rcases Nat.lt_or_ge (i + 1) b.size with hi' | hi'
    · rw [shift_shift_one h.front_lt hi', h.slot _ hi', if_neg (fun hc => Nat.succ_ne_zero _ hc.2),
        List.cons_append, List.getElem?_cons_succ]
    · -- the last slot of the new round is the one just given up
      rw [shift_shift_one_last h.front_lt (le_antisymm hi hi')]
      have h0 := h.slot 0 hpos
      rw [shift_zero h.front_lt, if_pos ⟨rfl, rfl⟩] at h0
      rw [h0, List.getElem?_eq_none]
      have hextra : extra.toList.length ≤ 1 := by cases extra <;> simp
      rw [List.length_append]
      omega

end Block.Holds

/-! ## New blocks -/

/-- The mask of a block is one less than its size. -/
theorem makeBlock_sizeMask {c : ℕ} (hpos : 0 < c) (hle : c ≤ 2 ^ 64) :
    (makeBlock c : Block T).sizeMask = c - 1 := by
  show (c + (2 ^ 64 - 1)) % 2 ^ 64 = c - 1
  omega

/-- A new block has the size asked for. -/
theorem newBlock_size {c : ℕ} (hpos : 0 < c) (hle : c ≤ 2 ^ 64) (x : T) (next : Option ℕ) :
    (newBlock c x next).size = c := by
  show (makeBlock c : Block T).sizeMask + 1 = c
  rw [makeBlock_sizeMask hpos hle]
  omega

/-- A block newly made holds nothing. -/
theorem holds_makeBlock {c k : ℕ} (hc : c = 2 ^ (k + 1)) (hle : c ≤ 2 ^ 64)
    (next : Option ℕ) :
    ({ (makeBlock c : Block T) with next := next } : Block T).Holds [] false none := by
  have hpos : 0 < c := hc ▸ Nat.two_pow_pos _
  have hsize : ({ (makeBlock c : Block T) with next := next } : Block T).size = c := by
    show (makeBlock c : Block T).sizeMask + 1 = c
    rw [makeBlock_sizeMask hpos hle]
    omega
  rw [← hsize] at hpos
  exact ⟨⟨k, hsize.trans hc⟩, hpos, hpos, hpos, hpos, gap_self.symm, hpos, gap_self.le,
    fun _ _ => rfl⟩

/-- The block that `inner_enqueue` makes holds the element. -/
theorem holds_newBlock {c k : ℕ} (hc : c = 2 ^ (k + 1)) (hle : c ≤ 2 ^ 64) (x : T)
    (next : Option ℕ) :
    (newBlock c x next).Holds [x] false none := by
  have htwo : 1 < c := by
    have := Nat.two_pow_pos k
    rw [hc, pow_succ]
    omega
  have hsize := newBlock_size (by omega) hle x next
  rw [← hsize] at htwo
  have hpos := Nat.zero_lt_of_lt htwo
  refine ⟨⟨k, hsize.trans hc⟩, hpos, htwo, htwo, hpos, rfl, htwo, le_rfl, fun i hi => ?_⟩
  show Function.update (fun _ => none) 0 (some x) (shift _ 0 i) = _
  have hu := update_shift (fun _ => (none : Option T)) (some x) hpos hi hpos
  rw [shift_zero hpos] at hu
  rw [hu]
  cases i <;> rfl

end ReaderWriterQueue

end TestBuffer
