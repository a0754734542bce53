import TestBuffer.ReaderWriterQueue.History
/-!
# Going round the blocks

`size_approx` and the destructor go round the circle once from the front
block. `size_approx` adds up what the blocks have by their indices, which
is as many elements as were accepted and not given out, give or take the
calls under way (`sizeApprox_eq`). The destructor destroys what the blocks
have: with no call under way exactly the elements accepted and not given
out, in order, after which no slot of any block has an element, and it
frees every block once (`destruct_eq`).
-/

namespace TestBuffer

namespace ReaderWriterQueue

open Circular

variable {T : Type*}

/-! ## `size_approx` -/

/-- Subtraction on 64 bits. -/
def sub64 (a b : ℕ) : ℕ := (a + (2 ^ 64 - b)) % 2 ^ 64

/-- What `size_approx` adds for a block. -/
def Block.count (b : Block T) : ℕ := sub64 b.tail b.front &&& b.sizeMask

/-- `size_approx`, with nothing in between. The loop goes round no more
blocks than there are. -/
def Members.sizeApprox (m : Members T) : Option ℕ :=
  doWhile (fun b => (m.heap b).next) (fun result b => some (result + (m.heap b).count))
    m.frontBlock m.blocks m.frontBlock 0

/-! ## The destructor -/

/-- What the destructor has left standing, and what it has done. -/
structure Ruin (T : Type*) where
  heap : ℕ → Block T
  destroyed : List T
  freed : List ℕ

namespace Ruin

/-- `element->~T()`, where there is one. -/
def destroy (r : Ruin T) (block i : ℕ) : Option (Ruin T) :=
  let b := r.heap block
  (b.data i).map fun element =>
    { r with
      heap := Function.update r.heap block { b with data := Function.update b.data i none }
      destroyed := r.destroyed ++ [element] }

/-- The loop over the elements of a block, with fuel. -/
def destroyFrom (block blockTail : ℕ) : ℕ → ℕ → Ruin T → Option (Ruin T)
  | 0, _, _ => none
  | fuel + 1, i, r =>
    if i = blockTail then some r
    else (r.destroy block i).bind
      (destroyFrom block blockTail fuel ((i + 1) &&& (r.heap block).sizeMask))

/-- The body of the loop over the blocks: a block that was freed is not to
be looked at. -/
def destroyBlock (r : Ruin T) (block : ℕ) : Option (Ruin T) :=
  if block ∈ r.freed then none
  else
    let b := r.heap block
    (destroyFrom block b.tail (b.sizeMask + 1) b.front r).map fun r =>
      { r with freed := r.freed ++ [block] }

end Ruin

/-- `~ReaderWriterQueue`. What it destroys are no links, so the link of a
block may be read before or after. -/
def Members.destruct (m : Members T) : Option (Ruin T) :=
  doWhile (fun b => (m.heap b).next) Ruin.destroyBlock m.frontBlock m.blocks m.frontBlock
    ⟨m.heap, [], []⟩

/-! ## What a block has -/

/-- The indices of a block say how many elements it has. -/
theorem Block.Holds.count_eq {b : Block T} {vs : List T} {moved : Bool} {extra : Option T}
    (h : b.Holds vs moved extra) (hsize : b.size < 2 ^ 64) : b.count = vs.length := by
  obtain ⟨k, hk⟩ := h.pow
  rw [hk, Nat.pow_lt_pow_iff_right (by decide)] at hsize
  rw [h.length]
  exact sub_and_eq_gap hk hsize.le (Nat.le_of_lt_succ h.front_lt) (Nat.le_of_lt_succ h.tail_lt)

/-- A block that holds nothing has nothing in its slots. -/
theorem Block.Holds.data_eq_none {b : Block T} {moved : Bool} (h : b.Holds [] moved none) :
    ∀ j < b.size, b.data j = none := by
  intro j hj
  have hslot := h.slot (gap b.size b.front j) (gap_lt h.front_lt hj)
  rw [shift_gap h.front_lt hj] at hslot
  rw [hslot]
  split <;> rfl

variable {r : Ruin T} {b i : ℕ} {vs : List T}

/-- **The loop over a block destroys what it holds.** -/
theorem Ruin.destroyFrom_eq {fuel : ℕ} (hf : vs.length < fuel)
    (h : ({ r.heap b with front := i, localTail := (r.heap b).tail } : Block T).Holds vs false
      none) :
    ∃ r', Ruin.destroyFrom b (r.heap b).tail fuel i r = some r' ∧
      r'.destroyed = r.destroyed ++ vs ∧ r'.freed = r.freed ∧
      (∀ c, c ≠ b → r'.heap c = r.heap c) ∧
      ∀ j < (r.heap b).size, (r'.heap b).data j = none := by
  induction vs generalizing fuel i r with
  | nil =>
    obtain ⟨fuel, rfl⟩ := Nat.exists_eq_succ_of_ne_zero hf.ne'
    have he : i = (r.heap b).tail := h.eq_nil_iff.mp rfl
    exact ⟨r, if_pos he, (List.append_nil _).symm, rfl, fun _ _ => rfl, h.data_eq_none⟩
  | cons v vs ih =>
    obtain ⟨fuel, rfl⟩ := Nat.exists_eq_succ_of_ne_zero (Nat.ne_of_gt (Nat.zero_lt_of_lt hf))
    have hne : i ≠ (r.heap b).tail := fun he => by simpa using h.eq_nil_iff.mpr he
    have hv : (r.heap b).data i = some v := h.front_eq
    let b' : Block T := { r.heap b with data := Function.update (r.heap b).data i none }
    let r' : Ruin T :=
      { r with heap := Function.update r.heap b b', destroyed := r.destroyed ++ [v] }
    have hb' : r'.heap b = b' := Function.update_self ..
    have hdestroy : r.destroy b i = some r' := by
      unfold Ruin.destroy
      dsimp only
      rw [hv]
      rfl
    have hholds := h.take.pop hne
    obtain ⟨s, hs, hd, hfr, ho, hn⟩ := ih (r := r')
      (i := (i + 1) &&& (r.heap b).sizeMask) (Nat.lt_of_succ_lt_succ hf) (by rw [hb']; exact hholds)
    rw [hb'] at hs hn
    refine ⟨s, ?_, ?_, hfr, fun c hc => ?_, hn⟩
    · rw [Ruin.destroyFrom, if_neg hne, hdestroy]
      exact hs
    · rw [hd, List.append_assoc]
      rfl
    · rw [ho c hc]
      exact Function.update_of_ne hc _ _

/-- The body of the loop over the blocks. -/
theorem Ruin.destroyBlock_eq (hb : b ∉ r.freed) (h : (r.heap b).Holds vs false none) :
    ∃ r', r.destroyBlock b = some r' ∧
      r'.destroyed = r.destroyed ++ vs ∧ r'.freed = r.freed ++ [b] ∧
      (∀ c, c ≠ b → r'.heap c = r.heap c) ∧
      ∀ j < (r.heap b).size, (r'.heap b).data j = none := by
  obtain ⟨r', hr, hd, hfr, ho, hn⟩ := Ruin.destroyFrom_eq (r := r) (b := b)
    (i := (r.heap b).front) h.length_lt
    { h with localTail_lt := h.tail_lt, localTail := h.length.symm.le }
  refine ⟨{ r' with freed := r'.freed ++ [b] }, ?_, hd, ?_, ho, hn⟩
  · have hr : Ruin.destroyFrom b (r.heap b).tail ((r.heap b).sizeMask + 1) (r.heap b).front r =
        some r' := hr
    unfold Ruin.destroyBlock
    dsimp only
    rw [if_neg hb, hr]
    rfl
  · rw [hfr]

/-- **The loop over the blocks destroys what they hold**, block by block,
and frees each. -/
theorem Ruin.foldlM_destroyBlock {l : List ℕ} {vals : ℕ → List T} (hnd : l.Nodup)
    (hl : ∀ b ∈ l, b ∉ r.freed ∧ (r.heap b).Holds (vals b) false none) :
    ∃ r', l.foldlM Ruin.destroyBlock r = some r' ∧
      r'.destroyed = r.destroyed ++ l.flatMap vals ∧ r'.freed = r.freed ++ l ∧
      (∀ c, c ∉ l → r'.heap c = r.heap c) ∧
      ∀ b ∈ l, ∀ j < (r.heap b).size, (r'.heap b).data j = none := by
  induction l generalizing r with
  | nil =>
    exact ⟨r, rfl, (List.append_nil _).symm, (List.append_nil _).symm, fun _ _ => rfl, nofun⟩
  | cons b l ih =>
    obtain ⟨hbl, hnd⟩ := List.nodup_cons.mp hnd
    obtain ⟨hb, hh⟩ := hl b List.mem_cons_self
    obtain ⟨m, hm, hmd, hmf, hmo, hmn⟩ := Ruin.destroyBlock_eq hb hh
    have hrest : ∀ c ∈ l, c ∉ m.freed ∧ (m.heap c).Holds (vals c) false none := by
      intro c hc
      have hcb : c ≠ b := fun he => hbl (he ▸ hc)
      obtain ⟨hcf, hch⟩ := hl c (List.mem_cons_of_mem _ hc)
      rw [hmo c hcb, hmf, List.mem_append, List.mem_singleton]
      exact ⟨not_or.mpr ⟨hcf, hcb⟩, hch⟩
    obtain ⟨r', hr, hd, hfr, ho, hn⟩ := ih hnd hrest
    refine ⟨r', ?_, ?_, ?_, fun c hc => ?_, fun c hc j hj => ?_⟩
    · rw [List.foldlM_cons, hm]
      exact hr
    · rw [hd, hmd, List.append_assoc]
      rfl
    · rw [hfr, hmf, List.append_assoc]
      rfl
    · rw [List.mem_cons, not_or] at hc
      rw [ho c hc.2, hmo c hc.1]
    · rcases List.mem_cons.mp hc with rfl | hc
      · rw [ho c hbl]
        exact hmn j hj
      · refine hn c hc j ?_
        rwa [hmo c fun he => hbl (he ▸ hc)]

/-! ## Round the circle -/

variable {maxBlockSize capacity : ℕ} {m : Members T} {l : Producer T} {c : Consumer T}
variable {t : Spec.State T} {used free : List ℕ} {vals : ℕ → List T}

/-- What the producer has filled that is not in the queue yet. -/
def Producer.filled : Producer T → ℕ
  | .moveTail .. => 1
  | _ => 0

/-- The free blocks hold nothing but that. -/
theorem Related.sum_free (h : Related maxBlockSize capacity m l c t used free vals) :
    (free.map fun b => (vals b).length).sum = l.filled := by
  have hnil := h.layout.free_eq_nil
  have hzero : ∀ f : List ℕ, (∀ b ∈ f, vals b = []) → (f.map fun b => (vals b).length).sum = 0 := by
    intro f hf
    refine List.sum_eq_zero fun n hn => ?_
    obtain ⟨b, hb, rfl⟩ := List.mem_map.mp hn
    rw [hf b hb]
    rfl
  cases l with
  | moveTail x nb =>
    obtain ⟨-, -, hhead, hv⟩ := h.producer
    obtain ⟨f, rfl⟩ := List.head?_eq_some_iff.mp hhead
    have hnd := (List.nodup_append.mp h.layout.nodup).2.1
    rw [List.map_cons, List.sum_cons, hv, hzero f fun b hb => ?_]
    · rfl
    · refine hnil b (List.mem_cons_of_mem _ hb) ?_
      rintro ⟨⟩
      exact (List.nodup_cons.mp hnd).1 hb
  | idle | start | readFront | write | publish | full | advance | readTail | writeNext
  | publishNext | alloc | link | answer => exact hzero free fun b hb => hnil b hb nofun

/-- **A loop round the circle visits every block once**, from the front
block on. -/
theorem Related.doWhile {β : Type*} {body : β → ℕ → Option β}
    (h : Related maxBlockSize capacity m l c t used free vals) (s : β) :
    TestBuffer.doWhile (fun b => (m.heap b).next) body m.frontBlock m.blocks m.frontBlock s =
      (used ++ free).foldlM body s := by
  obtain ⟨rest, rfl⟩ := h.layout.exists_used_eq
  refine doWhile_eq h.layout.linked h.layout.nodup ?_
  show (rest ++ free).length < m.blocks
  have := h.sized.blocks
  rw [List.cons_append, List.length_cons] at this
  omega

theorem foldlM_add (f : ℕ → ℕ) (bs : List ℕ) (n : ℕ) :
    bs.foldlM (fun result b => some (result + f b)) n = some (n + (bs.map f).sum) := by
  induction bs generalizing n with
  | nil => rfl
  | cons b bs ih =>
    rw [List.foldlM_cons, List.map_cons, List.sum_cons, ← Nat.add_assoc]
    exact ih _

/-- What the blocks have by their indices. -/
theorem Related.map_count (h : Related maxBlockSize capacity m l c t used free vals)
    (hmax : maxBlockSize * 2 < 2 ^ 64) :
    (used ++ free).map (fun b => (m.heap b).count) =
      (used ++ free).map fun b => (vals b).length := by
  refine List.map_congr_left fun b hb => (h.layout.holds b hb).count_eq ?_
  exact ((h.sized.size_le b hb).trans h.sized.largest_le).trans_lt hmax

/-- **`size_approx` counts the elements.** -/
theorem Related.sizeApprox (h : Related maxBlockSize capacity m l c t used free vals)
    (hmax : maxBlockSize * 2 < 2 ^ 64) :
    m.sizeApprox = some (t.contents.length + l.filled) := by
  refine (h.doWhile 0).trans ?_
  rw [foldlM_add, h.map_count hmax, List.map_append, List.sum_append, h.sum_free, h.contents,
    List.length_flatMap, Nat.zero_add]

/-- **The destructor destroys the elements**, in order, and frees the
blocks. -/
theorem Related.destruct (h : Related maxBlockSize capacity m .idle c t used free vals)
    (hm : c.moved = false) :
    ∃ r, m.destruct = some r ∧ r.destroyed = t.contents ∧ r.freed.Perm (List.range m.blocks) ∧
      ∀ b < m.blocks, ∀ j < (m.heap b).size, (r.heap b).data j = none := by
  have hl := h.layout
  rw [hm] at hl
  obtain ⟨r, hr, hd, hf, -, hn⟩ := Ruin.foldlM_destroyBlock (r := ⟨m.heap, [], []⟩) hl.nodup
    fun b hb => ⟨List.not_mem_nil, hl.holds b hb⟩
  have hperm : (used ++ free).Perm (List.range m.blocks) := by
    refine (List.subperm_of_subset hl.nodup fun b hb => ?_).perm_of_length_le ?_
    · exact List.mem_range.mpr (hl.lt_blocks b hb)
    · rw [List.length_range]
      exact h.sized.blocks.le
  refine ⟨r, (h.doWhile _).trans hr, ?_, ?_, fun b hb => hn b ?_⟩
  · have hfree : free.flatMap vals = [] :=
      List.flatMap_eq_nil_iff.mpr fun b hb => hl.free_eq_nil b hb nofun
    rw [hd, List.flatMap_append, hfree, List.append_nil, h.contents]
    rfl
  · rw [hf]
    exact hperm
  · exact hperm.mem_iff.mpr (List.mem_range.mpr hb)

/-! ## By the ledger -/

variable [DecidableEq T] {z : Sizes} {maxSize : ℕ} {L : Ledger T} {inserted all : List T} {taking n : ℕ}

omit [DecidableEq T] in
theorem ConsumerFits.taking_le {q d : Spec.Consumer T} (h : ConsumerFits all n taking q d) :
    taking ≤ 1 := by
  cases d with
  | idle => exact h.2.le.trans (Nat.zero_le _)
  | pending op w => exact h.2.le.trans (Nat.zero_le _)
  | answered r =>
    obtain ⟨op, w, -, ⟨-, -, rfl⟩ | ⟨x, -, -, rfl⟩⟩ := h
    · exact Nat.zero_le _
    · split <;> decide

omit [DecidableEq T] in
/-- At most one element is between the queue and the ledger at the
producer's end. -/
theorem ProducerFits.length_add_filled_le
    (h : ProducerFits capacity L inserted t.producer)
    (hp : ProducerOk capacity m used free vals t.producer l) :
    inserted.length + l.filled ≤ 1 := by
  have hlen : inserted.length ≤ 1 := by
    revert h
    cases t.producer with
    | idle | pending | granted =>
      rintro ⟨-, rfl⟩
      exact Nat.zero_le _
    | answered ok =>
      cases ok with
      | false =>
        rintro ⟨-, rfl⟩
        exact Nat.zero_le _
      | true =>
        rintro ⟨x, -, rfl⟩
        exact le_rfl
  cases l with
  | moveTail x nb =>
    obtain ⟨⟨mode, held, hq⟩ | hq, -⟩ := hp
    all_goals
      rw [hq] at h
      obtain ⟨-, rfl⟩ := h
      exact le_rfl
  | idle | start | readFront | write | publish | full | advance | readTail | writeNext
  | publishNext | alloc | link | answer => exact hlen

/-- **`size_approx` is the number of elements accepted and not given out**,
with no call under way; a call of the producer may count its element
already, and one of the consumer no longer. -/
theorem sizeApprox_eq (h : Config z maxBlockSize maxSize) {as : List (Act (Event T) Side)}
    {s : State T} (hrun : (queue T maxBlockSize maxSize).run (construct maxBlockSize maxSize) as =
      some s) :
    ∃ L n, (Act.history as).foldlM (Ledger.next maxSize) Ledger.init = some L ∧
      s.sizeApprox = some n ∧
      n + L.removed ≤ L.accepted.length + 1 ∧ L.accepted.length ≤ n + L.removed + 1 ∧
      (s.producer = .idle → n + L.removed ≤ L.accepted.length) ∧
      ∀ held, s.consumer = .idle held → L.accepted.length ≤ n + L.removed := by
  obtain ⟨L, t, inserted, taking, hL, ⟨used, free, vals, hR⟩, hK⟩ := exists_ledger h hrun
  have hlen := congrArg List.length hK.contents
  have hle := hK.le
  rw [List.length_drop] at hlen
  rw [List.length_append] at hlen hle
  have hone := hK.producer.length_add_filled_le hR.producer
  have htaking := hK.consumer.taking_le
  refine ⟨L, _, hL, hR.sizeApprox h.mul_lt, by omega, by omega, fun hp => ?_, fun held hc => ?_⟩
  · have hok := hR.producer
    rw [hp] at hok
    have hok : t.producer = .idle := hok
    have hfit := hK.producer
    rw [hok] at hfit
    have hzero := congrArg List.length hfit.2
    rw [hp] at hone ⊢
    have : (Producer.idle : Producer T).filled = 0 := rfl
    rw [List.length_nil] at hzero
    omega
  · have hok := hR.consumer
    rw [hc] at hok
    have hfit := hK.consumer
    rw [hok.1] at hfit
    have := hfit.2
    omega

/-- The element looked at is one. -/
theorem sizeApprox_eq_passOne : ∃ s,
    (queue ℕ 512 15).run (construct 512 15) (passOne.take 9) = some s ∧
    s.sizeApprox = some 1 := by
  obtain ⟨s, hrun⟩ : ∃ s, (queue ℕ 512 15).run (construct 512 15) (passOne.take 9) = some s :=
    ⟨_, rfl⟩
  obtain ⟨L, n, hL, hn, -, -, hp, hc⟩ := sizeApprox_eq config_default hrun
  cases hrun
  cases hL
  have hle := hp rfl
  have hge := hc _ rfl
  obtain rfl : n = 1 := le_antisymm hle hge
  exact ⟨_, rfl, hn⟩

/-- **The destructor destroys the elements accepted and not given out**, in
order, leaves no other in any slot, and frees every block once. -/
theorem destruct_eq (h : Config z maxBlockSize maxSize) {as : List (Act (Event T) Side)}
    {s : State T} (hrun : (queue T maxBlockSize maxSize).run (construct maxBlockSize maxSize) as =
      some s) (hp : s.producer = .idle) {held : Option (ℕ × ℕ)} (hc : s.consumer = .idle held) :
    ∃ L r, (Act.history as).foldlM (Ledger.next maxSize) Ledger.init = some L ∧
      s.destruct = some r ∧ r.destroyed = L.accepted.drop L.removed ∧
      r.freed.Perm (List.range s.blocks) ∧
      ∀ b < s.blocks, ∀ i < (s.heap b).size, (r.heap b).data i = none := by
  obtain ⟨L, t, inserted, taking, hL, ⟨used, free, vals, hR⟩, hK⟩ := exists_ledger h hrun
  have hpt := hR.producer
  have hct := hR.consumer
  have hpf := hK.producer
  have hcf := hK.consumer
  rw [hp] at hR hpt
  rw [hc] at hR hct
  rw [show t.producer = .idle from hpt] at hpf
  rw [hct.1] at hcf
  obtain ⟨-, rfl⟩ := hpf
  obtain ⟨-, rfl⟩ := hcf
  obtain ⟨r, hr, hd, hf, hn⟩ := hR.destruct rfl
  refine ⟨L, r, hL, hr, ?_, hf, hn⟩
  rw [hd, hK.contents, List.append_nil, Nat.add_zero]

theorem destruct_eq_passOne : ∃ s r,
    (queue ℕ 512 15).run (construct 512 15) (passOne.take 9) = some s ∧
    s.destruct = some r ∧ r.destroyed = [7] := by
  have hrun : (queue ℕ 512 15).run (construct 512 15) (passOne.take 9) = some _ := rfl
  obtain ⟨L, r, hL, hr, hd, -⟩ := destruct_eq config_default hrun rfl rfl
  cases hL
  exact ⟨_, r, hrun, hr, hd⟩

end ReaderWriterQueue

end TestBuffer
