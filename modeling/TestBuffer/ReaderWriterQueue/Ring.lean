import Mathlib.Algebra.BigOperators.Group.List.Lemmas
import Mathlib.Algebra.Order.BigOperators.Group.List
import TestBuffer.Common.Linked
import TestBuffer.ReaderWriterQueue.Block
/-!
# The circle of blocks

The blocks are linked in a circle, `used` from the front block to the tail
block and `free` from there back round. The elements of the queue are those
of the used blocks in order (`Layout`); every used block but the front one
holds some, and all but the front and the tail one are full, so the queue
can be without room only when it holds as much as the blocks other than
the front one (`Layout.le_length`). Each thing a thread does to memory
keeps the layout: a lemma for writing within a block and one for each
change of the circle.
-/

namespace TestBuffer

namespace ReaderWriterQueue

variable {T : Type*}

/-- A write to a block. -/
def Members.modify (m : Members T) (p : ℕ) (f : Block T → Block T) : Members T :=
  { m with heap := Function.update m.heap p (f (m.heap p)) }

variable {m : Members T} {p b : ℕ} {f : Block T → Block T}

@[simp] theorem Members.modify_heap_self : (m.modify p f).heap p = f (m.heap p) :=
  Function.update_self ..

theorem Members.modify_heap_of_ne (h : b ≠ p) : (m.modify p f).heap b = m.heap b :=
  Function.update_of_ne h ..

@[simp] theorem Members.modify_blocks : (m.modify p f).blocks = m.blocks := rfl

@[simp] theorem Members.modify_frontBlock : (m.modify p f).frontBlock = m.frontBlock := rfl

@[simp] theorem Members.modify_tailBlock : (m.modify p f).tailBlock = m.tailBlock := rfl

@[simp] theorem State.modify_toMembers (s : State T) :
    (s.modify p f).toMembers = s.toMembers.modify p f := rfl

/-! ## The layout -/

/-- **The blocks in a circle.** `vals` is what each holds, `moved` whether
the oldest element was destroyed already, `extra` what is constructed past
a tail, `ahead` the free block that is filled but not yet the tail
block. -/
structure Layout (m : Members T) (used free : List ℕ) (vals : ℕ → List T) (moved : Bool)
    (extra : ℕ → Option T) (ahead : Option ℕ) : Prop where
  head : used.head? = some m.frontBlock
  last : used.getLast? = some m.tailBlock
  nodup : (used ++ free).Nodup
  linked : Linked (fun b => (m.heap b).next) (used ++ free)
  lt_blocks : ∀ b ∈ used ++ free, b < m.blocks
  holds : ∀ b ∈ used ++ free,
    (m.heap b).Holds (vals b) (moved && b == m.frontBlock) (extra b)
  moved_ne_nil : moved = true → vals m.frontBlock ≠ []
  ne_nil : ∀ b ∈ used, b ≠ m.frontBlock → vals b ≠ []
  full : ∀ b ∈ used, b ≠ m.frontBlock → b ≠ m.tailBlock →
    (vals b).length = (m.heap b).sizeMask
  free_eq_nil : ∀ b ∈ free, some b ≠ ahead → vals b = []

namespace Layout

variable {used free rest : List ℕ} {vals : ℕ → List T} {moved : Bool}
variable {extra : ℕ → Option T} {ahead : Option ℕ} {nb : ℕ} {x : T}

theorem frontBlock_mem (h : Layout m used free vals moved extra ahead) :
    m.frontBlock ∈ used :=
  List.mem_of_mem_head? h.head

theorem tailBlock_mem (h : Layout m used free vals moved extra ahead) :
    m.tailBlock ∈ used :=
  List.mem_of_mem_getLast? h.last

theorem used_subset (_ : Layout m used free vals moved extra ahead) (hb : b ∈ used) :
    b ∈ used ++ free :=
  List.mem_append_left free hb

theorem not_mem_free (h : Layout m used free vals moved extra ahead) (hb : b ∈ used) :
    b ∉ free :=
  fun hf => List.disjoint_of_nodup_append h.nodup hb hf

theorem ne_of_mem_free (h : Layout m used free vals moved extra ahead) (hb : b ∈ free)
    (hp : p ∈ used) : b ≠ p := by
  rintro rfl
  exact h.not_mem_free hp hb

/-- The used blocks begin with the front block. -/
theorem exists_used_eq (h : Layout m used free vals moved extra ahead) :
    ∃ rest, used = m.frontBlock :: rest :=
  List.head?_eq_some_iff.mp h.head

/-- **The front block is the tail block only when it is the only one in
use.** -/
theorem used_eq_singleton (h : Layout m used free vals moved extra ahead)
    (he : m.tailBlock = m.frontBlock) : used = [m.frontBlock] := by
  obtain ⟨rest, hu⟩ := h.exists_used_eq
  rcases List.eq_nil_or_concat rest with rfl | ⟨rest', c, rfl⟩
  · exact hu
  · have hlast := h.last
    have hnd := h.nodup
    rw [List.concat_eq_append] at hu
    rw [hu, ← List.cons_append, List.getLast?_concat, Option.some.injEq] at hlast
    rw [hu, hlast, he, List.cons_append, List.nodup_cons] at hnd
    exact absurd (by simp) hnd.1

/-- The only block there is. -/
theorem eq_of_length_eq_one (h : Layout m used free vals moved extra ahead)
    (hlen : (used ++ free).length = 1) :
    used = [m.frontBlock] ∧ m.tailBlock = m.frontBlock := by
  obtain ⟨rest, rfl⟩ := h.exists_used_eq
  rw [List.length_append, List.length_cons] at hlen
  obtain rfl : rest = [] := List.length_eq_zero_iff.mp (by omega)
  have hlast := h.last
  rw [List.getLast?_singleton, Option.some.injEq] at hlast
  exact ⟨rfl, hlast.symm⟩

/-- Otherwise it has a block in use after it. -/
theorem exists_used_eq_cons_cons (h : Layout m used free vals moved extra ahead)
    (hne : m.tailBlock ≠ m.frontBlock) : ∃ nb rest, used = m.frontBlock :: nb :: rest := by
  obtain ⟨rest, rfl⟩ := h.exists_used_eq
  cases rest with
  | nil =>
    have hlast := h.last
    rw [List.getLast?_singleton, Option.some.injEq] at hlast
    exact absurd hlast.symm hne
  | cons nb rest => exact ⟨nb, rest, rfl⟩

/-- What the front block links to, with another in use. -/
theorem next_frontBlock (h : Layout m (m.frontBlock :: nb :: rest) free vals moved extra ahead) :
    (m.heap m.frontBlock).next = some nb :=
  h.linked.next_eq (u := [])

theorem tailBlock_ne (h : Layout m (m.frontBlock :: nb :: rest) free vals moved extra ahead) :
    m.tailBlock ≠ m.frontBlock := by
  intro he
  have := h.used_eq_singleton he
  simp at this

/-- **What the tail block links to**: the first free block, or round to the
front block. -/
theorem next_tailBlock (h : Layout m used free vals moved extra ahead) :
    (m.heap m.tailBlock).next = some (free.head?.getD m.frontBlock) := by
  obtain ⟨us, hus⟩ := List.getLast?_eq_some_iff.mp h.last
  have hl := h.linked
  cases free with
  | cons nb free =>
    rw [hus, List.append_assoc] at hl
    exact hl.next_eq
  | nil =>
    obtain ⟨rest, hu⟩ := h.exists_used_eq
    rw [List.append_nil] at hl
    cases us with
    | nil =>
      rw [List.nil_append] at hus
      rw [hus] at hl
      have hhead := h.head
      rw [hus, List.head?_cons, Option.some.injEq] at hhead
      rw [← hhead]
      exact hl.next_self
    | cons u us =>
      have hhead := h.head
      rw [hus, List.cons_append, List.head?_cons, Option.some.injEq] at hhead
      rw [hus, hhead] at hl
      exact hl.next_last

/-- Round to the front block exactly with none free. -/
theorem next_tailBlock_eq_iff (h : Layout m used free vals moved extra ahead) :
    (m.heap m.tailBlock).next = some m.frontBlock ↔ free = [] := by
  rw [h.next_tailBlock, Option.some.injEq]
  cases free with
  | nil => simp
  | cons nb free =>
    simp only [List.head?_cons, Option.getD_some, reduceCtorEq, iff_false]
    rintro rfl
    exact h.not_mem_free h.frontBlock_mem List.mem_cons_self

/-! ### The elements -/

theorem flatMap_update_of_not_mem {l : List ℕ} {vs : List T} (hp : p ∉ l) :
    l.flatMap (Function.update vals p vs) = l.flatMap vals := by
  refine List.flatMap_congr fun b hb => Function.update_of_ne ?_ _ _
  rintro rfl
  exact hp hb

/-- What the tail block is given comes last. -/
theorem flatMap_update_tailBlock (h : Layout m used free vals moved extra ahead) :
    used.flatMap (Function.update vals m.tailBlock (vals m.tailBlock ++ [x])) =
      used.flatMap vals ++ [x] := by
  obtain ⟨us, hus⟩ := List.getLast?_eq_some_iff.mp h.last
  have hnd := (List.nodup_append.mp h.nodup).1
  rw [hus, List.nodup_append] at hnd
  have hnot : m.tailBlock ∉ us := fun hu => hnd.2.2 _ hu _ (List.mem_singleton_self _) rfl
  rw [hus, List.flatMap_append, List.flatMap_append, flatMap_update_of_not_mem hnot,
    List.flatMap_singleton, List.flatMap_singleton, Function.update_self, List.append_assoc]

/-- What the front block holds comes first. -/
theorem flatMap_update_frontBlock {v : T} {vs : List T}
    (h : Layout m used free vals moved extra ahead) (hv : vals m.frontBlock = v :: vs) :
    used.flatMap vals = v :: used.flatMap (Function.update vals m.frontBlock vs) := by
  obtain ⟨rest, rfl⟩ := h.exists_used_eq
  have hnot : m.frontBlock ∉ rest := fun hr =>
    (List.nodup_cons.mp h.nodup).1 (List.mem_append_left _ hr)
  rw [List.flatMap_cons, List.flatMap_cons, hv, Function.update_self,
    flatMap_update_of_not_mem hnot, List.cons_append]

/-- **No room means much held.** With no block free and the tail block
full, the queue holds at least what fits in the blocks other than the
front one. -/
theorem le_length (h : Layout m used [] vals moved extra ahead)
    (hfull : m.tailBlock ≠ m.frontBlock →
      (vals m.tailBlock).length = (m.heap m.tailBlock).sizeMask) :
    (used.map fun b => (m.heap b).sizeMask).sum ≤
      (m.heap m.frontBlock).sizeMask + (used.flatMap vals).length := by
  obtain ⟨rest, rfl⟩ := h.exists_used_eq
  have hnd := h.nodup
  rw [List.append_nil, List.nodup_cons] at hnd
  have hrest : rest.map (fun b => (m.heap b).sizeMask) = rest.map fun b => (vals b).length := by
    refine List.map_congr_left fun b hb => ?_
    have hbf : b ≠ m.frontBlock := fun he => hnd.1 (he ▸ hb)
    by_cases hbt : b = m.tailBlock
    · rw [hbt, hfull (hbt ▸ hbf)]
    · exact (h.full b (List.mem_cons_of_mem _ hb) hbf hbt).symm
  rw [List.map_cons, List.sum_cons, hrest, List.flatMap_cons, List.length_append,
    List.length_flatMap]
  omega

/-! ## Writing within a block -/

/-- **A write to one block** keeps the layout, where the block goes on
holding something it may hold there. -/
theorem modify (h : Layout m used free vals moved extra ahead) (f : Block T → Block T)
    (vs : List T) (moved' : Bool) (extra' : ℕ → Option T) (ahead' : Option ℕ)
    (hp : p ∈ used ++ free)
    (hnext : (f (m.heap p)).next = (m.heap p).next)
    (hmask : (f (m.heap p)).sizeMask = (m.heap p).sizeMask)
    (hholds : (f (m.heap p)).Holds vs (moved' && p == m.frontBlock) (extra' p))
    (hextra : ∀ b, b ≠ p → extra' b = extra b)
    (hmoved : p = m.frontBlock ∨ moved' = moved)
    (hmoved_ne : moved' = true → Function.update vals p vs m.frontBlock ≠ [])
    (hne : p ∈ used → p ≠ m.frontBlock → vs ≠ [])
    (hfull : p ∈ used → p ≠ m.frontBlock → p ≠ m.tailBlock →
      vs.length = (m.heap p).sizeMask)
    (hfree : ∀ b ∈ free, some b ≠ ahead' → Function.update vals p vs b = []) :
    Layout (m.modify p f) used free (Function.update vals p vs) moved' extra' ahead' where
  head := h.head
  last := h.last
  nodup := h.nodup
  linked := h.linked.congr fun b _ => by
    by_cases hb : b = p
    · rw [hb, Members.modify_heap_self, hnext]
    · rw [Members.modify_heap_of_ne hb]
  lt_blocks := h.lt_blocks
  holds b hb := by
    by_cases hbp : b = p
    · rw [hbp, Members.modify_heap_self, Function.update_self]
      exact hholds
    · rw [Members.modify_heap_of_ne hbp, Function.update_of_ne hbp, hextra b hbp]
      have hm : (moved' && b == m.frontBlock) = (moved && b == m.frontBlock) := by
        rcases hmoved with rfl | rfl
        · rw [beq_eq_false_iff_ne.mpr hbp, Bool.and_false, Bool.and_false]
        · rfl
      have := h.holds b hb
      rwa [← hm] at this
  moved_ne_nil := hmoved_ne
  ne_nil b hb hbf := by
    by_cases hbp : b = p
    · rw [hbp, Function.update_self]
      exact hne (hbp ▸ hb) (hbp ▸ hbf)
    · rw [Function.update_of_ne hbp]
      exact h.ne_nil b hb hbf
  full b hb hbf hbt := by
    by_cases hbp : b = p
    · rw [hbp, Function.update_self, Members.modify_heap_self, hmask]
      exact hfull (hbp ▸ hb) (hbp ▸ hbf) (hbp ▸ hbt)
    · rw [Function.update_of_ne hbp, Members.modify_heap_of_ne hbp]
      exact h.full b hb hbf hbt
  free_eq_nil := hfree

/-- A write to the copies alone. -/
theorem touch (h : Layout m used free vals moved extra ahead) (f : Block T → Block T)
    (hp : p ∈ used ++ free) (hnext : (f (m.heap p)).next = (m.heap p).next)
    (hmask : (f (m.heap p)).sizeMask = (m.heap p).sizeMask)
    (hholds : ∀ {vs moved extra}, (m.heap p).Holds vs moved extra →
      (f (m.heap p)).Holds vs moved extra) :
    Layout (m.modify p f) used free vals moved extra ahead := by
  have h' := h.modify f (vals p) moved extra ahead hp hnext hmask (hholds (h.holds p hp))
    (fun _ _ => rfl) (Or.inr rfl)
  rw [Function.update_eq_self] at h'
  exact h' h.moved_ne_nil (h.ne_nil p) (h.full p) h.free_eq_nil

/-- The element constructed past a tail. -/
theorem write (h : Layout m used free vals moved (fun _ => none) ahead)
    (f : Block T → Block T)
    (hf : f (m.heap p) =
      { m.heap p with data := Function.update (m.heap p).data (m.heap p).tail (some x) })
    (hp : p ∈ used ++ free) :
    Layout (m.modify p f) used free vals moved (Function.update (fun _ => none) p (some x))
      ahead := by
  have hm : (moved && p == m.frontBlock) = true → vals p ≠ [] := by
    intro hm
    rw [Bool.and_eq_true, beq_iff_eq] at hm
    rw [hm.2]
    exact h.moved_ne_nil hm.1
  have hholds : (f (m.heap p)).Holds (vals p) (moved && p == m.frontBlock) (some x) :=
    hf ▸ ((h.holds p hp).write hm).2
  have h' := h.modify f (vals p) moved (Function.update (fun _ => none) p (some x)) ahead hp
    (by rw [hf]) (by rw [hf]) (by rwa [Function.update_self])
    (fun b hb => Function.update_of_ne hb _ _) (Or.inr rfl)
  rw [Function.update_eq_self] at h'
  exact h' h.moved_ne_nil (h.ne_nil p) (h.full p) h.free_eq_nil

/-- **A tail moves past the element constructed there**, in the tail block
or, filling it, in a free one. -/
theorem publish
    (h : Layout m used free vals moved (Function.update (fun _ => none) p (some x)) none)
    (f : Block T → Block T) (ahead : Option ℕ)
    (hf : f (m.heap p) =
      { m.heap p with tail := ((m.heap p).tail + 1) &&& (m.heap p).sizeMask })
    (hroom : ((m.heap p).tail + 1) &&& (m.heap p).sizeMask ≠ (m.heap p).localFront)
    (hp : p = m.tailBlock ∧ ahead = none ∨ p ∈ free ∧ ahead = some p) :
    Layout (m.modify p f) used free (Function.update vals p (vals p ++ [x])) moved
      (fun _ => none) ahead := by
  have hmem : p ∈ used ++ free := by
    rcases hp with ⟨rfl, -⟩ | ⟨hp, -⟩
    · exact h.used_subset h.tailBlock_mem
    · exact List.mem_append_right _ hp
  have hholds := h.holds p hmem
  rw [Function.update_self] at hholds
  refine h.modify f _ moved (fun _ => none) ahead hmem (by rw [hf]) (by rw [hf])
    (hf ▸ hholds.publish hroom) (fun b hb => by rw [Function.update_of_ne hb]) (Or.inr rfl)
    (fun hm => ?_) (fun _ _ => by simp) (fun hu _ ht => ?_) (fun b hb ha => ?_)
  · by_cases he : m.frontBlock = p
    · rw [he, Function.update_self]
      simp
    · rw [Function.update_of_ne he]
      exact h.moved_ne_nil hm
  · rcases hp with ⟨rfl, -⟩ | ⟨hp, -⟩
    · exact absurd rfl ht
    · exact absurd hp (h.not_mem_free hu)
  · rcases hp with ⟨rfl, rfl⟩ | ⟨hp, rfl⟩
    · rw [Function.update_of_ne (h.ne_of_mem_free hb h.tailBlock_mem)]
      exact h.free_eq_nil b hb nofun
    · rw [Function.update_of_ne fun he => ha (congrArg some he)]
      exact h.free_eq_nil b hb nofun

/-- The oldest element is moved out and destroyed. -/
theorem take (h : Layout m used free vals false extra ahead) (f : Block T → Block T)
    (hf : f (m.heap m.frontBlock) = { m.heap m.frontBlock with
      data := Function.update (m.heap m.frontBlock).data (m.heap m.frontBlock).front none })
    (hv : vals m.frontBlock ≠ []) :
    Layout (m.modify m.frontBlock f) used free vals true extra ahead := by
  have hp := h.used_subset h.frontBlock_mem
  have hholds := h.holds _ hp
  obtain ⟨v, vs, hvs⟩ := List.exists_cons_of_ne_nil hv
  rw [hvs, Bool.false_and] at hholds
  have h' := h.modify f (vals m.frontBlock) true extra ahead hp (by rw [hf]) (by rw [hf])
    (by rw [hf, hvs, Bool.true_and, beq_self_eq_true]; exact hholds.take)
    (fun _ _ => rfl) (Or.inl rfl)
  rw [Function.update_eq_self] at h'
  exact h' (fun _ => hv) (h.ne_nil _) (h.full _) h.free_eq_nil

/-- **A front moves past the element destroyed there.** -/
theorem pop {v : T} {vs : List T} (h : Layout m used free vals true extra ahead)
    (f : Block T → Block T)
    (hf : f (m.heap m.frontBlock) = { m.heap m.frontBlock with
      front := ((m.heap m.frontBlock).front + 1) &&& (m.heap m.frontBlock).sizeMask })
    (hne : (m.heap m.frontBlock).front ≠ (m.heap m.frontBlock).localTail)
    (hv : vals m.frontBlock = v :: vs) :
    Layout (m.modify m.frontBlock f) used free (Function.update vals m.frontBlock vs) false
      extra ahead := by
  have hp := h.used_subset h.frontBlock_mem
  have hholds := h.holds _ hp
  rw [hv, Bool.true_and, beq_self_eq_true] at hholds
  refine h.modify f vs false extra ahead hp (by rw [hf]) (by rw [hf])
    (hf ▸ hholds.pop hne) (fun _ _ => rfl) (Or.inl rfl) (fun hm => absurd hm Bool.false_ne_true)
    (fun _ hb => absurd rfl hb) (fun _ hb => absurd rfl hb) (fun b hb ha => ?_)
  rw [Function.update_of_ne (h.ne_of_mem_free hb h.frontBlock_mem)]
  exact h.free_eq_nil b hb ha

/-! ## Changing the circle -/

/-- **The producer moves on to the free block ahead.** -/
theorem advanceTail (h : Layout m used (nb :: free) vals moved extra (some nb))
    (hv : vals nb ≠ [])
    (hfull : m.tailBlock ≠ m.frontBlock →
      (vals m.tailBlock).length = (m.heap m.tailBlock).sizeMask) :
    Layout { m with tailBlock := nb } (used ++ [nb]) free vals moved extra none := by
  have hring : (used ++ [nb]) ++ free = used ++ nb :: free := by
    rw [List.append_assoc, List.singleton_append]
  refine
    { head := ?_, last := List.getLast?_concat, nodup := hring ▸ h.nodup,
      linked := hring ▸ h.linked, lt_blocks := hring ▸ h.lt_blocks, holds := hring ▸ h.holds,
      moved_ne_nil := h.moved_ne_nil, ne_nil := fun b hb hbf => ?_,
      full := fun b hb hbf hbt => ?_, free_eq_nil := fun b hb _ => ?_ }
  · rw [List.head?_append, h.head]
    rfl
  · rcases List.mem_append.mp hb with hb | hb
    · exact h.ne_nil b hb hbf
    · rwa [List.mem_singleton.mp hb]
  · rcases List.mem_append.mp hb with hb | hb
    · by_cases he : b = m.tailBlock
      · rw [he] at hbf ⊢
        exact hfull hbf
      · exact h.full b hb hbf he
    · exact absurd (List.mem_singleton.mp hb) hbt
  · refine h.free_eq_nil b (List.mem_cons_of_mem _ hb) ?_
    rintro ⟨⟩
    have := (List.nodup_append.mp h.nodup).2.1
    exact (List.nodup_cons.mp this).1 hb

/-- **The consumer moves on to the next block**, giving up the front
one. -/
theorem advanceFront (h : Layout m (m.frontBlock :: nb :: rest) free vals false extra ahead)
    (hv : vals m.frontBlock = []) :
    Layout { m with frontBlock := nb } (nb :: rest) (free ++ [m.frontBlock]) vals false extra
      ahead := by
  have hperm : List.Perm ((nb :: rest) ++ (free ++ [m.frontBlock]))
      ((m.frontBlock :: nb :: rest) ++ free) := by
    rw [← List.append_assoc]
    exact List.perm_append_singleton _ _
  refine
    { head := rfl, last := ?_, nodup := hperm.nodup_iff.mpr h.nodup, linked := ?_,
      lt_blocks := fun b hb => h.lt_blocks b (hperm.mem_iff.mp hb),
      holds := fun b hb => h.holds b (hperm.mem_iff.mp hb),
      moved_ne_nil := fun hm => absurd hm Bool.false_ne_true,
      ne_nil := fun b hb hbn => ?_, full := fun b hb hbn hbt => ?_,
      free_eq_nil := fun b hb hba => ?_ }
  · have hlast := h.last
    rwa [List.getLast?_cons_cons] at hlast
  · rw [← List.append_assoc]
    exact linked_rotate.mp h.linked
  · refine h.ne_nil b (List.mem_cons_of_mem _ hb) ?_
    rintro rfl
    exact (List.nodup_cons.mp h.nodup).1 (List.mem_append_left _ hb)
  · refine h.full b (List.mem_cons_of_mem _ hb) ?_ hbt
    rintro rfl
    exact (List.nodup_cons.mp h.nodup).1 (List.mem_append_left _ hb)
  · rcases List.mem_append.mp hb with hb | hb
    · exact h.free_eq_nil b hb hba
    · rw [List.mem_singleton.mp hb, hv]

/-- A block is allocated that nothing links to yet. -/
theorem allocate (h : Layout m used free vals moved extra ahead) (nb : Block T) (size : ℕ) :
    Layout { m with
      heap := Function.update m.heap m.blocks nb, blocks := m.blocks + 1,
      largestBlockSize := size } used free vals moved extra ahead := by
  have hne : ∀ b ∈ used ++ free, Function.update m.heap m.blocks nb b = m.heap b := fun b hb =>
    Function.update_of_ne (h.lt_blocks b hb).ne _ _
  exact
    { head := h.head
      last := h.last
      nodup := h.nodup
      linked := h.linked.congr fun b hb => congrArg Block.next (hne b hb)
      lt_blocks := fun b hb => Nat.lt_succ_of_lt (h.lt_blocks b hb)
      holds := fun b hb => by
        show (Function.update m.heap m.blocks nb b).Holds _ _ _
        rw [hne b hb]
        exact h.holds b hb
      moved_ne_nil := h.moved_ne_nil
      ne_nil := h.ne_nil
      full := fun b hb hbf hbt => by
        show _ = (Function.update m.heap m.blocks nb b).sizeMask
        rw [hne b (h.used_subset hb)]
        exact h.full b hb hbf hbt
      free_eq_nil := h.free_eq_nil }

/-- **The producer links a new block in** after the tail block. -/
theorem link (h : Layout m used free vals moved extra none) (hnb : nb ∉ used ++ free)
    (hlt : nb < m.blocks) (hnext : (m.heap nb).next = (m.heap m.tailBlock).next)
    (hholds : (m.heap nb).Holds [x] false (extra nb)) :
    Layout (m.modify m.tailBlock fun b => { b with next := some nb }) used (nb :: free)
      (Function.update vals nb [x]) moved extra (some nb) := by
  have hmem : ∀ {b}, b ∈ used ++ nb :: free ↔ b = nb ∨ b ∈ used ++ free := by
    intro b
    rw [List.perm_middle.mem_iff, List.mem_cons]
  have htb : nb ≠ m.tailBlock := fun he => hnb (he ▸ h.used_subset h.tailBlock_mem)
  have hfb : nb ≠ m.frontBlock := fun he => hnb (he ▸ h.used_subset h.frontBlock_mem)
  have hvals : ∀ {b}, b ∈ used ++ free → Function.update vals nb [x] b = vals b := by
    intro b hb
    refine Function.update_of_ne ?_ _ _
    rintro rfl
    exact hnb hb
  have hheap : ∀ b, ((m.modify m.tailBlock fun b => { b with next := some nb }).heap b).sizeMask =
      (m.heap b).sizeMask := by
    intro b
    by_cases hb : b = m.tailBlock
    · rw [hb, Members.modify_heap_self]
    · rw [Members.modify_heap_of_ne hb]
  refine
    { head := h.head, last := h.last, nodup := ?_, linked := ?_,
      lt_blocks := fun b hb => ?_, holds := fun b hb => ?_, moved_ne_nil := fun hm => ?_,
      ne_nil := fun b hb hbf => ?_, full := fun b hb hbf hbt => ?_,
      free_eq_nil := fun b hb hba => ?_ }
  · exact List.nodup_middle.mpr (List.nodup_cons.mpr ⟨hnb, h.nodup⟩)
  · obtain ⟨us, hus⟩ := List.getLast?_eq_some_iff.mp h.last
    have hring : used ++ free = us ++ m.tailBlock :: free := by
      rw [hus, List.append_assoc]
      rfl
    have hring' : used ++ nb :: free = us ++ m.tailBlock :: nb :: free := by
      rw [hus, List.append_assoc]
      rfl
    have hl := h.linked
    have hd := h.nodup
    rw [hring] at hl hd
    rw [hring']
    refine hl.insert hd ?_ ?_ fun c _ hc => ?_
    · rw [Members.modify_heap_self]
    · rw [Members.modify_heap_of_ne htb, hnext]
    · rw [Members.modify_heap_of_ne hc]
  · rcases hmem.mp hb with rfl | hb
    · exact hlt
    · exact h.lt_blocks b hb
  · rcases hmem.mp hb with rfl | hb
    · rw [Members.modify_heap_of_ne htb, Function.update_self, Members.modify_frontBlock,
        beq_eq_false_iff_ne.mpr hfb, Bool.and_false]
      exact hholds
    · rw [hvals hb]
      have := h.holds b hb
      by_cases hbt : b = m.tailBlock
      · rw [hbt, Members.modify_heap_self]
        rw [hbt] at this
        exact { this with }
      · rw [Members.modify_heap_of_ne hbt]
        exact this
  · exact (hvals (h.used_subset h.frontBlock_mem)).symm ▸ h.moved_ne_nil hm
  · exact (hvals (h.used_subset hb)).symm ▸ h.ne_nil b hb hbf
  · rw [hvals (h.used_subset hb), hheap]
    exact h.full b hb hbf hbt
  · rcases List.mem_cons.mp hb with rfl | hb
    · exact absurd rfl hba
    · rw [hvals (List.mem_append_right _ hb)]
      exact h.free_eq_nil b hb nofun

end Layout

end ReaderWriterQueue

end TestBuffer
