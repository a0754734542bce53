import TestBuffer.ReaderWriterQueue.Ring
import TestBuffer.ReaderWriterQueue.Spec
/-!
# What each thread relies on

For every place of the two threads, what holds there of memory and of the
call as the specification sees it (`ProducerOk`, `ConsumerOk`). What a
place says is about variables the thread itself writes, or is of a kind
that the other thread can only keep: `ConsumerOk.kept` and
`ProducerOk.kept` are the two halves of that argument, from what a step of
the other thread leaves alone (`Kept`, `Left`).
-/

namespace TestBuffer

namespace ReaderWriterQueue

variable {T : Type*} {m m' : Members T} {used used' free free' : List ℕ}
variable {vals vals' : ℕ → List T} {moved : Bool} {extra : ℕ → Option T} {ahead : Option ℕ}

/-! ## Sizes -/

/-- **The sizes of the blocks**: powers of two no larger than the largest,
which the configured maximum bounds, and the queue can hold `capacity`
elements in the blocks other than any one of them, or in its only
one. Of the blocks allocated, `unlinked` are not in the circle. -/
structure Sized (maxBlockSize capacity : ℕ) (m : Members T) (ring : List ℕ) (unlinked : ℕ) :
    Prop where
  blocks : m.blocks = ring.length + unlinked
  pow : ∃ k, m.largestBlockSize = 2 ^ (k + 1)
  largest_le : m.largestBlockSize ≤ maxBlockSize * 2
  fits : maxBlockSize * 2 < 2 ^ 64
  size_le : ∀ b ∈ ring, (m.heap b).size ≤ m.largestBlockSize
  single : ring.length = 1 → ∀ b ∈ ring, capacity ≤ (m.heap b).sizeMask
  many : 2 ≤ ring.length → ∀ b ∈ ring,
    capacity + (m.heap b).sizeMask ≤ (ring.map fun b => (m.heap b).sizeMask).sum

namespace Sized

variable {maxBlockSize capacity unlinked : ℕ} {ring ring' : List ℕ}

/-- The order of the blocks does not matter, nor anything but their
sizes. -/
theorem congr (h : Sized maxBlockSize capacity m ring unlinked) (hp : ring'.Perm ring)
    (hb : m'.blocks = m.blocks) (hl : m'.largestBlockSize = m.largestBlockSize)
    (hm : ∀ b ∈ ring, (m'.heap b).sizeMask = (m.heap b).sizeMask) :
    Sized maxBlockSize capacity m' ring' unlinked where
  blocks := by
    rw [hb, h.blocks, hp.length_eq]
  pow := hl ▸ h.pow
  largest_le := hl ▸ h.largest_le
  fits := h.fits
  size_le b hb := by
    unfold Block.size
    rw [hl, hm b (hp.mem_iff.mp hb)]
    exact h.size_le b (hp.mem_iff.mp hb)
  single hlen b hb := by
    rw [hm b (hp.mem_iff.mp hb)]
    exact h.single (hp.length_eq ▸ hlen) b (hp.mem_iff.mp hb)
  many hlen b hb := by
    rw [hm b (hp.mem_iff.mp hb), (hp.map _).sum_eq, List.map_congr_left hm]
    exact h.many (hp.length_eq ▸ hlen) b (hp.mem_iff.mp hb)

theorem modify (h : Sized maxBlockSize capacity m ring unlinked) (p : ℕ)
    {f : Block T → Block T} (hmask : (f (m.heap p)).sizeMask = (m.heap p).sizeMask) :
    Sized maxBlockSize capacity (m.modify p f) ring unlinked := by
  refine h.congr (List.Perm.refl _) rfl rfl fun b _ => ?_
  by_cases hb : b = p
  · rw [hb, Members.modify_heap_self, hmask]
  · rw [Members.modify_heap_of_ne hb]

/-- A new block is no smaller than any before it. -/
theorem le_newBlockSize (h : Sized maxBlockSize capacity m ring unlinked) :
    m.largestBlockSize ≤ newBlockSize maxBlockSize m.largestBlockSize ∧
      newBlockSize maxBlockSize m.largestBlockSize ≤ maxBlockSize * 2 ∧
      ∃ k, newBlockSize maxBlockSize m.largestBlockSize = 2 ^ (k + 1) := by
  obtain ⟨k, hk⟩ := h.pow
  have hle := h.largest_le
  unfold newBlockSize
  split
  · exact ⟨le_rfl, hle, k, hk⟩
  · exact ⟨by omega, by omega, k + 1, by rw [hk]; exact (pow_succ 2 (k + 1)).symm⟩

/-- A block is allocated that is in no circle yet. -/
theorem allocate (h : Sized maxBlockSize capacity m ring unlinked)
    (hlt : ∀ b ∈ ring, b < m.blocks) (nb : Block T) :
    Sized maxBlockSize capacity { m with
      heap := Function.update m.heap m.blocks nb, blocks := m.blocks + 1,
      largestBlockSize := newBlockSize maxBlockSize m.largestBlockSize } ring
      (unlinked + 1) := by
  have hheap : ∀ b ∈ ring, Function.update m.heap m.blocks nb b = m.heap b := fun b hb =>
    Function.update_of_ne (hlt b hb).ne _ _
  obtain ⟨hle, hmax, hpow⟩ := h.le_newBlockSize
  refine ⟨congrArg (· + 1) h.blocks, hpow, hmax, h.fits, fun b hb => ?_, fun hlen b hb => ?_,
    fun hlen b hb => ?_⟩
  · exact (congrArg Block.size (hheap b hb)).le.trans ((h.size_le b hb).trans hle)
  · exact (h.single hlen b hb).trans (congrArg Block.sizeMask (hheap b hb)).ge
  · have hm := List.map_congr_left fun b hb => congrArg Block.sizeMask (hheap b hb)
    have := h.many hlen b hb
    rw [← hm, ← hheap b hb] at this
    exact this

/-- **A block as large as any is added.** -/
theorem cons (h : Sized maxBlockSize capacity m ring (unlinked + 1)) (hne : ring ≠ [])
    {nb : ℕ} (hs : (m.heap nb).size = m.largestBlockSize) :
    Sized maxBlockSize capacity m (nb :: ring) unlinked where
  blocks := by
    rw [h.blocks, List.length_cons]
    omega
  pow := h.pow
  largest_le := h.largest_le
  fits := h.fits
  size_le b hb := by
    rcases List.mem_cons.mp hb with rfl | hb
    · exact hs.le
    · exact h.size_le b hb
  single hlen := absurd (List.length_eq_zero_iff.mp (Nat.succ_inj.mp hlen)) hne
  many _ b hb := by
    obtain ⟨c, hc⟩ := List.exists_mem_of_ne_nil ring hne
    have hle : ∀ a ∈ ring, (m.heap a).sizeMask ≤ (m.heap nb).sizeMask := fun a ha =>
      Nat.succ_le_succ_iff.mp ((h.size_le a ha).trans hs.ge)
    rw [List.map_cons, List.sum_cons]
    rcases Nat.lt_or_ge ring.length 2 with hlt | hge
    · have hone : ring.length = 1 := by
        have := List.length_pos_of_mem hc
        omega
      obtain ⟨d, rfl⟩ := List.length_eq_one_iff.mp hone
      have hd := List.mem_singleton_self d
      have hcap := h.single rfl d hd
      have hdn := hle d hd
      rw [List.map_singleton, List.sum_singleton]
      rcases List.mem_cons.mp hb with rfl | hb
      · omega
      · rw [List.mem_singleton.mp hb]
        omega
    · rcases List.mem_cons.mp hb with rfl | hb
      · have := h.many hge c hc
        omega
      · have := h.many hge b hb
        omega

end Sized

/-! ## The consumer -/

/-- The consumer has called, and what it was not told was empty is not. -/
def Asked (used : List ℕ) (vals : ℕ → List T) (c : Spec.Consumer T) (op : Op) : Prop :=
  ∃ wasEmpty, c = .pending op wasEmpty ∧ (wasEmpty = false → used.flatMap vals ≠ [])

/-- The front block is empty and `nb` comes after it. -/
def Next (m : Members T) (used : List ℕ) (vals : ℕ → List T) (nb : ℕ) : Prop :=
  vals m.frontBlock = [] ∧ ∃ rest, used = m.frontBlock :: nb :: rest

/-- A pointer to the oldest element. -/
def Points (m : Members T) (used : List ℕ) (vals : ℕ → List T) (p : ℕ × ℕ) : Prop :=
  (vals m.frontBlock ≠ [] ∧ p = (m.frontBlock, (m.heap m.frontBlock).front)) ∨
    ∃ nb, Next m used vals nb ∧ p = (nb, (m.heap nb).front)

/-- The oldest element is there to be taken, and the copy of `tail` knows. -/
def Takes (m : Members T) (used : List ℕ) (vals : ℕ → List T) (c : Spec.Consumer T) (op : Op)
    (blk : ℕ) : Prop :=
  op ≠ .peek ∧ Asked used vals c op ∧ (m.heap blk).front ≠ (m.heap blk).localTail

/-- **What holds where the consumer stands.** -/
def ConsumerOk (m : Members T) (used : List ℕ) (vals : ℕ → List T) (c : Spec.Consumer T) :
    Consumer T → Prop
  | .idle held => c = .idle ∧ ∀ p, held = some p → Points m used vals p
  | .start op => Asked used vals c op
  | .readTail op blk blockFront =>
    Asked used vals c op ∧ blk = m.frontBlock ∧ blockFront = (m.heap blk).front
  | .readTailBlock op blk =>
    Asked used vals c op ∧ blk = m.frontBlock ∧
      (m.tailBlock = m.frontBlock → c = .pending op true)
  | .reread op => Asked used vals c op ∧ m.tailBlock ≠ m.frontBlock
  | .readNext op blk =>
    Asked used vals c op ∧ blk = m.frontBlock ∧ m.tailBlock ≠ m.frontBlock ∧
      vals m.frontBlock = []
  | .readNextTail op nextBlock nextBlockFront =>
    Asked used vals c op ∧ Next m used vals nextBlock ∧
      nextBlockFront = (m.heap nextBlock).front
  | .moveFront op nextBlock nextBlockFront =>
    Takes m used vals c op nextBlock ∧ Next m used vals nextBlock ∧
      nextBlockFront = (m.heap nextBlock).front
  | .take op blk blockFront =>
    Takes m used vals c op blk ∧ blk = m.frontBlock ∧ blockFront = (m.heap blk).front
  | .publish op blk blockFront element =>
    Takes m used vals c op blk ∧ blk = m.frontBlock ∧
      blockFront = ((m.heap blk).front + 1) &&& (m.heap blk).sizeMask ∧
      (vals m.frontBlock).head? = some element
  | .pointer none => c = .pending .peek true
  | .pointer (some p) => Asked used vals c .peek ∧ Points m used vals p
  | .answer r => c = .answered r

/-- A consumer the specification has outside stands outside. -/
theorem ConsumerOk.eq_idle {m : Members T} {used : List ℕ} {vals : ℕ → List T} {c : Consumer T}
    (h : ConsumerOk m used vals .idle c) : ∃ held, c = .idle held := by
  cases c with
  | idle held => exact ⟨held, rfl⟩
  | pointer p =>
    cases p with
    | none => cases h
    | some p => obtain ⟨⟨e, ⟨⟩, -⟩, -⟩ := h
  | answer r => cases h
  | start op => obtain ⟨e, ⟨⟩, -⟩ := h
  | readTail | readTailBlock | reread | readNext | readNextTail => obtain ⟨⟨e, ⟨⟩, -⟩, -⟩ := h
  | moveFront | take | publish => obtain ⟨⟨-, ⟨e, ⟨⟩, -⟩, -⟩, -⟩ := h

/-- **What a step of the producer leaves alone.** -/
structure Kept (m m' : Members T) (used used' : List ℕ) (vals vals' : ℕ → List T) : Prop where
  frontBlock : m'.frontBlock = m.frontBlock
  front : ∀ b ∈ used, (m'.heap b).front = (m.heap b).front
  localTail : ∀ b ∈ used, (m'.heap b).localTail = (m.heap b).localTail
  sizeMask : ∀ b ∈ used, (m'.heap b).sizeMask = (m.heap b).sizeMask
  vals_prefix : ∀ b ∈ used, vals b <+: vals' b
  vals_eq : ∀ b ∈ used, b ≠ m.tailBlock → vals' b = vals b
  used_prefix : used <+: used'
  tailBlock : m'.tailBlock = m.frontBlock → m.tailBlock = m.frontBlock

theorem flatMap_ne_nil_of_prefix (hu : used <+: used') (hv : ∀ b ∈ used, vals b <+: vals' b)
    (h : used.flatMap vals ≠ []) : used'.flatMap vals' ≠ [] := by
  intro hnil
  rw [List.flatMap_eq_nil_iff] at hnil
  refine h (List.flatMap_eq_nil_iff.mpr fun b hb => ?_)
  have := hv b hb
  rw [hnil b (hu.subset hb)] at this
  exact List.prefix_nil.mp this

namespace Kept

variable {c : Spec.Consumer T} {op : Op} {nb blk : ℕ} {p : ℕ × ℕ}

/-- Nothing in memory changes. -/
theorem refl : Kept m m used used vals vals where
  frontBlock := rfl
  front _ _ := rfl
  localTail _ _ := rfl
  sizeMask _ _ := rfl
  vals_prefix _ _ := List.prefix_rfl
  vals_eq _ _ _ := rfl
  used_prefix := List.prefix_rfl
  tailBlock h := h

/-- The producer writes what is its own within a block. -/
theorem modify (q : ℕ) (f : Block T → Block T) (vs : List T)
    (hfront : (f (m.heap q)).front = (m.heap q).front)
    (hlocal : (f (m.heap q)).localTail = (m.heap q).localTail)
    (hmask : (f (m.heap q)).sizeMask = (m.heap q).sizeMask) (hvs : vals q <+: vs)
    (heq : q ∈ used → q ≠ m.tailBlock → vs = vals q) :
    Kept m (m.modify q f) used used vals (Function.update vals q vs) where
  frontBlock := rfl
  front b _ := by
    by_cases hb : b = q
    · rw [hb, Members.modify_heap_self, hfront]
    · rw [Members.modify_heap_of_ne hb]
  localTail b _ := by
    by_cases hb : b = q
    · rw [hb, Members.modify_heap_self, hlocal]
    · rw [Members.modify_heap_of_ne hb]
  sizeMask b _ := by
    by_cases hb : b = q
    · rw [hb, Members.modify_heap_self, hmask]
    · rw [Members.modify_heap_of_ne hb]
  vals_prefix b _ := by
    by_cases hb : b = q
    · rw [hb, Function.update_self]
      exact hvs
    · rw [Function.update_of_ne hb]
  vals_eq b hbu hbt := by
    by_cases hb : b = q
    · rw [hb, Function.update_self]
      exact heq (hb ▸ hbu) (hb ▸ hbt)
    · rw [Function.update_of_ne hb]
  used_prefix := List.prefix_rfl
  tailBlock h := h

/-- A write that leaves what the block holds. -/
theorem touch (q : ℕ) (f : Block T → Block T)
    (hfront : (f (m.heap q)).front = (m.heap q).front)
    (hlocal : (f (m.heap q)).localTail = (m.heap q).localTail)
    (hmask : (f (m.heap q)).sizeMask = (m.heap q).sizeMask) :
    Kept m (m.modify q f) used used vals vals := by
  have h : Kept m (m.modify q f) used used vals _ := modify q f (vals q) hfront hlocal hmask List.prefix_rfl
    fun _ _ => rfl
  rwa [Function.update_eq_self] at h

theorem asked (h : Kept m m' used used' vals vals') (ha : Asked used vals c op) :
    Asked used' vals' c op := by
  obtain ⟨w, hc, hw⟩ := ha
  exact ⟨w, hc, fun he => flatMap_ne_nil_of_prefix h.used_prefix h.vals_prefix (hw he)⟩

theorem next (h : Kept m m' used used' vals vals')
    (hl : Layout m used free vals moved extra ahead) (hn : Next m used vals nb) :
    Next m' used' vals' nb := by
  obtain ⟨hv, rest, rfl⟩ := hn
  obtain ⟨r, rfl⟩ := h.used_prefix
  unfold Next
  rw [h.frontBlock, h.vals_eq _ hl.frontBlock_mem hl.tailBlock_ne.symm]
  exact ⟨hv, rest ++ r, rfl⟩

theorem next_mem (hn : Next m used vals nb) : nb ∈ used := by
  obtain ⟨-, rest, rfl⟩ := hn
  exact List.mem_cons_of_mem _ List.mem_cons_self

theorem points (h : Kept m m' used used' vals vals')
    (hl : Layout m used free vals moved extra ahead) (hp : Points m used vals p) :
    Points m' used' vals' p := by
  rcases hp with ⟨hv, rfl⟩ | ⟨nb, hn, rfl⟩
  · refine Or.inl ⟨fun hnil => hv ?_, ?_⟩
    · rw [h.frontBlock] at hnil
      have := h.vals_prefix _ hl.frontBlock_mem
      rw [hnil] at this
      exact List.prefix_nil.mp this
    · rw [h.frontBlock, h.front _ hl.frontBlock_mem]
  · exact Or.inr ⟨nb, h.next hl hn, by rw [h.front nb (next_mem hn)]⟩

theorem takes (h : Kept m m' used used' vals vals') (hb : blk ∈ used)
    (ht : Takes m used vals c op blk) : Takes m' used' vals' c op blk := by
  obtain ⟨hop, ha, hne⟩ := ht
  refine ⟨hop, h.asked ha, ?_⟩
  rwa [h.front blk hb, h.localTail blk hb]

end Kept

/-- **The producer keeps what the consumer relies on.** -/
theorem ConsumerOk.kept {c : Spec.Consumer T} {l : Consumer T} (hc : ConsumerOk m used vals c l)
    (h : Kept m m' used used' vals vals')
    (hl : Layout m used free vals moved extra ahead) : ConsumerOk m' used' vals' c l := by
  have hfb := hl.frontBlock_mem
  cases l with
  | idle held => exact ⟨hc.1, fun p hp => h.points hl (hc.2 p hp)⟩
  | start op => exact h.asked hc
  | readTail op blk blockFront =>
    obtain ⟨ha, rfl, rfl⟩ := hc
    exact ⟨h.asked ha, h.frontBlock.symm, (h.front _ hfb).symm⟩
  | readTailBlock op blk =>
    obtain ⟨ha, rfl, ht⟩ := hc
    refine ⟨h.asked ha, h.frontBlock.symm, fun he => ht (h.tailBlock ?_)⟩
    rw [he, h.frontBlock]
  | reread op =>
    refine ⟨h.asked hc.1, fun he => hc.2 (h.tailBlock ?_)⟩
    rw [he, h.frontBlock]
  | readNext op blk =>
    obtain ⟨ha, rfl, ht, hv⟩ := hc
    refine ⟨h.asked ha, h.frontBlock.symm, fun he => ht (h.tailBlock ?_), ?_⟩
    · rw [he, h.frontBlock]
    · rw [h.frontBlock, h.vals_eq _ hfb ht.symm, hv]
  | readNextTail op nb nbf =>
    obtain ⟨ha, hn, rfl⟩ := hc
    exact ⟨h.asked ha, h.next hl hn, (h.front nb (Kept.next_mem hn)).symm⟩
  | moveFront op nb nbf =>
    obtain ⟨ht, hn, rfl⟩ := hc
    exact ⟨h.takes (Kept.next_mem hn) ht, h.next hl hn, (h.front nb (Kept.next_mem hn)).symm⟩
  | take op blk blockFront =>
    obtain ⟨ht, rfl, rfl⟩ := hc
    exact ⟨h.takes hfb ht, h.frontBlock.symm, (h.front _ hfb).symm⟩
  | publish op blk blockFront element =>
    obtain ⟨ht, rfl, rfl, hv⟩ := hc
    refine ⟨h.takes hfb ht, h.frontBlock.symm, ?_, ?_⟩
    · rw [h.front _ hfb, h.sizeMask _ hfb]
    · obtain ⟨vs, hvs⟩ := h.vals_prefix _ hfb
      rw [h.frontBlock, ← hvs, List.head?_append, hv]
      rfl
  | pointer q =>
    cases q with
    | none => exact hc
    | some p => exact ⟨h.asked hc.1, h.points hl hc.2⟩
  | answer r => exact hc

/-! ## The producer -/

/-- The producer has called to add `x`. -/
def Asking (p : Spec.Producer T) (x : T) : Prop :=
  (∃ mode held, p = .pending mode x held) ∨ p = .granted x

/-- It has called, when there were no fewer elements than now. -/
def Held (used : List ℕ) (vals : ℕ → List T) (p : Spec.Producer T) (mode : AllocationMode)
    (x : T) (held : ℕ) : Prop :=
  p = .pending mode x held ∧ (used.flatMap vals).length ≤ held

theorem Held.asking {p : Spec.Producer T} {mode : AllocationMode} {x : T} {n : ℕ}
    (h : Held used vals p mode x n) : Asking p x :=
  Or.inl ⟨mode, n, h.1⟩

/-- A full tail block stays full while it is not the front block. -/
def TailFull (m : Members T) (vals : ℕ → List T) : Prop :=
  m.tailBlock ≠ m.frontBlock →
    (vals m.tailBlock).length = (m.heap m.tailBlock).sizeMask

theorem TailFull.congr (h : TailFull m vals) (hv : vals' m.tailBlock = vals m.tailBlock) :
    TailFull m vals' := by
  intro hne
  rw [hv, h hne]

/-- A write that leaves what the blocks hold. -/
theorem TailFull.modify (h : TailFull m vals) (q : ℕ) {f : Block T → Block T}
    (hmask : (f (m.heap q)).sizeMask = (m.heap q).sizeMask) : TailFull (m.modify q f) vals := by
  intro hne
  rw [Members.modify_tailBlock, h hne]
  by_cases he : m.tailBlock = q
  · rw [he, Members.modify_heap_self, hmask]
  · rw [Members.modify_heap_of_ne he]

/-- The tail block has room, and the copy of `front` knows. -/
def Room (m : Members T) (blk nextBlockTail : ℕ) : Prop :=
  blk = m.tailBlock ∧ nextBlockTail = ((m.heap blk).tail + 1) &&& (m.heap blk).sizeMask ∧
    nextBlockTail ≠ (m.heap blk).localFront

/-- The free block ahead, its `front` known. -/
def Ahead (m : Members T) (free : List ℕ) (nb : ℕ) : Prop :=
  free.head? = some nb ∧ (m.heap nb).localFront = (m.heap nb).front

/-- A block made and filled that nothing links to yet. -/
structure New (m : Members T) (ring : List ℕ) (x : T) (nb : ℕ) : Prop where
  not_mem : nb ∉ ring
  lt_blocks : nb < m.blocks
  next : (m.heap nb).next = (m.heap m.tailBlock).next
  holds : (m.heap nb).Holds [x] false none
  size : (m.heap nb).size = m.largestBlockSize

/-- **What holds where the producer stands.** -/
def ProducerOk (capacity : ℕ) (m : Members T) (used free : List ℕ) (vals : ℕ → List T)
    (p : Spec.Producer T) : Producer T → Prop
  | .idle => p = .idle
  | .start mode x => ∃ held, Held used vals p mode x held
  | .readFront mode x blk blockTail nextBlockTail =>
    (∃ held, Held used vals p mode x held) ∧ blk = m.tailBlock ∧
      blockTail = (m.heap blk).tail ∧
      nextBlockTail = ((m.heap blk).tail + 1) &&& (m.heap blk).sizeMask
  | .write x blk blockTail nextBlockTail =>
    Asking p x ∧ Room m blk nextBlockTail ∧ blockTail = (m.heap blk).tail
  | .publish x blk nextBlockTail => Asking p x ∧ Room m blk nextBlockTail
  | .full mode x blk =>
    (∃ held, Held used vals p mode x held ∧ ((used ++ free).length = 1 → capacity ≤ held)) ∧
      blk = m.tailBlock ∧ TailFull m vals
  | .advance x blk => Asking p x ∧ blk = m.tailBlock ∧ TailFull m vals ∧ free ≠ []
  | .readTail x nb nextBlockFront =>
    Asking p x ∧ TailFull m vals ∧ Ahead m free nb ∧ nextBlockFront = (m.heap nb).front
  | .writeNext x nb nextBlockTail =>
    Asking p x ∧ TailFull m vals ∧ Ahead m free nb ∧ nextBlockTail = (m.heap nb).tail
  | .publishNext x nb nextBlockTail =>
    Asking p x ∧ TailFull m vals ∧ Ahead m free nb ∧ nextBlockTail = (m.heap nb).tail
  | .alloc x blk =>
    (∃ held, p = .pending .canAlloc x held ∧ capacity ≤ held) ∧ blk = m.tailBlock ∧
      TailFull m vals
  | .link x blk nb =>
    p = .granted x ∧ blk = m.tailBlock ∧ TailFull m vals ∧ New m (used ++ free) x nb
  | .moveTail x nb =>
    Asking p x ∧ TailFull m vals ∧ free.head? = some nb ∧ vals nb = [x]
  | .answer ok => p = .answered ok

/-- A producer the specification has outside stands outside. -/
theorem ProducerOk.eq_idle {capacity : ℕ} {m : Members T} {used free : List ℕ}
    {vals : ℕ → List T} {l : Producer T} (h : ProducerOk capacity m used free vals .idle l) :
    l = .idle := by
  have hask : ∀ x, ¬Asking (.idle : Spec.Producer T) x := by
    rintro x (⟨mode, held, ⟨⟩⟩ | ⟨⟨⟩⟩)
  cases l with
  | idle => rfl
  | start => obtain ⟨held, ⟨⟩, -⟩ := h
  | readFront => obtain ⟨⟨held, ⟨⟩, -⟩, -⟩ := h
  | full => obtain ⟨⟨held, ⟨⟨⟩, -⟩, -⟩, -⟩ := h
  | alloc => obtain ⟨⟨held, ⟨⟩, -⟩, -⟩ := h
  | link => cases h.1
  | answer => cases h
  | write | publish | advance | readTail | writeNext | publishNext | moveTail =>
    exact absurd h.1 (hask _)

/-- **What a step of the consumer leaves alone.** -/
structure Left (m m' : Members T) (used used' free free' : List ℕ) (vals vals' : ℕ → List T) :
    Prop where
  tailBlock : m'.tailBlock = m.tailBlock
  blocks : m'.blocks = m.blocks
  largestBlockSize : m'.largestBlockSize = m.largestBlockSize
  tail : ∀ b ∈ used, (m'.heap b).tail = (m.heap b).tail
  localFront : ∀ b ∈ used, (m'.heap b).localFront = (m.heap b).localFront
  sizeMask : ∀ b ∈ used, (m'.heap b).sizeMask = (m.heap b).sizeMask
  next : ∀ b ∈ used, (m'.heap b).next = (m.heap b).next
  heap : ∀ b, b ∉ used → m'.heap b = m.heap b
  free_prefix : free <+: free'
  ring : (used' ++ free').Perm (used ++ free)
  length_le : (used'.flatMap vals').length ≤ (used.flatMap vals).length
  vals_eq : ∀ b, b ∉ used → vals' b = vals b
  tailBlock_vals : m.tailBlock ≠ m'.frontBlock →
    m.tailBlock ≠ m.frontBlock ∧ vals' m.tailBlock = vals m.tailBlock

namespace Left

variable {p : Spec.Producer T} {mode : AllocationMode} {x v : T} {n blk nb i : ℕ}
variable {vs : List T} {rest : List ℕ}

/-- Nothing in memory changes. -/
theorem refl : Left m m used used free free vals vals where
  tailBlock := rfl
  blocks := rfl
  largestBlockSize := rfl
  tail _ _ := rfl
  localFront _ _ := rfl
  sizeMask _ _ := rfl
  next _ _ := rfl
  heap _ _ := rfl
  free_prefix := List.prefix_rfl
  ring := List.Perm.refl _
  length_le := le_rfl
  vals_eq _ _ := rfl
  tailBlock_vals h := ⟨h, rfl⟩

/-- The consumer writes what is its own within a block in use. -/
theorem touch (q : ℕ) (f : Block T → Block T) (hq : q ∈ used)
    (htail : (f (m.heap q)).tail = (m.heap q).tail)
    (hlocal : (f (m.heap q)).localFront = (m.heap q).localFront)
    (hmask : (f (m.heap q)).sizeMask = (m.heap q).sizeMask)
    (hnext : (f (m.heap q)).next = (m.heap q).next) :
    Left m (m.modify q f) used used free free vals vals :=
  { (refl : Left m m used used free free vals vals) with
    tail := fun b _ => by
      by_cases hb : b = q
      · rw [hb, Members.modify_heap_self, htail]
      · rw [Members.modify_heap_of_ne hb]
    localFront := fun b _ => by
      by_cases hb : b = q
      · rw [hb, Members.modify_heap_self, hlocal]
      · rw [Members.modify_heap_of_ne hb]
    sizeMask := fun b _ => by
      by_cases hb : b = q
      · rw [hb, Members.modify_heap_self, hmask]
      · rw [Members.modify_heap_of_ne hb]
    next := fun b _ => by
      by_cases hb : b = q
      · rw [hb, Members.modify_heap_self, hnext]
      · rw [Members.modify_heap_of_ne hb]
    heap := fun b hb => by
      refine Members.modify_heap_of_ne ?_
      rintro rfl
      exact hb hq }

/-- The consumer gives up the oldest element. -/
theorem pop (f : Block T → Block T) (hl : Layout m used free vals moved extra ahead)
    (hv : vals m.frontBlock = v :: vs)
    (htail : (f (m.heap m.frontBlock)).tail = (m.heap m.frontBlock).tail)
    (hlocal : (f (m.heap m.frontBlock)).localFront = (m.heap m.frontBlock).localFront)
    (hmask : (f (m.heap m.frontBlock)).sizeMask = (m.heap m.frontBlock).sizeMask)
    (hnext : (f (m.heap m.frontBlock)).next = (m.heap m.frontBlock).next) :
    Left m (m.modify m.frontBlock f) used used free free vals
      (Function.update vals m.frontBlock vs) :=
  { (touch m.frontBlock f hl.frontBlock_mem htail hlocal hmask hnext :
      Left m _ used used free free vals vals) with
    length_le := by
      rw [hl.flatMap_update_frontBlock hv]
      exact Nat.le_succ _
    vals_eq := fun b hb => by
      refine Function.update_of_ne ?_ _ _
      rintro rfl
      exact hb hl.frontBlock_mem
    tailBlock_vals := fun hne => ⟨hne, Function.update_of_ne hne _ _⟩ }

/-- The consumer gives up the front block. -/
theorem advanceFront
    (hl : Layout m (m.frontBlock :: nb :: rest) free vals moved extra ahead)
    (hv : vals m.frontBlock = []) :
    Left m { m with frontBlock := nb } (m.frontBlock :: nb :: rest) (nb :: rest) free
      (free ++ [m.frontBlock]) vals vals :=
  { (refl : Left m m (m.frontBlock :: nb :: rest) (m.frontBlock :: nb :: rest) free free vals
      vals) with
    free_prefix := List.prefix_append _ _
    ring := by
      rw [← List.append_assoc]
      exact List.perm_append_singleton _ _
    length_le := by
      show _ ≤ (vals m.frontBlock ++ (nb :: rest).flatMap vals).length
      rw [hv, List.nil_append]
    tailBlock_vals := fun _ => ⟨hl.tailBlock_ne, rfl⟩ }

theorem held (h : Left m m' used used' free free' vals vals')
    (hh : Held used vals p mode x n) : Held used' vals' p mode x n :=
  ⟨hh.1, h.length_le.trans hh.2⟩

theorem tailFull (h : Left m m' used used' free free' vals vals')
    (hl : Layout m used free vals moved extra ahead) (ht : TailFull m vals) :
    TailFull m' vals' := by
  intro hne
  rw [h.tailBlock] at hne ⊢
  obtain ⟨hne, hv⟩ := h.tailBlock_vals hne
  rw [hv, ht hne, h.sizeMask _ hl.tailBlock_mem]

theorem room (h : Left m m' used used' free free' vals vals')
    (hl : Layout m used free vals moved extra ahead) (hr : Room m blk i) : Room m' blk i := by
  obtain ⟨rfl, hi, hne⟩ := hr
  have hmem := hl.tailBlock_mem
  unfold Room
  rw [h.tailBlock, h.tail _ hmem, h.sizeMask _ hmem, h.localFront _ hmem]
  exact ⟨rfl, hi, hne⟩

theorem head?_free (h : Left m m' used used' free free' vals vals')
    (hf : free.head? = some nb) : free'.head? = some nb := by
  obtain ⟨r, hr⟩ := h.free_prefix
  rw [← hr, List.head?_append, hf]
  rfl

theorem not_mem_used (hl : Layout m used free vals moved extra ahead)
    (hf : free.head? = some nb) : nb ∉ used :=
  fun hu => hl.not_mem_free hu (List.mem_of_mem_head? hf)

theorem isAhead (h : Left m m' used used' free free' vals vals')
    (hl : Layout m used free vals moved extra ahead) (ha : Ahead m free nb) :
    Ahead m' free' nb := by
  refine ⟨h.head?_free ha.1, ?_⟩
  rw [h.heap nb (not_mem_used hl ha.1)]
  exact ha.2

theorem new (h : Left m m' used used' free free' vals vals')
    (hl : Layout m used free vals moved extra ahead) (hn : New m (used ++ free) x nb) :
    New m' (used' ++ free') x nb := by
  have hheap := h.heap nb fun hu => hn.not_mem (List.mem_append_left _ hu)
  constructor
  · rw [h.ring.mem_iff]
    exact hn.not_mem
  · rw [h.blocks]
    exact hn.lt_blocks
  · rw [hheap, h.tailBlock, h.next _ hl.tailBlock_mem]
    exact hn.next
  · rw [hheap]
    exact hn.holds
  · rw [hheap, h.largestBlockSize]
    exact hn.size

end Left

/-- **The consumer keeps what the producer relies on.** -/
theorem ProducerOk.left {capacity : ℕ} {p : Spec.Producer T} {l : Producer T}
    (hp : ProducerOk capacity m used free vals p l)
    (h : Left m m' used used' free free' vals vals')
    (hl : Layout m used free vals moved extra ahead) :
    ProducerOk capacity m' used' free' vals' p l := by
  have htb := hl.tailBlock_mem
  cases l with
  | idle => exact hp
  | start mode x =>
    obtain ⟨held, hh⟩ := hp
    exact ⟨held, h.held hh⟩
  | readFront mode x blk blockTail nextBlockTail =>
    obtain ⟨⟨held, hh⟩, rfl, rfl, rfl⟩ := hp
    refine ⟨⟨held, h.held hh⟩, h.tailBlock.symm, (h.tail _ htb).symm, ?_⟩
    rw [h.tail _ htb, h.sizeMask _ htb]
  | write x blk blockTail nextBlockTail =>
    obtain ⟨ha, hr, rfl⟩ := hp
    refine ⟨ha, h.room hl hr, ?_⟩
    rw [hr.1, h.tail _ htb]
  | publish x blk nextBlockTail => exact ⟨hp.1, h.room hl hp.2⟩
  | full mode x blk =>
    obtain ⟨⟨held, hh, hc⟩, rfl, ht⟩ := hp
    refine ⟨⟨held, h.held hh, fun he => hc ?_⟩, h.tailBlock.symm, h.tailFull hl ht⟩
    rw [← h.ring.length_eq, he]
  | advance x blk =>
    obtain ⟨ha, rfl, ht, hf⟩ := hp
    refine ⟨ha, h.tailBlock.symm, h.tailFull hl ht, ?_⟩
    rintro rfl
    exact hf (List.prefix_nil.mp h.free_prefix)
  | readTail x nb nbf =>
    obtain ⟨ha, ht, hf, rfl⟩ := hp
    refine ⟨ha, h.tailFull hl ht, h.isAhead hl hf, ?_⟩
    rw [h.heap nb (Left.not_mem_used hl hf.1)]
  | writeNext x nb nbt =>
    obtain ⟨ha, ht, hf, rfl⟩ := hp
    refine ⟨ha, h.tailFull hl ht, h.isAhead hl hf, ?_⟩
    rw [h.heap nb (Left.not_mem_used hl hf.1)]
  | publishNext x nb nbt =>
    obtain ⟨ha, ht, hf, rfl⟩ := hp
    refine ⟨ha, h.tailFull hl ht, h.isAhead hl hf, ?_⟩
    rw [h.heap nb (Left.not_mem_used hl hf.1)]
  | alloc x blk =>
    obtain ⟨ha, rfl, ht⟩ := hp
    exact ⟨ha, h.tailBlock.symm, h.tailFull hl ht⟩
  | link x blk nb =>
    obtain ⟨ha, rfl, ht, hn⟩ := hp
    exact ⟨ha, h.tailBlock.symm, h.tailFull hl ht, h.new hl hn⟩
  | moveTail x nb =>
    obtain ⟨ha, ht, hf, hv⟩ := hp
    refine ⟨ha, h.tailFull hl ht, h.head?_free hf, ?_⟩
    rw [h.vals_eq nb (Left.not_mem_used hl hf), hv]
  | answer ok => exact hp

end ReaderWriterQueue

end TestBuffer
