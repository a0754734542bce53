import TestBuffer.Common.Bits
import TestBuffer.ReaderWriterQueue.Invariant
/-!
# The constructor

`ceilToPow2` is the least power of two not below its argument, as long as
that fits in 64 bits. The blocks the constructor makes are linked in a
circle, empty, and hold `maxSize` elements in all but any one of them
(`construct_layout`), whichever of its two ways it goes.
-/

namespace TestBuffer

namespace ReaderWriterQueue

variable {T : Type*}

/-! ## `ceilToPow2` -/

/-- **`ceilToPow2` rounds up to a power of two**: the least one that is
not below the argument. -/
theorem ceilToPow2_eq {n : ℕ} (hn : 2 ≤ n) (hle : n ≤ 2 ^ 63) :
    ceilToPow2 n = 2 ^ Nat.clog 2 n := by
  have hx : (n + (2 ^ 64 - 1)) % 2 ^ 64 = n - 1 := by omega
  have hne : n - 1 ≠ 0 := by omega
  have hk : (n - 1).log2 < 63 := (Nat.log2_lt hne).mpr (by omega)
  have hones := (((((TopOnes.one hne).double).double).double).double).double.double
  have heq := hones.eq_two_pow_sub_one (by omega)
  have hpow : 2 ^ ((n - 1).log2 + 1) ≤ 2 ^ 63 := Nat.pow_le_pow_right Nat.two_pos hk
  have hpos := Nat.two_pow_pos ((n - 1).log2 + 1)
  unfold ceilToPow2
  rw [hx, clog_two_eq hn]
  dsimp only
  rw [heq]
  omega

/-- It is not below the argument, and it is a power of two of at least
two. -/
theorem le_ceilToPow2 {n : ℕ} (hn : 2 ≤ n) (hle : n ≤ 2 ^ 63) :
    n ≤ ceilToPow2 n ∧ ∃ k, ceilToPow2 n = 2 ^ (k + 1) := by
  rw [ceilToPow2_eq hn hle]
  refine ⟨Nat.le_pow_clog Nat.one_lt_two n, (n - 1).log2, ?_⟩
  rw [clog_two_eq hn]

/-- Above a power of two only where the argument is. -/
theorem lt_of_lt_ceilToPow2 {n k : ℕ} (hn : 2 ≤ n) (hle : n ≤ 2 ^ 63)
    (h : 2 ^ k < ceilToPow2 n) : 2 ^ k < n := by
  rw [ceilToPow2_eq hn hle] at h
  exact (Nat.lt_clog_iff_pow_lt Nat.one_lt_two).mp
    ((Nat.pow_lt_pow_iff_right Nat.one_lt_two).mp h)

/-! ## The loop -/

section AddBlock

variable {maxBlockSize first last i : ℕ} {c : Built T}

/-- The first round: a block linked to itself. -/
theorem addBlock_none_heap : ((Built.none : Built T).addBlock maxBlockSize).heap 0 =
    { (makeBlock maxBlockSize : Block T) with next := some 0 } := by
  simp [Built.addBlock, Built.none]

/-- A later round: the block made, linked to the first. -/
theorem addBlock_heap_blocks (hf : c.firstBlock = some first) (hl : c.lastBlock = some last)
    (hne : last ≠ c.blocks) : (c.addBlock maxBlockSize).heap c.blocks =
      { (makeBlock maxBlockSize : Block T) with next := some first } := by
  simp [Built.addBlock, hf, hl, Function.update_of_ne hne.symm]

/-- The last one, linked to it. -/
theorem addBlock_heap_last (hl : c.lastBlock = some last) (hne : last ≠ c.blocks) :
    (c.addBlock maxBlockSize).heap last = { c.heap last with next := some c.blocks } := by
  simp [Built.addBlock, hl, Function.update_of_ne hne]

/-- No other changes. -/
theorem addBlock_heap_of_ne (hl : c.lastBlock = some last) (hi : i ≠ last)
    (hne : i ≠ c.blocks) : (c.addBlock maxBlockSize).heap i = c.heap i := by
  simp [Built.addBlock, hl, Function.update_of_ne hne, Function.update_of_ne hi]

/-- **What the loop has built** after `n + 1` rounds: blocks in a circle in
the order they were made. -/
theorem addBlock_iterate (maxBlockSize n : ℕ) :
    let c := (Built.addBlock maxBlockSize)^[n + 1] (Built.none : Built T)
    c.blocks = n + 1 ∧ c.firstBlock = some 0 ∧ c.lastBlock = some n ∧
      (c.heap n = { (makeBlock maxBlockSize : Block T) with next := some 0 }) ∧
      ∀ i < n, c.heap i = { (makeBlock maxBlockSize : Block T) with next := some (i + 1) } := by
  induction n with
  | zero => exact ⟨rfl, rfl, rfl, addBlock_none_heap, nofun⟩
  | succ n ih =>
    obtain ⟨hb, hf, hl, hn, hi⟩ := ih
    rw [Function.iterate_succ_apply']
    generalize (Built.addBlock maxBlockSize)^[n + 1] (Built.none : Built T) = c at hb hf hl hn hi
    have hne : n ≠ c.blocks := by omega
    refine ⟨congrArg (· + 1) hb, ?_, congrArg some hb, ?_, fun i hlt => ?_⟩
    · show some (c.firstBlock.getD c.blocks) = some 0
      rw [hf]
      rfl
    · rw [← hb, addBlock_heap_blocks hf hl hne]
    · rcases Nat.lt_succ_iff_lt_or_eq.mp hlt with hlt' | rfl
      · rw [addBlock_heap_of_ne hl hlt'.ne (by omega), hi i hlt']
      · rw [addBlock_heap_last hl hne, hn, hb]

end AddBlock

/-! ## The queue built -/

theorem singleton_append_range' (n : ℕ) : [0] ++ List.range' 1 n = List.range (n + 1) := by
  rw [List.range_eq_range', List.range'_succ]
  rfl

/-- **Blocks in a circle, all empty**, are laid out with the first in
use. -/
theorem layout_of_circle {m : Members T} {n k c : ℕ} (hc : c = 2 ^ (k + 1)) (hfits : c ≤ 2 ^ 64)
    (hb : m.blocks = n + 1) (hf : m.frontBlock = 0) (ht : m.tailBlock = 0)
    (hn : m.heap n = { (makeBlock c : Block T) with next := some 0 })
    (hi : ∀ i < n, m.heap i = { (makeBlock c : Block T) with next := some (i + 1) }) :
    Layout m [0] (List.range' 1 n) (fun _ => []) false (fun _ => none) none := by
  have hring := singleton_append_range' n
  have hheap : ∀ b ∈ List.range (n + 1), ∃ next,
      m.heap b = { (makeBlock c : Block T) with next := next } := by
    intro b hb
    rcases Nat.lt_succ_iff_lt_or_eq.mp (List.mem_range.mp hb) with hlt | rfl
    · exact ⟨_, hi b hlt⟩
    · exact ⟨_, hn⟩
  refine
    { head := by rw [hf]; rfl, last := by rw [ht]; rfl, nodup := ?_, linked := ?_,
      lt_blocks := fun b hbm => ?_, holds := fun b hbm => ?_, moved_ne_nil := nofun,
      ne_nil := fun b hbm hne => ?_, full := fun b hbm hne => ?_,
      free_eq_nil := fun _ _ _ => rfl }
  · rw [hring]
    exact List.nodup_range
  · rw [hring]
    exact (Cycle.chain_range_succ _ n).mpr
      ⟨congrArg Block.next hn, fun i hlt => congrArg Block.next (hi i hlt)⟩
  · rw [hb]
    rw [hring] at hbm
    exact List.mem_range.mp hbm
  · rw [hring] at hbm
    obtain ⟨next, hnext⟩ := hheap b hbm
    rw [hnext, Bool.false_and]
    exact holds_makeBlock hc hfits next
  · exact absurd ((List.mem_singleton.mp hbm).trans hf.symm) hne
  · exact absurd ((List.mem_singleton.mp hbm).trans hf.symm) hne

/-- **Blocks of one size in a circle**, enough of them. -/
theorem sized_of_circle {m : Members T} {n k c maxBlockSize capacity : ℕ} (hc : c = 2 ^ (k + 1))
    (hb : m.blocks = n + 1) (hl : m.largestBlockSize = c) (hle : c ≤ maxBlockSize * 2)
    (hfits : maxBlockSize * 2 < 2 ^ 64)
    (hm : ∀ b < n + 1, (m.heap b).sizeMask = c - 1)
    (hcap : n = 0 ∧ capacity ≤ c - 1 ∨ capacity ≤ n * (c - 1)) :
    Sized maxBlockSize capacity m ([0] ++ List.range' 1 n) 0 := by
  have hpos : 0 < c := hc ▸ Nat.two_pow_pos _
  rw [singleton_append_range']
  refine ⟨hb.trans (List.length_range).symm, ⟨k, hl.trans hc⟩, hl ▸ hle, hfits, fun b hb => ?_,
    fun hlen b hb => ?_, fun hlen b hb => ?_⟩
  · unfold Block.size
    rw [hm b (List.mem_range.mp hb), hl]
    omega
  · rw [List.length_range] at hlen
    obtain rfl : n = 0 := by omega
    rw [hm b (List.mem_range.mp hb)]
    omega
  · rw [List.length_range] at hlen
    have hsum : ((List.range (n + 1)).map fun b => (m.heap b).sizeMask).sum =
        (n + 1) * (c - 1) := by
      rw [List.map_congr_left (g := fun _ => c - 1) fun b hb => hm b (List.mem_range.mp hb),
        List.map_const', List.sum_replicate_nat, List.length_range]
    rw [hsum, hm b (List.mem_range.mp hb), Nat.succ_mul]
    have : capacity ≤ n * (c - 1) := hcap.resolve_left fun h => by omega
    omega

/-- What the constructor asserts of its arguments, and, which nothing
checks, that the sizes it computes with and the bytes of the largest block
fit in 64 bits. -/
structure Config (z : Sizes) (maxBlockSize maxSize : ℕ) : Prop where
  pow : ∃ k, maxBlockSize = 2 ^ (k + 1)
  pos : 0 < maxSize
  lt : maxSize < 2 ^ 63
  mul_lt : maxBlockSize * 2 < 2 ^ 64
  request_lt : z.request (maxBlockSize * 2) < 2 ^ 64

/-- Blocks of `int`s, where pointers have 64 bits. -/
def Sizes.int : Sizes := ⟨160, 8, 4, 4⟩

/-- The default arguments. -/
theorem config_default : Config .int 512 15 := by
  refine ⟨⟨8, rfl⟩, ?_, ?_, ?_, ?_⟩ <;> decide

/-- The blocks of the loop hold `maxSize` elements in all but one. -/
theorem le_mul_of_initialBlockCount {maxBlockSize maxSize n : ℕ} (hm : 2 ≤ maxBlockSize)
    (hn : (maxSize + maxBlockSize * 2 - 3) / (maxBlockSize - 1) = n + 1) :
    maxSize ≤ n * (maxBlockSize - 1) := by
  have hpos : 0 < maxBlockSize - 1 := by omega
  have hdiv := Nat.div_add_mod (maxSize + maxBlockSize * 2 - 3) (maxBlockSize - 1)
  have hmod := Nat.mod_lt (maxSize + maxBlockSize * 2 - 3) hpos
  rw [hn, Nat.mul_succ, Nat.mul_comm] at hdiv
  omega

/-- The queue of one block. -/
theorem construct_of_le {maxBlockSize maxSize : ℕ}
    (h : ¬ceilToPow2 (maxSize + 1) > maxBlockSize * 2) :
    (construct maxBlockSize maxSize : State T) =
      { heap := Function.update Built.none.heap 0
          { (makeBlock (ceilToPow2 (maxSize + 1)) : Block T) with next := some 0 }
        blocks := 1
        frontBlock := 0
        tailBlock := 0
        largestBlockSize := ceilToPow2 (maxSize + 1)
        producer := .idle
        consumer := .idle none } :=
  if_neg h

/-- The queue of the loop. -/
theorem construct_of_lt {maxBlockSize maxSize n : ℕ}
    (h : ceilToPow2 (maxSize + 1) > maxBlockSize * 2)
    (hn : (maxSize + maxBlockSize * 2 - 3) / (maxBlockSize - 1) = n + 1) :
    (construct maxBlockSize maxSize : State T) =
      { heap := ((Built.addBlock maxBlockSize)^[n + 1] Built.none).heap
        blocks := n + 1
        frontBlock := 0
        tailBlock := 0
        largestBlockSize := maxBlockSize
        producer := .idle
        consumer := .idle none } := by
  obtain ⟨hb, hf, -⟩ := addBlock_iterate (T := T) maxBlockSize n
  refine (if_pos h).trans ?_
  rw [hn, hb, hf]
  rfl

/-- Nobody has called yet. -/
theorem construct_idle (maxBlockSize maxSize : ℕ) :
    (construct maxBlockSize maxSize : State T).producer = .idle ∧
      (construct maxBlockSize maxSize : State T).consumer = .idle none := by
  by_cases hgt : ceilToPow2 (maxSize + 1) > maxBlockSize * 2
  · rw [show (construct maxBlockSize maxSize : State T) = _ from if_pos hgt]
    exact ⟨rfl, rfl⟩
  · rw [construct_of_le hgt]
    exact ⟨rfl, rfl⟩

/-- **What the constructor builds** is laid out, empty, and holds `maxSize`
elements without the block a consumer may be in. -/
theorem construct_layout {z : Sizes} {maxBlockSize maxSize : ℕ}
    (h : Config z maxBlockSize maxSize) :
    ∃ free, Layout (construct maxBlockSize maxSize : State T).toMembers [0] free (fun _ => [])
        false (fun _ => none) none ∧
      Sized maxBlockSize maxSize (construct maxBlockSize maxSize : State T).toMembers
        ([0] ++ free) 0 := by
  obtain ⟨⟨k, hk⟩, hpos, hlt, hfits, -⟩ := h
  obtain ⟨hle, j, hj⟩ := le_ceilToPow2 (n := maxSize + 1) (by omega) (by omega)
  have htwo : 2 ≤ maxBlockSize := by
    have := Nat.two_pow_pos k
    rw [hk, pow_succ]
    omega
  have hlt' : maxBlockSize * 2 < ceilToPow2 (maxSize + 1) → maxBlockSize * 2 < maxSize + 1 := by
    rw [hk, ← pow_succ]
    exact lt_of_lt_ceilToPow2 (by omega) (by omega)
  by_cases hgt : ceilToPow2 (maxSize + 1) > maxBlockSize * 2
  · have hlt' := hlt' hgt
    obtain ⟨n, hn⟩ : ∃ n, (maxSize + maxBlockSize * 2 - 3) / (maxBlockSize - 1) = n + 1 := by
      refine Nat.exists_eq_succ_of_ne_zero (Nat.div_pos ?_ (by omega)).ne'
      omega
    obtain ⟨-, -, -, hlast, hi⟩ := addBlock_iterate (T := T) maxBlockSize n
    rw [construct_of_lt hgt hn]
    have hmask : (makeBlock maxBlockSize : Block T).sizeMask = maxBlockSize - 1 :=
      makeBlock_sizeMask (by omega) (by omega)
    refine ⟨List.range' 1 n, layout_of_circle hk (by omega) rfl rfl rfl hlast hi,
      sized_of_circle hk rfl rfl (by omega) hfits (fun b hb => ?_)
        (Or.inr (le_mul_of_initialBlockCount htwo hn))⟩
    rcases Nat.lt_succ_iff_lt_or_eq.mp hb with hlt | rfl
    · exact (congrArg Block.sizeMask (hi b hlt)).trans hmask
    · exact (congrArg Block.sizeMask hlast).trans hmask
  · rw [construct_of_le hgt]
    generalize ceilToPow2 (maxSize + 1) = c at *
    have hheap : Function.update (Built.none : Built T).heap 0
        { (makeBlock c : Block T) with next := some 0 } 0 =
        { (makeBlock c : Block T) with next := some 0 } := Function.update_self ..
    have hmask : (makeBlock c : Block T).sizeMask = c - 1 :=
      makeBlock_sizeMask (by omega) (by omega)
    refine ⟨List.range' 1 0, layout_of_circle hj (by omega) rfl rfl rfl hheap nofun,
      sized_of_circle hj rfl rfl (by omega) hfits (fun b hb => ?_) (Or.inl ⟨rfl, by omega⟩)⟩
    obtain rfl : b = 0 := by omega
    exact (congrArg Block.sizeMask hheap).trans hmask

end ReaderWriterQueue

end TestBuffer
