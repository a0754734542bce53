import TestBuffer.ReaderWriterQueue.Slots
import TestBuffer.ReaderWriterQueue.Walk
/-!
# `size_approx` while the other thread goes on

`size_approx` may be called by either thread, and reads the blocks one
after another while the other thread adds elements, and blocks, or takes
elements out. What it returns is what it would have returned without the
other thread at some moment of the call (`sizeApprox_atomic`). While the
consumer counts, the blocks it has counted have no fewer elements by then,
and those to come no fewer than when it began; while the producer counts,
no more.
-/

namespace TestBuffer

namespace ReaderWriterQueue

variable {T : Type*}

/-! ## The call -/

/-- Where a call of `size_approx` stands. -/
inductive Sizing
  | start
  /-- Before the indices of a block are read. -/
  | count (first block result : ℕ)
  /-- Before its `next` is followed. -/
  | follow (first block result : ℕ)
  | done (result : ℕ)

/-- A step of `size_approx`. -/
def Sizing.step (m : Members T) : Sizing → Option Sizing
  | .start => some (.count m.frontBlock m.frontBlock 0)
  | .count first block result => some (.follow first block (result + (m.heap block).count))
  | .follow first block result =>
    (m.heap block).next.map fun next =>
      if next = first then .done result else .count first next result
  | .done _ => none

/-! ## The circle from anywhere -/

/-- The blocks in a circle, from whichever. -/
structure Circle (m : Members T) (R : List ℕ) : Prop where
  linked : Linked (fun b => (m.heap b).next) R
  nodup : R.Nodup
  mem : m.frontBlock ∈ R

/-- What the blocks have together. -/
def total (m : Members T) (R : List ℕ) : ℕ := (R.map fun b => (m.heap b).count).sum

theorem total_append (m : Members T) (R S : List ℕ) :
    total m (R ++ S) = total m R + total m S := by
  rw [total, List.map_append, List.sum_append]
  rfl

theorem total_cons (m : Members T) (b : ℕ) (R : List ℕ) :
    total m (b :: R) = (m.heap b).count + total m R := by
  rw [total, List.map_cons, List.sum_cons]
  rfl

theorem total_perm (m : Members T) {R S : List ℕ} (h : R.Perm S) : total m R = total m S :=
  (h.map _).sum_eq

theorem total_sublist (m : Members T) {R S : List ℕ} (h : R.Sublist S) :
    total m R ≤ total m S := by
  induction h with
  | slnil => exact le_rfl
  | cons b _ ih =>
    rw [total_cons]
    exact ih.trans (Nat.le_add_left _ _)
  | cons_cons b _ ih =>
    rw [total_cons, total_cons]
    exact Nat.add_le_add_left ih _

variable {maxBlockSize capacity : ℕ} {m m' : Members T} {l : Producer T} {c : Consumer T}
variable {t : Spec.State T} {used free R R' B A : List ℕ} {vals : ℕ → List T} {s s' : State T}
variable {b p n first block result : ℕ} {side : Side}

theorem Related.perm (h : Related maxBlockSize capacity m l c t used free vals)
    (hR : Circle m R) : R.Perm (used ++ free) :=
  hR.linked.perm hR.nodup h.layout.linked h.layout.nodup hR.mem
    (h.layout.used_subset h.layout.frontBlock_mem)

/-- The circle from the front block. -/
theorem Related.circle (h : Related maxBlockSize capacity m l c t used free vals) :
    ∃ R, Circle m (m.frontBlock :: R) := by
  obtain ⟨rest, rfl⟩ := h.layout.exists_used_eq
  exact ⟨rest ++ free, h.layout.linked, h.layout.nodup, List.mem_cons_self⟩

theorem Related.sizeApprox_eq_total (h : Related maxBlockSize capacity m l c t used free vals)
    (hR : Circle m R) : m.sizeApprox = some (total m R) := by
  refine (h.doWhile 0).trans ?_
  rw [foldlM_add, Nat.zero_add, total_perm m (h.perm hR)]
  rfl

/-! ## What the other thread does meanwhile -/

/-- The way the counts go while a thread is in `size_approx`: up while the
consumer is, down while the producer is. -/
def Side.Le : Side → ℕ → ℕ → Prop
  | .consumer, a, b => a ≤ b
  | .producer, a, b => b ≤ a

theorem Side.Le.refl (side : Side) (a : ℕ) : side.Le a a := by
  cases side <;> exact le_rfl

theorem Side.Le.trans {a b c : ℕ} (h : side.Le a b) (h' : side.Le b c) : side.Le a c := by
  cases side
  · exact Nat.le_trans h' h
  · exact Nat.le_trans h h'

theorem Side.Le.add {a b c d : ℕ} (h : side.Le a b) (h' : side.Le c d) :
    side.Le (a + c) (b + d) := by
  cases side
  · exact Nat.add_le_add h h'
  · exact Nat.add_le_add h h'

/-- **What a step of the other thread does to the counts.** Wherever the
circle is cut, what is before and after has changed the one way only, and
altogether by one at most. -/
structure Drift (side : Side) (m m' : Members T) (R R' : List ℕ) : Prop where
  circle : Circle m' R'
  head : R'.head? = R.head?
  split : ∀ B b A, R = B ++ b :: A → ∃ B' A', R' = B' ++ b :: A' ∧
    side.Le (total m B) (total m' B') ∧ side.Le (m.heap b).count (m'.heap b).count ∧
    side.Le (total m A) (total m' A')
  total_le : total m' R' ≤ total m R + 1
  le_total : total m R ≤ total m' R' + 1

/-- A sum of which one part changes. -/
theorem sum_le_of_eq {f g : ℕ → ℕ} (hnd : R.Nodup) (hp : g p ≤ f p + 1)
    (hne : ∀ b ∈ R, b ≠ p → g b = f b) : (R.map g).sum ≤ (R.map f).sum + 1 := by
  induction R with
  | nil => exact Nat.zero_le _
  | cons b R ih =>
    obtain ⟨hb, hnd⟩ := List.nodup_cons.mp hnd
    rw [List.map_cons, List.map_cons, List.sum_cons, List.sum_cons]
    by_cases he : b = p
    · subst he
      have hrest : R.map g = R.map f :=
        List.map_congr_left fun c hc => hne c (List.mem_cons_of_mem _ hc) fun h => hb (h ▸ hc)
      rw [hrest]
      omega
    · have hrest := ih hnd fun c hc => hne c (List.mem_cons_of_mem _ hc)
      rw [hne b List.mem_cons_self he]
      omega

namespace Drift

/-- The circle stays and the counts go one way, of one block at most. -/
theorem of_count (hR : Circle m' R) (p : ℕ)
    (hp : side.Le (m.heap p).count (m'.heap p).count)
    (hup : (m'.heap p).count ≤ (m.heap p).count + 1)
    (hdown : (m.heap p).count ≤ (m'.heap p).count + 1)
    (hne : ∀ b ∈ R, b ≠ p → (m'.heap b).count = (m.heap b).count) :
    Drift side m m' R R := by
  have hcount : ∀ b ∈ R, side.Le (m.heap b).count (m'.heap b).count := by
    intro b hb
    by_cases he : b = p
    · rw [he]
      exact hp
    · rw [hne b hb he]
      exact .refl _ _
  have htotal : ∀ S : List ℕ, (∀ b ∈ S, b ∈ R) → side.Le (total m S) (total m' S) := by
    intro S hS
    induction S with
    | nil => exact .refl _ _
    | cons b S ih =>
      rw [total_cons, total_cons]
      exact (hcount b (hS b List.mem_cons_self)).add
        (ih fun c hc => hS c (List.mem_cons_of_mem _ hc))
  refine ⟨hR, rfl, fun B b A he => ⟨B, A, he, htotal B ?_, hcount b ?_, htotal A ?_⟩,
    sum_le_of_eq hR.nodup hup hne,
    sum_le_of_eq hR.nodup hdown fun b hb he => (hne b hb he).symm⟩
  · rw [he]
    exact fun c hc => List.mem_append_left _ hc
  · rw [he]
    exact List.mem_append_right _ List.mem_cons_self
  · rw [he]
    exact fun c hc => List.mem_append_right _ (List.mem_cons_of_mem _ hc)

/-- Nothing changes that counts. -/
theorem of_eq (hR : Circle m R) (hmem : m'.frontBlock ∈ R)
    (hnext : ∀ b ∈ R, (m'.heap b).next = (m.heap b).next)
    (hcount : ∀ b ∈ R, (m'.heap b).count = (m.heap b).count) : Drift side m m' R R := by
  have he := hcount _ hmem
  refine of_count ⟨hR.linked.congr hnext, hR.nodup, hmem⟩ m'.frontBlock ?_ ?_ ?_
    fun b hb _ => hcount b hb
  · rw [he]
    exact .refl _ _
  · rw [he]
    exact Nat.le_succ _
  · rw [he]
    exact Nat.le_succ _

/-- A write within a block. -/
theorem of_modify (hR : Circle m R) (p : ℕ) (f : Block T → Block T)
    (hnext : (f (m.heap p)).next = (m.heap p).next)
    (hp : side.Le (m.heap p).count (f (m.heap p)).count)
    (hup : (f (m.heap p)).count ≤ (m.heap p).count + 1)
    (hdown : (m.heap p).count ≤ (f (m.heap p)).count + 1) :
    Drift side m (m.modify p f) R R := by
  rw [← Members.modify_heap_self (m := m) (p := p) (f := f)] at hp hup hdown
  refine of_count ⟨hR.linked.congr fun b _ => ?_, hR.nodup, hR.mem⟩ p hp hup hdown
    fun b _ hb => ?_
  · by_cases hb : b = p
    · rw [hb, Members.modify_heap_self, hnext]
    · rw [Members.modify_heap_of_ne hb]
  · rw [Members.modify_heap_of_ne hb]

/-- A write that does not count. -/
theorem of_touch (hR : Circle m R) (p : ℕ) (f : Block T → Block T)
    (hnext : (f (m.heap p)).next = (m.heap p).next)
    (hcount : (f (m.heap p)).count = (m.heap p).count) : Drift side m (m.modify p f) R R := by
  refine of_modify hR p f hnext ?_ ?_ ?_
  · rw [hcount]
    exact .refl _ _
  · rw [hcount]
    exact Nat.le_succ _
  · rw [hcount]
    exact Nat.le_succ _

/-- A block is linked in. -/
theorem of_sublist (hR : Circle m' R') (hhead : R'.head? = R.head?) (hsub : R.Sublist R')
    (hcount : ∀ b ∈ R, (m'.heap b).count = (m.heap b).count)
    (htotal : total m' R' = total m R + 1) : Drift .consumer m m' R R' := by
  have hle : ∀ S S' : List ℕ, (∀ b ∈ S, b ∈ R) → S.Sublist S' → total m S ≤ total m' S' := by
    intro S S' hS hsub
    have he : total m S = total m' S :=
      congrArg List.sum (List.map_congr_left fun b hb => (hcount b (hS b hb)).symm)
    exact he.le.trans (total_sublist m' hsub)
  refine ⟨hR, hhead, fun B b A he => ?_, htotal.le, by omega⟩
  subst he
  obtain ⟨S, S', rfl, hS, hS'⟩ := List.append_sublist_iff.mp hsub
  obtain ⟨P, A', rfl, hb, hA⟩ := List.cons_sublist_iff.mp hS'
  obtain ⟨P, P', rfl⟩ := List.append_of_mem hb
  refine ⟨S ++ P, P' ++ A', by simp, ?_, (hcount b (by simp)).ge, ?_⟩
  · exact hle B _ (fun c hc => by simp [hc]) (hS.trans (List.sublist_append_left _ _))
  · exact hle A _ (fun c hc => by simp [hc]) (hA.trans (List.sublist_append_right _ _))

end Drift

/-- The blocks are small enough for their indices. -/
theorem Related.size_lt (h : Related maxBlockSize capacity m l c t used free vals)
    (hmax : maxBlockSize * 2 < 2 ^ 64) (hb : b ∈ used ++ free) : (m.heap b).size < 2 ^ 64 :=
  ((h.sized.size_le b hb).trans h.sized.largest_le).trans_lt hmax

/-- A tail that moves counts one more. -/
theorem Drift.of_publish {vs : List T} {moved : Bool} {x : T} {tail : ℕ} (hR : Circle m R)
    (hholds : (m.heap p).Holds vs moved (some x)) (hsize : (m.heap p).size < 2 ^ 64)
    (hroom : ((m.heap p).tail + 1) &&& (m.heap p).sizeMask ≠ (m.heap p).localFront)
    (htail : tail = ((m.heap p).tail + 1) &&& (m.heap p).sizeMask) :
    Drift .consumer m (m.modify p fun b => { b with tail := tail }) R R := by
  subst htail
  let f : Block T → Block T := fun b =>
    { b with tail := ((m.heap p).tail + 1) &&& (m.heap p).sizeMask }
  have hbefore := hholds.count_eq hsize
  have hafter : (f (m.heap p)).count = (vs ++ [x]).length := (hholds.publish hroom).count_eq hsize
  rw [List.length_append, List.length_singleton, ← hbefore] at hafter
  refine of_modify hR p f rfl ?_ hafter.le ?_
  · exact hafter.ge.trans' (Nat.le_succ _)
  · omega

/-- A block with one element that is linked in counts it. -/
theorem Drift.of_link {u f : List ℕ} {nb : ℕ} (hR : Circle m (u ++ p :: f))
    (hnb : nb ∉ u ++ p :: f) (hnext : (m.heap nb).next = (m.heap p).next)
    (hone : (m.heap nb).count = 1) :
    Drift .consumer m (m.modify p fun b => { b with next := some nb }) (u ++ p :: f)
      (u ++ p :: nb :: f) := by
  have hne : nb ≠ p := by
    rintro rfl
    exact hnb (by simp)
  have hcount : ∀ b, ((m.modify p fun b => { b with next := some nb }).heap b).count =
      (m.heap b).count := by
    intro b
    by_cases hb : b = p
    · rw [hb, Members.modify_heap_self]
      rfl
    · rw [Members.modify_heap_of_ne hb]
  have htotal : ∀ S, total (m.modify p fun b => { b with next := some nb }) S = total m S :=
    fun S => congrArg List.sum (List.map_congr_left fun b _ => hcount b)
  have hperm : (u ++ p :: nb :: f).Perm (nb :: (u ++ p :: f)) := by
    rw [List.append_cons, List.append_cons u p f]
    exact List.perm_middle
  refine .of_sublist ⟨?_, ?_, ?_⟩ ?_ ?_ (fun b _ => hcount b) ?_
  · refine hR.linked.insert hR.nodup ?_ ?_ fun d _ hd => ?_
    · rw [Members.modify_heap_self]
    · rw [Members.modify_heap_of_ne hne, hnext]
    · rw [Members.modify_heap_of_ne hd]
  · exact hperm.nodup_iff.mpr (List.nodup_cons.mpr ⟨hnb, hR.nodup⟩)
  · exact hperm.mem_iff.mpr (List.mem_cons_of_mem _ hR.mem)
  · cases u <;> rfl
  · exact (List.Sublist.refl u).append ((List.sublist_cons_self nb f).cons_cons _)
  · rw [htotal, total_perm m hperm, total_cons, hone, Nat.add_comm]

theorem Producer.extra_publish {x : T} {i : ℕ} : (Producer.publish x b i).extra b = some x := by
  unfold Producer.extra
  exact Function.update_self ..

theorem Producer.extra_publishNext {x : T} {i : ℕ} :
    (Producer.publishNext x b i).extra b = some x := by
  unfold Producer.extra
  exact Function.update_self ..

/-- **Every step of the producer** lets the counts grow. -/
theorem Related.drift_produce (h : Related maxBlockSize capacity m l c t used free vals)
    (hmax : maxBlockSize * 2 < 2 ^ 64) (hR : Circle m R)
    (hs : ReaderWriterQueue.produce ⟨m, l, c⟩ = some s') :
    ∃ R', Drift .consumer m s'.toMembers R R' := by
  have hl := h.layout
  have hp := h.producer
  have hsame : Drift .consumer m m R R := .of_eq hR hR.mem (fun _ _ => rfl) fun _ _ => rfl
  have htouch : ∀ p (f : Block T → Block T), (f (m.heap p)).next = (m.heap p).next →
      (f (m.heap p)).count = (m.heap p).count → Drift .consumer m (m.modify p f) R R :=
    fun p f => Drift.of_touch hR p f
  cases l with
  | idle | alloc | answer => cases hs
  | start mode x =>
    unfold ReaderWriterQueue.produce at hs
    dsimp only at hs
    split at hs <;> cases hs <;> exact ⟨R, hsame⟩
  | readFront mode x blk blockTail nextBlockTail =>
    have htouch := htouch blk (fun b => { b with localFront := b.front }) rfl rfl
    unfold ReaderWriterQueue.produce at hs
    dsimp only at hs
    split at hs <;> cases hs <;> exact ⟨R, htouch⟩
  | write x blk blockTail nextBlockTail =>
    cases hs
    exact ⟨R, htouch blk (fun b => { b with data := Function.update b.data blockTail (some x) })
      rfl rfl⟩
  | publish x blk nextBlockTail =>
    obtain ⟨-, rfl, rfl, hne⟩ := hp
    have hmem := hl.used_subset hl.tailBlock_mem
    have hholds := hl.holds _ hmem
    rw [Producer.extra_publish] at hholds
    cases hs
    exact ⟨R, .of_publish hR hholds (h.size_lt hmax hmem) hne rfl⟩
  | full mode x blk =>
    unfold ReaderWriterQueue.produce at hs
    dsimp only at hs
    split at hs
    · cases hs
      exact ⟨R, hsame⟩
    · cases mode <;> cases hs <;> exact ⟨R, hsame⟩
  | advance x blk =>
    unfold ReaderWriterQueue.produce at hs
    dsimp only at hs
    split at hs <;> cases hs
    exact ⟨R, htouch _ (fun b => { b with localFront := b.front }) rfl rfl⟩
  | readTail x nb nextBlockFront =>
    unfold ReaderWriterQueue.produce at hs
    dsimp only at hs
    split at hs <;> cases hs
    exact ⟨R, htouch nb (fun b => { b with localFront := nextBlockFront }) rfl rfl⟩
  | writeNext x nb nextBlockTail =>
    cases hs
    exact ⟨R, htouch nb
      (fun b => { b with data := Function.update b.data nextBlockTail (some x) }) rfl rfl⟩
  | publishNext x nb nextBlockTail =>
    obtain ⟨-, -, ⟨hhead, hlf⟩, rfl⟩ := hp
    have hfree : nb ∈ free := List.mem_of_mem_head? hhead
    have hmem : nb ∈ used ++ free := List.mem_append_right _ hfree
    have hholds := hl.holds nb hmem
    rw [Producer.extra_publishNext] at hholds
    have hroom := hholds.room_of_nil (hl.free_eq_nil nb hfree nofun) hlf
    cases hs
    exact ⟨R, .of_publish hR hholds (h.size_lt hmax hmem) hroom rfl⟩
  | moveTail x nb =>
    cases hs
    exact ⟨R, .of_eq hR hR.mem (fun _ _ => rfl) fun _ _ => rfl⟩
  | link x blk nb =>
    obtain ⟨-, rfl, -, hn⟩ := hp
    have hperm := h.perm hR
    have htail : m.tailBlock ∈ R := hperm.mem_iff.mpr (hl.used_subset hl.tailBlock_mem)
    have hnot : nb ∉ R := fun hnb => hn.not_mem (hperm.mem_iff.mp hnb)
    have hone : (m.heap nb).count = 1 := by
      refine hn.holds.count_eq ?_
      rw [hn.size]
      exact h.sized.largest_le.trans_lt hmax
    obtain ⟨u, f, rfl⟩ := List.append_of_mem htail
    cases hs
    exact ⟨_, .of_link hR hnot hn.next hone⟩

/-- **Every step of the consumer** lets the counts go down. -/
theorem Related.drift_consume (h : Related maxBlockSize capacity m l c t used free vals)
    (hmax : maxBlockSize * 2 < 2 ^ 64) (hR : Circle m R)
    (hs : ReaderWriterQueue.consume ⟨m, l, c⟩ = some s') :
    Drift .producer m s'.toMembers R R := by
  have hl := h.layout
  have hk := h.consumer
  have hsame : Drift .producer m m R R := .of_eq hR hR.mem (fun _ _ => rfl) fun _ _ => rfl
  have htouch : ∀ p (f : Block T → Block T), (f (m.heap p)).next = (m.heap p).next →
      (f (m.heap p)).count = (m.heap p).count → Drift .producer m (m.modify p f) R R :=
    fun p f => Drift.of_touch hR p f
  have htail := fun p => htouch p (fun b => { b with localTail := b.tail }) rfl rfl
  cases c with
  | idle | pointer | answer => cases hs
  | start op | readTailBlock op blk =>
    unfold ReaderWriterQueue.consume at hs
    dsimp only at hs
    split at hs <;> cases hs <;> exact hsame
  | readTail op blk blockFront | reread op =>
    unfold ReaderWriterQueue.consume at hs
    dsimp only at hs
    split at hs <;> cases hs <;> exact htail _
  | readNext op blk =>
    unfold ReaderWriterQueue.consume at hs
    dsimp only at hs
    split at hs <;> cases hs
    exact hsame
  | readNextTail op nb nextBlockFront =>
    unfold ReaderWriterQueue.consume at hs
    dsimp only at hs
    split at hs
    · cases hs
    · split at hs <;> cases hs
      · exact hsame
      · exact htail nb
  | moveFront op nb nextBlockFront =>
    obtain ⟨-, hn, -⟩ := hk
    have hmem := (h.perm hR).mem_iff.mpr (hl.used_subset (Kept.next_mem hn))
    cases hs
    exact .of_eq hR hmem (fun _ _ => rfl) fun _ _ => rfl
  | take op blk blockFront =>
    unfold ReaderWriterQueue.consume at hs
    dsimp only at hs
    split at hs <;> cases hs
    exact htouch blk (fun b => { b with data := Function.update b.data blockFront none }) rfl rfl
  | publish op blk blockFront element =>
    obtain ⟨⟨-, -, hne⟩, rfl, rfl, hv⟩ := hk
    obtain ⟨vs, hv⟩ := List.head?_eq_some_iff.mp hv
    let f : Block T → Block T := fun b =>
      { b with front := ((m.heap m.frontBlock).front + 1) &&& (m.heap m.frontBlock).sizeMask }
    have hmem := hl.used_subset hl.frontBlock_mem
    have hsize := h.size_lt hmax hmem
    have hholds := hl.holds _ hmem
    rw [hv, show (Consumer.publish op m.frontBlock _ element).moved = true from rfl,
      Bool.true_and, beq_self_eq_true] at hholds
    have hbefore := hholds.count_eq hsize
    have hafter : (f (m.heap m.frontBlock)).count = vs.length :=
      (hholds.pop hne).count_eq hsize
    rw [List.length_cons, ← hafter] at hbefore
    cases hs
    refine .of_modify hR m.frontBlock f rfl ?_ ?_ hbefore.le
    · exact hbefore.ge.trans' (Nat.le_succ _)
    · omega

/-! ## What the call has counted -/

theorem Circle.total_eq {S : List ℕ} (h : Circle m R) (h' : Circle m S) : total m R = total m S :=
  total_perm m (h.linked.perm h.nodup h'.linked h'.nodup h.mem h'.mem)

/-- All the counts go one way. -/
theorem Drift.le (h : Drift side m m' R R') (hR : Circle m R) :
    side.Le (total m R) (total m' R') := by
  obtain ⟨B, A, rfl⟩ := List.append_of_mem hR.mem
  obtain ⟨B', A', rfl, hB, hb, hA⟩ := h.split B _ A rfl
  rw [total_append, total_append, total_cons, total_cons]
  exact hB.add (hb.add hA)

/-- **What holds where the call stands**, `n` being the count it began
with: what it has counted is as it was or has changed the one way since,
and what is to come is as it was when it began or has changed so too. -/
def Sizing.Ok (side : Side) (n : ℕ) (m : Members T) : Sizing → Prop
  | .start => ∀ R, Circle m R → side.Le n (total m R)
  | .count first block result => ∃ B A, Circle m (B ++ block :: A) ∧
    (B ++ block :: A).head? = some first ∧ side.Le result (total m B) ∧
    side.Le n (result + total m (block :: A))
  | .follow first block result => ∃ B A, Circle m (B ++ block :: A) ∧
    (B ++ block :: A).head? = some first ∧ side.Le result (total m B + (m.heap block).count) ∧
    side.Le n (result + total m A)
  | .done result => side.Le n result ∧ ∀ R, Circle m R → side.Le result (total m R)

/-- The other thread keeps it. -/
theorem Sizing.Ok.drift {w : Sizing} (h : w.Ok side n m) (hex : ∃ R, Circle m R)
    (hd : ∀ R, Circle m R → ∃ R', Drift side m m' R R') : w.Ok side n m' := by
  have htotal : ∀ k, (∀ R, Circle m R → side.Le k (total m R)) →
      ∀ R, Circle m' R → side.Le k (total m' R) := by
    intro k hk S hS
    obtain ⟨R, hR⟩ := hex
    obtain ⟨R', hR'⟩ := hd R hR
    rw [hS.total_eq hR'.circle]
    exact (hk R hR).trans (hR'.le hR)
  cases w with
  | start => exact htotal n h
  | count first block result =>
    obtain ⟨B, A, hR, hhead, hB, hA⟩ := h
    obtain ⟨R', hd⟩ := hd _ hR
    obtain ⟨B', A', rfl, hB', hb, hA'⟩ := hd.split B block A rfl
    refine ⟨B', A', hd.circle, hd.head.trans hhead, hB.trans hB', hA.trans ?_⟩
    rw [total_cons, total_cons]
    exact (Side.Le.refl _ _).add (hb.add hA')
  | follow first block result =>
    obtain ⟨B, A, hR, hhead, hB, hA⟩ := h
    obtain ⟨R', hd⟩ := hd _ hR
    obtain ⟨B', A', rfl, hB', hb, hA'⟩ := hd.split B block A rfl
    exact ⟨B', A', hd.circle, hd.head.trans hhead, hB.trans (hB'.add hb),
      hA.trans ((Side.Le.refl _ _).add hA')⟩
  | done result => exact ⟨h.1, htotal result h.2⟩

/-- The call's own steps keep it. -/
theorem Sizing.Ok.step {w w' : Sizing} (h : w.Ok side n m) (hex : ∃ R, Circle m (m.frontBlock :: R))
    (hs : w.step m = some w') : w'.Ok side n m := by
  cases w with
  | start =>
    obtain ⟨R, hR⟩ := hex
    cases hs
    refine ⟨[], R, hR, rfl, .refl _ _, ?_⟩
    rw [Nat.zero_add]
    exact h _ hR
  | count first block result =>
    obtain ⟨B, A, hR, hhead, hB, hA⟩ := h
    cases hs
    refine ⟨B, A, hR, hhead, hB.add (.refl _ _), ?_⟩
    rwa [total_cons, ← Nat.add_assoc] at hA
  | follow first block result =>
    obtain ⟨B, A, hR, hhead, hB, hA⟩ := h
    rw [Sizing.step, Option.map_eq_some_iff] at hs
    obtain ⟨next, hnext, hs⟩ := hs
    cases A with
    | nil =>
      -- the last block links to the first
      have hfirst : (m.heap block).next = some first := by
        cases B with
        | nil =>
          obtain rfl : block = first := Option.some.inj hhead
          exact hR.linked.next_self
        | cons d B =>
          obtain rfl : d = first := Option.some.inj hhead
          exact hR.linked.next_last
      obtain rfl : next = first := Option.some.inj (hnext.symm.trans hfirst)
      rw [if_pos rfl] at hs
      subst hs
      refine ⟨hA, fun R hR' => ?_⟩
      rw [hR'.total_eq hR, total_append, total_cons]
      exact hB
    | cons d A =>
      have hd : (m.heap block).next = some d := hR.linked.next_eq
      obtain rfl : next = d := Option.some.inj (hnext.symm.trans hd)
      have hne : next ≠ first := by
        rintro rfl
        have hnd := hR.nodup
        cases B with
        | nil =>
          obtain rfl : block = next := Option.some.inj hhead
          simp at hnd
        | cons e B =>
          obtain rfl : e = next := Option.some.inj hhead
          simp at hnd
      rw [if_neg hne] at hs
      subst hs
      rw [List.append_cons] at hR hhead
      refine ⟨B ++ [block], A, hR, hhead, ?_, hA⟩
      rw [total_append, total_cons]
      exact hB
  | done result => cases hs

/-! ## The call, interleaved -/

variable [DecidableEq T] {z : Sizes} {maxSize : ℕ}

variable (T maxBlockSize) in
/-- A call of `size_approx` by a thread, and what the other does
meanwhile. -/
def sizing (side : Side) : Machine (State T × Sizing) (Act (Event T) Side ⊕ Unit) where
  Init x := x.2 = .start
  step x a :=
    match a with
    | .inl a =>
      if isProducer a = (side == .consumer) then (step maxBlockSize x.1 a).map fun s => (s, x.2)
      else none
    | .inr _ => (x.2.step x.1.toMembers).map fun w => (x.1, w)

/-- **What the other thread does while one counts.** -/
theorem Rel.drift {t : Spec.State T} {a : Act (Event T) Side} (h : Rel maxBlockSize capacity s t)
    (hmax : maxBlockSize * 2 < 2 ^ 64) (ha : isProducer a = (side == .consumer))
    (hR : Circle s.toMembers R) (hs : ReaderWriterQueue.step maxBlockSize s a = some s') :
    ∃ R', Drift side s.toMembers s'.toMembers R R' := by
  obtain ⟨used, free, vals, h⟩ := h
  obtain ⟨m, l, c⟩ := s
  have hsame : Drift side m m R R := .of_eq hR hR.mem (fun _ _ => rfl) fun _ _ => rfl
  rcases a with e | side'
  · rcases event_cases hs with ⟨ok, rfl, hs⟩ | ⟨mode, x, rfl, -, rfl⟩ | ⟨ok, rfl, -, rfl⟩ |
      ⟨op, held, rfl, -, rfl⟩ | ⟨r, held, rfl, -, rfl⟩
    · cases l with
      | alloc x blk =>
        cases ok with
        | false =>
          cases hs
          exact ⟨R, hsame⟩
        | true =>
          have hne : ∀ b ∈ R, b ≠ m.blocks := fun b hb =>
            (h.layout.lt_blocks b ((h.perm hR).mem_iff.mp hb)).ne
          cases hs
          exact ⟨R, .of_eq hR hR.mem
            (fun b hb => congrArg Block.next (Function.update_of_ne (hne b hb) _ _))
            fun b hb => congrArg Block.count (Function.update_of_ne (hne b hb) _ _)⟩
      | idle | start | readFront | write | publish | full | advance | readTail | writeNext
      | publishNext | link | moveTail | answer => cases hs
    all_goals exact ⟨R, hsame⟩
  · cases side' with
    | producer =>
      cases side with
      | producer => cases ha
      | consumer => exact h.drift_produce hmax hR hs
    | consumer =>
      cases side with
      | producer => exact ⟨R, h.drift_consume hmax hR hs⟩
      | consumer => cases ha

/-- A step that is not the call's own. -/
theorem sizing_step_inl (maxSize : ℕ) {x x' : State T × Sizing} {a : Act (Event T) Side}
    (hs : (sizing T maxBlockSize side).step x (.inl a) = some x') :
    isProducer a = (side == .consumer) ∧
      (queue T maxBlockSize maxSize).step x.1 a = some x'.1 ∧ x'.2 = x.2 := by
  obtain ⟨ha, hs⟩ := Option.ite_none_right_eq_some.mp hs
  obtain ⟨m, hm, rfl⟩ := Option.map_eq_some_iff.mp hs
  exact ⟨ha, hm, rfl⟩

/-- A step that is. -/
theorem sizing_step_inr (side : Side) {x x' : State T × Sizing}
    (hs : (sizing T maxBlockSize side).step x (.inr ()) = some x') :
    x'.1 = x.1 ∧ x.2.step x.1.toMembers = some x'.2 := by
  obtain ⟨w, hw, rfl⟩ := Option.map_eq_some_iff.mp hs
  exact ⟨rfl, hw⟩

/-- **A step**: the queue stays reachable, what has been counted stays
right, and the count changes by one at most. -/
theorem sizing_step (h : Config z maxBlockSize maxSize) {x x' : State T × Sizing}
    {a : Act (Event T) Side ⊕ Unit} (hx : (queue T maxBlockSize maxSize).Reachable x.1)
    (hok : x.2.Ok side n x.1.toMembers) (hs : (sizing T maxBlockSize side).step x a = some x') :
    ((queue T maxBlockSize maxSize).Reachable x'.1 ∧ x'.2.Ok side n x'.1.toMembers) ∧
      x'.1.sizeApprox.getD 0 ≤ x.1.sizeApprox.getD 0 + 1 ∧
      x.1.sizeApprox.getD 0 ≤ x'.1.sizeApprox.getD 0 + 1 := by
  obtain ⟨t, -, hR⟩ := (refines h).reachable hx
  obtain ⟨used, free, vals, hrel⟩ := hR
  obtain ⟨R, hcircle⟩ := hrel.circle
  rcases a with a | ⟨⟩
  · obtain ⟨ha, hstep, hw⟩ := sizing_step_inl maxSize hs
    have hx' := hx.step hstep
    obtain ⟨t', -, used', free', vals', hrel'⟩ := (refines h).reachable hx'
    have hdrift := fun S hS => Rel.drift ⟨used, free, vals, hrel⟩ h.mul_lt ha (R := S) hS hstep
    refine ⟨⟨hx', ?_⟩, ?_⟩
    · rw [hw]
      exact hok.drift ⟨_, hcircle⟩ hdrift
    · obtain ⟨R', hd⟩ := hdrift _ hcircle
      rw [hrel.sizeApprox_eq_total hcircle, hrel'.sizeApprox_eq_total hd.circle]
      exact ⟨hd.total_le, hd.le_total⟩
  · obtain ⟨he, hstep⟩ := sizing_step_inr side hs
    rw [he]
    exact ⟨⟨hx, hok.step ⟨R, hcircle⟩ hstep⟩, Nat.le_succ _, Nat.le_succ _⟩

/-- **`size_approx` is exact at some moment of the call.** Whichever thread
calls it and whatever the other does meanwhile, the state passed through
one in which `size_approx` without interruption would have returned the
same. -/
theorem sizeApprox_atomic (h : Config z maxBlockSize maxSize) (side : Side)
    (hs : (queue T maxBlockSize maxSize).Reachable s) {as : List (Act (Event T) Side ⊕ Unit)}
    (hrun : (sizing T maxBlockSize side).run (s, .start) as = some (s', .done n)) :
    ∃ bs cs u, as = bs ++ cs ∧ (sizing T maxBlockSize side).run (s, .start) bs = some u ∧
      u.1.sizeApprox = some n := by
  obtain ⟨t, -, used, free, vals, hrel⟩ := (refines h).reachable hs
  obtain ⟨R, hcircle⟩ := hrel.circle
  let I : State T × Sizing → Prop := fun x => (queue T maxBlockSize maxSize).Reachable x.1 ∧
    x.2.Ok side (total s.toMembers (s.frontBlock :: R)) x.1.toMembers
  have hI : I (s, .start) := by
    refine ⟨hs, fun R' hR' => ?_⟩
    rw [hR'.total_eq hcircle]
    exact .refl _ _
  have hstep : ∀ x a x', I x → (sizing T maxBlockSize side).step x a = some x' → I x' ∧
      x'.1.sizeApprox.getD 0 ≤ x.1.sizeApprox.getD 0 + 1 ∧
      x.1.sizeApprox.getD 0 ≤ x'.1.sizeApprox.getD 0 + 1 :=
    fun x a x' hx hs => sizing_step h hx.1 hx.2 hs
  -- the value returned lies between what the call began and ended with
  obtain ⟨hs', hle, hge⟩ := Machine.run_invariant (fun x a x' hx hs => (hstep x a x' hx hs).1) hI hrun
  obtain ⟨t', -, used', free', vals', hrel'⟩ := (refines h).reachable hs'
  obtain ⟨R', hcircle'⟩ := hrel'.circle
  have hge := hge _ hcircle'
  have hfirst := hrel.sizeApprox_eq_total hcircle
  have hlast := hrel'.sizeApprox_eq_total hcircle'
  obtain ⟨bs, cs, u, rfl, hbs, hu, hn⟩ :=
    Machine.exists_run_eq_of_between (n := n) hstep hI hrun (by
      show s.sizeApprox.getD 0 ≤ n ∧ n ≤ s'.sizeApprox.getD 0 ∨ _
      rw [hfirst, hlast]
      cases side
      · exact Or.inr ⟨hge, hle⟩
      · exact Or.inl ⟨hle, hge⟩)
  obtain ⟨t'', -, used'', free'', vals'', hrel''⟩ := (refines h).reachable hu.1
  refine ⟨bs, cs, u, rfl, hbs, ?_⟩
  rw [hrel''.sizeApprox h.mul_lt] at hn ⊢
  exact congrArg some hn

/-- The consumer counts an element that is enqueued meanwhile. -/
theorem sizeApprox_atomic_another : ∃ s bs u,
    (queue ℕ 512 15).run (construct 512 15) (passOne.take 9) = some s ∧
    (sizing ℕ 512 .consumer).run (s, .start) bs = some u ∧ u.1.sizeApprox = some 2 := by
  obtain ⟨s, hs⟩ : ∃ s, (queue ℕ 512 15).run (construct 512 15) (passOne.take 9) = some s :=
    ⟨_, rfl⟩
  obtain ⟨s', hrun⟩ : ∃ s', (sizing ℕ 512 .consumer).run (s, .start)
      (.inr () :: another.map .inl ++ [.inr (), .inr ()]) = some (s', .done 2) := by
    cases hs
    exact ⟨_, rfl⟩
  obtain ⟨bs, cs, u, -, hbs, hu⟩ := sizeApprox_atomic config_default .consumer
    (Machine.reachable_of_run (.init rfl) _ hs) hrun
  exact ⟨_, bs, u, hs, hbs, hu⟩

end ReaderWriterQueue

end TestBuffer
