import TestBuffer.ReaderWriterQueue.Invariant
/-!
# The queue does what it is for

Every step of the two threads is simulated by the specification
(`Rel.step`): an element enters the queue when `tail` is written,
or `tailBlock` where it went to another block, and leaves it when `front`
is. Every history of calls and returns of the code is then one of the
specification.
-/

namespace TestBuffer

namespace ReaderWriterQueue

variable {T : Type*}

/-! ## The relation -/

/-- What the producer has constructed past the tail of a block. -/
def Producer.extra : Producer T → ℕ → Option T
  | .publish x blk _ => Function.update (fun _ => none) blk (some x)
  | .publishNext x nb _ => Function.update (fun _ => none) nb (some x)
  | _ => fun _ => none

/-- The block it has filled that is not the tail block yet. -/
def Producer.ahead : Producer T → Option ℕ
  | .moveTail _ nb => some nb
  | _ => none

/-- The blocks it has made that are not in the circle yet. -/
def Producer.unlinked : Producer T → ℕ
  | .link .. => 1
  | _ => 0

/-- The consumer has destroyed the element at `front`. -/
def Consumer.moved : Consumer T → Bool
  | .publish .. => true
  | _ => false

/-- **How the code stands to the specification**, with the blocks in use,
those free and what each holds. -/
structure Related (maxBlockSize capacity : ℕ) (m : Members T) (l : Producer T) (c : Consumer T)
    (t : Spec.State T) (used free : List ℕ) (vals : ℕ → List T) : Prop where
  layout : Layout m used free vals c.moved l.extra l.ahead
  sized : Sized maxBlockSize capacity m (used ++ free) l.unlinked
  contents : t.contents = used.flatMap vals
  producer : ProducerOk capacity m used free vals t.producer l
  consumer : ConsumerOk m used vals t.consumer c

section Consumer

variable {m : Members T} {used free : List ℕ} {vals : ℕ → List T} {moved : Bool}
variable {extra : ℕ → Option T} {ahead : Option ℕ} {q : Spec.Consumer T} {op : Op}

theorem Op.moved_atElement (op : Op) (blk i : ℕ) :
    (op.atElement blk i : Consumer T).moved = false := by
  cases op <;> rfl

theorem Op.moved_atEmpty (op : Op) : (op.atEmpty : Consumer T).moved = false := by
  cases op <;> rfl

/-- An element found in the front block. -/
theorem atElement_ok (hl : Layout m used free vals moved extra ahead)
    (ha : Asked used vals q op)
    (hne : (m.heap m.frontBlock).front ≠ (m.heap m.frontBlock).localTail) :
    ConsumerOk m used vals q (op.atElement m.frontBlock (m.heap m.frontBlock).front) := by
  have hv := (hl.holds _ (hl.used_subset hl.frontBlock_mem)).ne_nil hne
  cases op with
  | peek => exact ⟨ha, Or.inl ⟨hv, rfl⟩⟩
  | tryDequeue => exact ⟨⟨nofun, ha, hne⟩, rfl, rfl⟩
  | pop => exact ⟨⟨nofun, ha, hne⟩, rfl, rfl⟩

/-- The front block found empty, the queue was if it is the only one. -/
theorem wasEmpty (hl : Layout m used free vals moved extra ahead)
    (ha : Asked used vals q op) (hv : vals m.frontBlock = [])
    (he : m.tailBlock = m.frontBlock) : q = .pending op true := by
  obtain ⟨w, rfl, hw⟩ := ha
  cases w with
  | true => rfl
  | false =>
    refine absurd ?_ (hw rfl)
    rw [hl.used_eq_singleton he, List.flatMap_singleton, hv]

/-- A pointer to the oldest element points to it. -/
theorem Points.deref {p : ℕ × ℕ} (hp : Points m used vals p)
    (hl : Layout m used free vals false extra ahead) :
    ∃ v vs, used.flatMap vals = v :: vs ∧ m.deref p = some v := by
  rcases hp with ⟨hv, rfl⟩ | ⟨nb, ⟨hv, rest, rfl⟩, rfl⟩
  · obtain ⟨v, vs, hv⟩ := List.exists_cons_of_ne_nil hv
    have hholds := hl.holds _ (hl.used_subset hl.frontBlock_mem)
    rw [hv] at hholds
    exact ⟨v, _, hl.flatMap_update_frontBlock hv, Block.Holds.front_eq hholds⟩
  · have hmem : nb ∈ m.frontBlock :: nb :: rest := List.mem_cons_of_mem _ List.mem_cons_self
    have hne : nb ≠ m.frontBlock := by
      rintro rfl
      exact (List.nodup_cons.mp hl.nodup).1 List.mem_cons_self
    obtain ⟨v, vs, hvs⟩ := List.exists_cons_of_ne_nil (hl.ne_nil nb hmem hne)
    have hholds := hl.holds nb (hl.used_subset hmem)
    rw [hvs] at hholds
    refine ⟨v, vs ++ rest.flatMap vals, ?_, Block.Holds.front_eq hholds⟩
    rw [List.flatMap_cons, List.flatMap_cons, hv, hvs]
    rfl

/-- A call of the consumer. -/
theorem asked_call {t : Spec.State T} (hc : t.contents = used.flatMap vals) :
    Asked used vals (.pending op t.contents.isEmpty) op := by
  refine ⟨_, rfl, fun hw => ?_⟩
  rw [← hc]
  rintro hnil
  rw [hnil] at hw
  exact Bool.false_ne_true hw.symm

end Consumer

variable [DecidableEq T] {maxBlockSize capacity : ℕ} {t t' : Spec.State T} {s' : State T}

variable (maxBlockSize capacity) in
/-- A state of the code that the specification gets to from `t` without an
event. -/
def Simulated (t : Spec.State T) (s' : State T) : Prop :=
  ∃ bs t' used free vals, (Spec.queue T capacity).run t bs = some t' ∧ Act.history bs = [] ∧
    Related maxBlockSize capacity s'.toMembers s'.producer s'.consumer t' used free vals

variable {m : Members T} {l : Producer T} {c : Consumer T} {used free : List ℕ}
variable {vals : ℕ → List T} {p blk blockTail nextBlockTail nextBlockFront nb : ℕ} {vs : List T}
variable {mode : AllocationMode} {x : T} {op : Op} {ok : Bool}

theorem Related.stay (h : Related maxBlockSize capacity m l c t used free vals) :
    Simulated maxBlockSize capacity t ⟨m, l, c⟩ :=
  ⟨[], t, used, free, vals, rfl, rfl, h⟩

theorem Related.after {e : Spec.Effect}
    (hs : (Spec.queue T capacity).step t (.inner e) = some t')
    (h : Related maxBlockSize capacity m l c t' used free vals) :
    Simulated maxBlockSize capacity t ⟨m, l, c⟩ :=
  ⟨[.inner e], t', used, free, vals, by rw [Machine.run_singleton, hs], rfl, h⟩

/-! ## The producer -/

/-- The specification adds the element the producer asks to add. -/
theorem Asking.insert (h : Asking t.producer x) :
    (Spec.queue T capacity).step t (.inner .insert) =
      some { t with contents := t.contents ++ [x], producer := .answered true } := by
  obtain ⟨cs, q, c⟩ := t
  rcases h with ⟨mode, held, rfl⟩ | rfl <;> rfl

namespace Related

theorem produce_start (h : Related maxBlockSize capacity m (.start mode x) c t used free vals)
    (hs : produce ⟨m, .start mode x, c⟩ = some s') :
    Simulated maxBlockSize capacity t s' := by
  obtain ⟨hl, hz, hc, ⟨n, hn⟩, hk⟩ := h
  unfold produce at hs
  dsimp only at hs
  split at hs
  · rename_i hne
    cases hs
    exact Related.stay ⟨hl, hz, hc, ⟨hn.asking, ⟨rfl, rfl, hne⟩, rfl⟩, hk⟩
  · cases hs
    exact Related.stay ⟨hl, hz, hc, ⟨⟨n, hn⟩, rfl, rfl, rfl⟩, hk⟩

theorem produce_readFront
    (h : Related maxBlockSize capacity m (.readFront mode x blk blockTail nextBlockTail) c t
      used free vals)
    (hs : produce ⟨m, .readFront mode x blk blockTail nextBlockTail, c⟩ = some s') :
    Simulated maxBlockSize capacity t s' := by
  obtain ⟨hl, hz, hc, ⟨⟨n, hn⟩, rfl, rfl, rfl⟩, hk⟩ := h
  let f : Block T → Block T := fun b => { b with localFront := b.front }
  have hmem := hl.used_subset hl.tailBlock_mem
  have hl' := hl.touch f hmem rfl rfl fun h => h.readFront
  have hz' := hz.modify m.tailBlock (f := f) rfl
  have hk' := hk.kept (Kept.touch m.tailBlock f rfl rfl rfl) hl
  have hself : (m.modify m.tailBlock f).heap m.tailBlock = f (m.heap m.tailBlock) :=
    Members.modify_heap_self
  unfold produce at hs
  dsimp only at hs
  split at hs
  · rename_i hne
    cases hs
    refine Related.stay (m := m.modify m.tailBlock f)
      ⟨hl', hz', hc, ⟨hn.asking, ⟨rfl, ?_, ?_⟩, ?_⟩, hk'⟩
    · rw [hself]
    · rw [hself]
      exact hne
    · rw [hself]
  · rename_i he
    cases hs
    have hfull := (hl.holds _ hmem).full_iff.mp (not_not.mp he)
    refine Related.stay (m := m.modify m.tailBlock f)
      ⟨hl', hz', hc, ⟨⟨n, hn, fun hone => ?_⟩, rfl, fun _ => ?_⟩, hk'⟩
    · -- the only block is full
      obtain ⟨hu, ht⟩ := hl.eq_of_length_eq_one hone
      have hcap := hz.single hone _ hmem
      have hlen := hn.2
      rw [hu, List.flatMap_singleton, ← ht, hfull] at hlen
      exact hcap.trans hlen
    · rw [Members.modify_tailBlock, hself, hfull]

theorem produce_write
    (h : Related maxBlockSize capacity m (.write x blk blockTail nextBlockTail) c t used free
      vals)
    (hs : produce ⟨m, .write x blk blockTail nextBlockTail, c⟩ = some s') :
    Simulated maxBlockSize capacity t s' := by
  obtain ⟨hl, hz, hc, ⟨ha, ⟨rfl, rfl, hne⟩, rfl⟩, hk⟩ := h
  let f : Block T → Block T := fun b =>
    { b with data := Function.update b.data (m.heap m.tailBlock).tail (some x) }
  have hmem := hl.used_subset hl.tailBlock_mem
  have hself : (m.modify m.tailBlock f).heap m.tailBlock = f (m.heap m.tailBlock) :=
    Members.modify_heap_self
  cases hs
  refine Related.stay (m := m.modify m.tailBlock f)
    ⟨hl.write f rfl hmem, hz.modify _ rfl, hc, ⟨ha, rfl, ?_, ?_⟩,
      hk.kept (Kept.touch m.tailBlock f rfl rfl rfl) hl⟩
  · rw [hself]
  · rw [hself]
    exact hne

theorem produce_publish
    (h : Related maxBlockSize capacity m (.publish x blk nextBlockTail) c t used free vals)
    (hs : produce ⟨m, .publish x blk nextBlockTail, c⟩ = some s') :
    Simulated maxBlockSize capacity t s' := by
  obtain ⟨hl, hz, hc, ⟨ha, rfl, rfl, hne⟩, hk⟩ := h
  let f : Block T → Block T := fun b =>
    { b with tail := ((m.heap m.tailBlock).tail + 1) &&& (m.heap m.tailBlock).sizeMask }
  cases hs
  refine Related.after (m := m.modify m.tailBlock f) ha.insert
    ⟨hl.publish f none rfl hne (Or.inl ⟨rfl, rfl⟩), hz.modify _ rfl, ?_, rfl,
      hk.kept (Kept.modify m.tailBlock f _ rfl rfl rfl (List.prefix_append _ _)
        fun _ ht => absurd rfl ht) hl⟩
  rw [hl.flatMap_update_tailBlock, ← hc]

theorem produce_full (h : Related maxBlockSize capacity m (.full mode x blk) c t used free vals)
    (hs : produce ⟨m, .full mode x blk, c⟩ = some s') :
    Simulated maxBlockSize capacity t s' := by
  obtain ⟨hl, hz, hc, ⟨⟨n, hn, hone⟩, rfl, hf⟩, hk⟩ := h
  unfold produce at hs
  dsimp only at hs
  split at hs
  · rename_i hne
    cases hs
    exact Related.stay ⟨hl, hz, hc,
      ⟨hn.asking, rfl, hf, fun he => hne (hl.next_tailBlock_eq_iff.mpr he)⟩, hk⟩
  · rename_i he
    obtain rfl := hl.next_tailBlock_eq_iff.mp (not_not.mp he)
    -- no block is free, so as much is held as the queue is meant to hold
    have hcap : capacity ≤ n := by
      rcases Nat.lt_or_ge (used ++ []).length 2 with hlt | hge
      · have := List.length_pos_of_mem (hl.used_subset hl.frontBlock_mem)
        exact hone (by omega)
      · have hmany := hz.many hge _ (hl.used_subset hl.frontBlock_mem)
        have hle := hl.le_length hf
        have hlen := hn.2
        rw [List.append_nil] at hmany
        omega
    cases mode with
    | canAlloc =>
      cases hs
      exact Related.stay ⟨hl, hz, hc, ⟨⟨n, hn.1, hcap⟩, rfl, hf⟩, hk⟩
    | cannotAlloc =>
      cases hs
      obtain ⟨cs, q, d⟩ := t
      obtain rfl : q = _ := hn.1
      have hrefuse : (Spec.queue T capacity).step ⟨cs, .pending .cannotAlloc x n, d⟩
          (.inner .refuse) = some ⟨cs, .answered false, d⟩ := if_pos hcap
      exact Related.after hrefuse ⟨hl, hz, hc, rfl, hk⟩

theorem produce_advance (h : Related maxBlockSize capacity m (.advance x blk) c t used free vals)
    (hs : produce ⟨m, .advance x blk, c⟩ = some s') :
    Simulated maxBlockSize capacity t s' := by
  obtain ⟨hl, hz, hc, ⟨ha, rfl, hf, hne⟩, hk⟩ := h
  obtain ⟨nb, free, rfl⟩ := List.exists_cons_of_ne_nil hne
  let f : Block T → Block T := fun b => { b with localFront := b.front }
  have hself : (m.modify nb f).heap nb = f (m.heap nb) := Members.modify_heap_self
  have hmem : nb ∈ used ++ nb :: free := List.mem_append_right _ List.mem_cons_self
  have hnext : (m.heap m.tailBlock).next = some nb := hl.next_tailBlock
  unfold produce at hs
  dsimp only at hs
  rw [hnext] at hs
  cases hs
  refine Related.stay (m := m.modify nb f)
    ⟨hl.touch f hmem rfl rfl fun h => h.readFront, hz.modify _ rfl, hc,
      ⟨ha, ?_, ⟨rfl, ?_⟩, ?_⟩, hk.kept (Kept.touch nb f rfl rfl rfl) hl⟩
  · exact hf.modify nb rfl
  · rw [hself]
  · rw [hself]

theorem produce_readTail
    (h : Related maxBlockSize capacity m (.readTail x nb nextBlockFront) c t used free vals)
    (hs : produce ⟨m, .readTail x nb nextBlockFront, c⟩ = some s') :
    Simulated maxBlockSize capacity t s' := by
  obtain ⟨hl, hz, hc, ⟨ha, hf, ⟨hhead, hlf⟩, rfl⟩, hk⟩ := h
  let f : Block T → Block T := fun b => { b with localFront := (m.heap nb).front }
  have hself : (m.modify nb f).heap nb = f (m.heap nb) := Members.modify_heap_self
  have hmem : nb ∈ used ++ free := List.mem_append_right _ (List.mem_of_mem_head? hhead)
  have hfun : f (m.heap nb) = { m.heap nb with localFront := (m.heap nb).front } := rfl
  unfold produce at hs
  dsimp only at hs
  split at hs
  · cases hs
    refine Related.stay (m := m.modify nb f)
      ⟨hl.touch f hmem rfl rfl fun h => hfun ▸ h.readFront, hz.modify _ rfl, hc,
        ⟨ha, hf.modify nb rfl, ⟨hhead, ?_⟩, ?_⟩, hk.kept (Kept.touch nb f rfl rfl rfl) hl⟩
    · rw [hself]
    · rw [hself]
  · cases hs

theorem produce_writeNext
    (h : Related maxBlockSize capacity m (.writeNext x nb nextBlockTail) c t used free vals)
    (hs : produce ⟨m, .writeNext x nb nextBlockTail, c⟩ = some s') :
    Simulated maxBlockSize capacity t s' := by
  obtain ⟨hl, hz, hc, ⟨ha, hf, ⟨hhead, hlf⟩, rfl⟩, hk⟩ := h
  let f : Block T → Block T := fun b =>
    { b with data := Function.update b.data (m.heap nb).tail (some x) }
  have hself : (m.modify nb f).heap nb = f (m.heap nb) := Members.modify_heap_self
  have hmem : nb ∈ used ++ free := List.mem_append_right _ (List.mem_of_mem_head? hhead)
  cases hs
  refine Related.stay (m := m.modify nb f)
    ⟨hl.write f rfl hmem, hz.modify _ rfl, hc, ⟨ha, hf.modify nb rfl, ⟨hhead, ?_⟩, ?_⟩,
      hk.kept (Kept.touch nb f rfl rfl rfl) hl⟩
  · rw [hself]
    exact hlf
  · rw [hself]

theorem produce_publishNext
    (h : Related maxBlockSize capacity m (.publishNext x nb nextBlockTail) c t used free vals)
    (hs : produce ⟨m, .publishNext x nb nextBlockTail, c⟩ = some s') :
    Simulated maxBlockSize capacity t s' := by
  obtain ⟨hl, hz, hc, ⟨ha, hf, ⟨hhead, hlf⟩, rfl⟩, hk⟩ := h
  let f : Block T → Block T := fun b =>
    { b with tail := ((m.heap nb).tail + 1) &&& b.sizeMask }
  have hfree : nb ∈ free := List.mem_of_mem_head? hhead
  have hmem : nb ∈ used ++ free := List.mem_append_right _ hfree
  have hnil : vals nb = [] := hl.free_eq_nil nb hfree nofun
  have hused : nb ∉ used := Left.not_mem_used hl hhead
  have hroom : ((m.heap nb).tail + 1) &&& (m.heap nb).sizeMask ≠ (m.heap nb).localFront :=
    (hl.holds nb hmem).room_of_nil hnil hlf
  have hnext : vals nb ++ [x] = [x] := by rw [hnil, List.nil_append]
  cases hs
  refine Related.stay (m := m.modify nb f)
    ⟨hl.publish f (some nb) rfl hroom (Or.inr ⟨hfree, rfl⟩), hz.modify _ rfl, ?_,
      ⟨ha, ?_, hhead, ?_⟩, hk.kept (Kept.modify nb f _ rfl rfl rfl (List.prefix_append _ _)
        fun hu => absurd hu hused) hl⟩
  · rw [Layout.flatMap_update_of_not_mem hused, hc]
  · have hne : m.tailBlock ≠ nb := fun he => hused (he ▸ hl.tailBlock_mem)
    exact (hf.modify nb rfl).congr (Function.update_of_ne hne _ _)
  · rw [Function.update_self, hnext]

theorem produce_link (h : Related maxBlockSize capacity m (.link x blk nb) c t used free vals)
    (hs : produce ⟨m, .link x blk nb, c⟩ = some s') :
    Simulated maxBlockSize capacity t s' := by
  obtain ⟨hl, hz, hc, ⟨ha, rfl, hf, hn⟩, hk⟩ := h
  let f : Block T → Block T := fun b => { b with next := some nb }
  have hl' := hl.link hn.not_mem hn.lt_blocks hn.next hn.holds
  have hnot : ∀ b ∈ used, b ≠ nb := fun b hb he =>
    hn.not_mem (he ▸ List.mem_append_left _ hb)
  have hne : used ++ free ≠ [] := List.ne_nil_of_mem (hl.used_subset hl.frontBlock_mem)
  have hvals : ∀ b ∈ used, Function.update vals nb [x] b = vals b := fun b hb =>
    Function.update_of_ne (hnot b hb) _ _
  cases hs
  refine Related.stay (m := m.modify m.tailBlock f)
    ⟨hl', ?_, ?_, ⟨Or.inr ha, ?_, rfl, Function.update_self ..⟩, ?_⟩
  · exact ((hz.cons hne hn.size).congr List.perm_middle rfl rfl fun _ _ => rfl).modify _ rfl
  · rw [hc, Layout.flatMap_update_of_not_mem fun hu => hnot nb hu rfl]
  · exact (hf.modify m.tailBlock rfl).congr (hvals _ hl.tailBlock_mem)
  · refine hk.kept { (Kept.touch m.tailBlock f rfl rfl rfl : Kept m _ used used vals vals) with
      vals_prefix := fun b hb => ?_, vals_eq := fun b hb _ => hvals b hb } hl
    rw [hvals b hb]

theorem produce_moveTail (h : Related maxBlockSize capacity m (.moveTail x nb) c t used free vals)
    (hs : produce ⟨m, .moveTail x nb, c⟩ = some s') :
    Simulated maxBlockSize capacity t s' := by
  obtain ⟨hl, hz, hc, ⟨ha, hf, hhead, hv⟩, hk⟩ := h
  obtain ⟨free, rfl⟩ := List.head?_eq_some_iff.mp hhead
  have hused : nb ∉ used := Left.not_mem_used hl hhead
  have hl' := hl.advanceTail (by rw [hv]; simp) hf
  cases hs
  refine Related.after (m := { m with tailBlock := nb }) ha.insert
    ⟨hl', hz.congr ?_ rfl rfl fun _ _ => rfl, ?_, rfl, hk.kept ?_ hl⟩
  · rw [List.append_assoc]
    exact List.Perm.refl _
  · rw [List.flatMap_append, List.flatMap_singleton, hv, ← hc]
  · exact { (Kept.refl : Kept m m used used vals vals) with
      used_prefix := List.prefix_append _ _
      tailBlock := fun (he : nb = m.frontBlock) => absurd hl.frontBlock_mem (he ▸ hused) }

end Related

/-- **Every step of the producer is simulated.** -/
theorem Related.produce (h : Related maxBlockSize capacity m l c t used free vals)
    (hs : produce ⟨m, l, c⟩ = some s') : Simulated maxBlockSize capacity t s' := by
  cases l with
  | idle => cases hs
  | start mode x => exact h.produce_start hs
  | readFront mode x blk blockTail nextBlockTail => exact h.produce_readFront hs
  | write x blk blockTail nextBlockTail => exact h.produce_write hs
  | publish x blk nextBlockTail => exact h.produce_publish hs
  | full mode x blk => exact h.produce_full hs
  | advance x blk => exact h.produce_advance hs
  | readTail x nb nextBlockFront => exact h.produce_readTail hs
  | writeNext x nb nextBlockTail => exact h.produce_writeNext hs
  | publishNext x nb nextBlockTail => exact h.produce_publishNext hs
  | alloc x blk => cases hs
  | link x blk nb => exact h.produce_link hs
  | moveTail x nb => exact h.produce_moveTail hs
  | answer ok => cases hs

/-! ## The consumer -/

namespace Related

theorem consume_start (h : Related maxBlockSize capacity m l (.start op) t used free vals)
    (hs : consume ⟨m, l, .start op⟩ = some s') : Simulated maxBlockSize capacity t s' := by
  obtain ⟨hl, hz, hc, hp, ha⟩ := h
  unfold consume at hs
  dsimp only at hs
  split at hs
  · rename_i hne
    cases hs
    refine Related.stay ⟨?_, hz, hc, hp, atElement_ok hl ha hne⟩
    rw [Op.moved_atElement]
    exact hl
  · cases hs
    exact Related.stay ⟨hl, hz, hc, hp, ha, rfl, rfl⟩

theorem consume_readTail {blockFront : ℕ}
    (h : Related maxBlockSize capacity m l (.readTail op blk blockFront) t used free vals)
    (hs : consume ⟨m, l, .readTail op blk blockFront⟩ = some s') :
    Simulated maxBlockSize capacity t s' := by
  obtain ⟨hl, hz, hc, hp, ha, rfl, rfl⟩ := h
  let f : Block T → Block T := fun b => { b with localTail := b.tail }
  have hmem := hl.used_subset hl.frontBlock_mem
  have hl' := hl.touch f hmem rfl rfl fun h => h.readTail
  have hz' := hz.modify m.frontBlock (f := f) rfl
  have hp' := hp.left (Left.touch m.frontBlock f hl.frontBlock_mem rfl rfl rfl rfl) hl
  have hself : (m.modify m.frontBlock f).heap m.frontBlock = f (m.heap m.frontBlock) :=
    Members.modify_heap_self
  unfold consume at hs
  dsimp only at hs
  split at hs
  · rename_i hne
    cases hs
    have hok := atElement_ok hl' (show Asked used vals t.consumer op from ha) (by
      rw [Members.modify_frontBlock, hself]
      exact hne)
    rw [Members.modify_frontBlock, hself] at hok
    refine Related.stay (m := m.modify m.frontBlock f) ⟨?_, hz', hc, hp', hok⟩
    rw [Op.moved_atElement]
    exact hl'
  · rename_i he
    cases hs
    have hv := (hl.holds _ hmem).eq_nil_iff.mpr (not_not.mp he)
    exact Related.stay (m := m.modify m.frontBlock f)
      ⟨hl', hz', hc, hp', ha, rfl, wasEmpty hl' ha hv⟩

theorem consume_readTailBlock
    (h : Related maxBlockSize capacity m l (.readTailBlock op blk) t used free vals)
    (hs : consume ⟨m, l, .readTailBlock op blk⟩ = some s') :
    Simulated maxBlockSize capacity t s' := by
  obtain ⟨hl, hz, hc, hp, ha, rfl, hw⟩ := h
  unfold consume at hs
  dsimp only at hs
  split at hs
  · rename_i hne
    cases hs
    exact Related.stay ⟨hl, hz, hc, hp, ha, Ne.symm hne⟩
  · rename_i he
    cases hs
    have hw := hw (not_not.mp he).symm
    have hl' : Layout m used free vals (op.atEmpty : Consumer T).moved l.extra l.ahead := by
      rw [Op.moved_atEmpty]
      exact hl
    obtain ⟨cs, q, d⟩ := t
    obtain rfl : d = .pending op true := hw
    cases op with
    | peek => exact Related.stay ⟨hl', hz, hc, hp, rfl⟩
    | tryDequeue => exact Related.after (e := .empty) rfl ⟨hl', hz, hc, hp, rfl⟩
    | pop => exact Related.after (e := .empty) rfl ⟨hl', hz, hc, hp, rfl⟩

theorem consume_reread (h : Related maxBlockSize capacity m l (.reread op) t used free vals)
    (hs : consume ⟨m, l, .reread op⟩ = some s') : Simulated maxBlockSize capacity t s' := by
  obtain ⟨hl, hz, hc, hp, ha, ht⟩ := h
  let f : Block T → Block T := fun b => { b with localTail := b.tail }
  have hmem := hl.used_subset hl.frontBlock_mem
  have hl' := hl.touch f hmem rfl rfl fun h => h.readTail
  have hz' := hz.modify m.frontBlock (f := f) rfl
  have hp' := hp.left (Left.touch m.frontBlock f hl.frontBlock_mem rfl rfl rfl rfl) hl
  have hself : (m.modify m.frontBlock f).heap m.frontBlock = f (m.heap m.frontBlock) :=
    Members.modify_heap_self
  unfold consume at hs
  dsimp only at hs
  split at hs
  · rename_i hne
    cases hs
    have hok := atElement_ok hl' (show Asked used vals t.consumer op from ha) (by
      rw [Members.modify_frontBlock, hself]
      exact hne)
    rw [Members.modify_frontBlock, hself] at hok
    refine Related.stay (m := m.modify m.frontBlock f) ⟨?_, hz', hc, hp', hok⟩
    rw [Op.moved_atElement]
    exact hl'
  · rename_i he
    cases hs
    have hv := (hl.holds _ hmem).eq_nil_iff.mpr (not_not.mp he)
    exact Related.stay (m := m.modify m.frontBlock f) ⟨hl', hz', hc, hp', ha, rfl, ht, hv⟩

theorem consume_readNext
    (h : Related maxBlockSize capacity m l (.readNext op blk) t used free vals)
    (hs : consume ⟨m, l, .readNext op blk⟩ = some s') :
    Simulated maxBlockSize capacity t s' := by
  obtain ⟨hl, hz, hc, hp, ha, rfl, ht, hv⟩ := h
  obtain ⟨nb, rest, rfl⟩ := hl.exists_used_eq_cons_cons ht
  unfold consume at hs
  dsimp only at hs
  rw [hl.next_frontBlock] at hs
  cases hs
  exact Related.stay ⟨hl, hz, hc, hp, ha, ⟨hv, rest, rfl⟩, rfl⟩

theorem consume_readNextTail
    (h : Related maxBlockSize capacity m l (.readNextTail op nb nextBlockFront) t used free vals)
    (hs : consume ⟨m, l, .readNextTail op nb nextBlockFront⟩ = some s') :
    Simulated maxBlockSize capacity t s' := by
  obtain ⟨hl, hz, hc, hp, ha, hn, rfl⟩ := h
  let f : Block T → Block T := fun b => { b with localTail := b.tail }
  have hused := Kept.next_mem hn
  have hself : (m.modify nb f).heap nb = f (m.heap nb) := Members.modify_heap_self
  unfold consume at hs
  dsimp only at hs
  split at hs
  · cases hs
  · rename_i hne
    split at hs
    · rename_i hop
      subst hop
      cases hs
      exact Related.stay ⟨hl, hz, hc, hp, ha, Or.inr ⟨nb, hn, rfl⟩⟩
    · rename_i hop
      cases hs
      refine Related.stay (m := m.modify nb f)
        ⟨hl.touch f (hl.used_subset hused) rfl rfl fun h => h.readTail, hz.modify _ rfl, hc,
          hp.left (Left.touch nb f hused rfl rfl rfl rfl) hl, ⟨hop, ha, ?_⟩, hn, ?_⟩
      · rw [hself]
        exact hne
      · rw [hself]

theorem consume_moveFront
    (h : Related maxBlockSize capacity m l (.moveFront op nb nextBlockFront) t used free vals)
    (hs : consume ⟨m, l, .moveFront op nb nextBlockFront⟩ = some s') :
    Simulated maxBlockSize capacity t s' := by
  obtain ⟨hl, hz, hc, hp, ⟨hop, ha, hne⟩, ⟨hv, rest, rfl⟩, rfl⟩ := h
  have hleft := Left.advanceFront hl hv
  have hflat : (m.frontBlock :: nb :: rest).flatMap vals = (nb :: rest).flatMap vals := by
    show vals m.frontBlock ++ (nb :: rest).flatMap vals = _
    rw [hv, List.nil_append]
  cases hs
  refine Related.stay (m := { m with frontBlock := nb })
    ⟨hl.advanceFront hv, hz.congr hleft.ring rfl rfl fun _ _ => rfl, hc.trans hflat,
      hp.left hleft hl, ⟨hop, ?_, hne⟩, rfl, rfl⟩
  obtain ⟨w, hq, hw⟩ := ha
  exact ⟨w, hq, hflat ▸ hw⟩

theorem consume_take {blockFront : ℕ}
    (h : Related maxBlockSize capacity m l (.take op blk blockFront) t used free vals)
    (hs : consume ⟨m, l, .take op blk blockFront⟩ = some s') :
    Simulated maxBlockSize capacity t s' := by
  obtain ⟨hl, hz, hc, hp, ⟨hop, ha, hne⟩, rfl, rfl⟩ := h
  let f : Block T → Block T := fun b =>
    { b with data := Function.update b.data (m.heap m.frontBlock).front none }
  have hholds := hl.holds _ (hl.used_subset hl.frontBlock_mem)
  have hself : (m.modify m.frontBlock f).heap m.frontBlock = f (m.heap m.frontBlock) :=
    Members.modify_heap_self
  have hnil := hholds.ne_nil hne
  obtain ⟨v, vs, hv⟩ := List.exists_cons_of_ne_nil hnil
  rw [hv] at hholds
  unfold consume at hs
  dsimp only at hs
  rw [Block.Holds.front_eq hholds] at hs
  cases hs
  refine Related.stay (m := m.modify m.frontBlock f)
    ⟨hl.take f rfl hnil, hz.modify _ rfl, hc,
      hp.left (Left.touch m.frontBlock f hl.frontBlock_mem rfl rfl rfl rfl) hl,
      ⟨hop, ha, ?_⟩, rfl, ?_, ?_⟩
  · rw [hself]
    exact hne
  · rw [hself]
  · rw [Members.modify_frontBlock, hv]
    rfl

/-- The specification gives out the oldest element. -/
theorem respond {cs : List T} {w : Bool} {q : Spec.Producer T} (hop : op ≠ .peek) :
    (Spec.queue T capacity).step ⟨x :: cs, q, .pending op w⟩ (.inner .respond) =
      some ⟨cs, q, .answered (op.found x)⟩ := by
  cases op with
  | peek => exact absurd rfl hop
  | tryDequeue => rfl
  | pop => rfl

theorem consume_publish {blockFront : ℕ} {element : T}
    (h : Related maxBlockSize capacity m l (.publish op blk blockFront element) t used free vals)
    (hs : consume ⟨m, l, .publish op blk blockFront element⟩ = some s') :
    Simulated maxBlockSize capacity t s' := by
  obtain ⟨hl, hz, hc, hp, ⟨hop, ⟨w, hq, -⟩, hne⟩, rfl, rfl, hv⟩ := h
  obtain ⟨vs, hv⟩ := List.head?_eq_some_iff.mp hv
  let f : Block T → Block T := fun b =>
    { b with front := ((m.heap m.frontBlock).front + 1) &&& (m.heap m.frontBlock).sizeMask }
  obtain ⟨cs, q, d⟩ := t
  obtain rfl : d = .pending op w := hq
  obtain rfl : cs = _ := hc.trans (hl.flatMap_update_frontBlock hv)
  cases hs
  exact Related.after (m := m.modify m.frontBlock f) (respond hop)
    ⟨hl.pop f rfl hne hv, hz.modify _ rfl, rfl,
      hp.left (Left.pop f hl hv rfl rfl rfl rfl) hl, rfl⟩

/-- **Every step of the consumer is simulated.** -/
theorem consume (h : Related maxBlockSize capacity m l c t used free vals)
    (hs : ReaderWriterQueue.consume ⟨m, l, c⟩ = some s') :
    Simulated maxBlockSize capacity t s' := by
  cases c with
  | idle held => cases hs
  | start op => exact h.consume_start hs
  | readTail op blk blockFront => exact h.consume_readTail hs
  | readTailBlock op blk => exact h.consume_readTailBlock hs
  | reread op => exact h.consume_reread hs
  | readNext op blk => exact h.consume_readNext hs
  | readNextTail op nb nextBlockFront => exact h.consume_readNextTail hs
  | moveFront op nb nextBlockFront => exact h.consume_moveFront hs
  | take op blk blockFront => exact h.consume_take hs
  | publish op blk blockFront element => exact h.consume_publish hs
  | pointer p => cases hs
  | answer r => cases hs

end Related

/-! ## Calls and returns -/

variable (maxBlockSize capacity) in
/-- **How the code stands to the specification.** -/
def Rel (s : State T) (t : Spec.State T) : Prop :=
  ∃ used free vals,
    Related maxBlockSize capacity s.toMembers s.producer s.consumer t used free vals

/-- A pointer is returned for what it points to. -/
theorem step_returned_pointer {r : Answer T} {q : ℕ × ℕ} (hv : m.deref q = some x) :
    step maxBlockSize ⟨m, l, .pointer (some q)⟩ (.event (.returned r)) =
      if r = .peeked (some x) then some ⟨m, l, .idle (some q)⟩ else none := by
  unfold step
  dsimp only
  rw [hv]

namespace Related

theorem malloc (h : Related maxBlockSize capacity m l c t used free vals)
    (hs : allocate maxBlockSize ⟨m, l, c⟩ ok = some s') :
    ∃ t', (Spec.queue T capacity).step t (.event (.malloc ok)) = some t' ∧
      Rel maxBlockSize capacity s' t' := by
  obtain ⟨hl, hz, hc, hp, hk⟩ := h
  cases l with
  | alloc x blk =>
    obtain ⟨⟨n, hn, hcap⟩, rfl, hf⟩ := hp
    obtain ⟨cs, q, d⟩ := t
    obtain rfl : q = .pending .canAlloc x n := hn
    cases ok with
    | false =>
      cases hs
      exact ⟨_, if_pos hcap, used, free, vals, hl, hz, hc, rfl, hk⟩
    | true =>
      obtain ⟨hle, hmax, k, hk'⟩ := hz.le_newBlockSize
      have hfits := (hmax.trans_lt hz.fits).le
      have hne : ∀ b ∈ used ++ free, b ≠ m.blocks := fun b hb => (hl.lt_blocks b hb).ne
      have hheap : ∀ nb, ∀ b ∈ used ++ free, Function.update m.heap m.blocks nb b = m.heap b :=
        fun nb b hb => Function.update_of_ne (hne b hb) _ _
      have hu : ∀ nb, ∀ b ∈ used, Function.update m.heap m.blocks nb b = m.heap b :=
        fun nb b hb => hheap nb b (hl.used_subset hb)
      have htb := hu (newBlock (newBlockSize maxBlockSize m.largestBlockSize) x
        (m.heap m.tailBlock).next) _ hl.tailBlock_mem
      cases hs
      refine ⟨_, if_pos hcap, used, free, vals, hl.allocate _ _, hz.allocate hl.lt_blocks _, hc,
        ⟨rfl, rfl, fun ht => ?_, ?_⟩, hk.kept ?_ hl⟩
      · exact (hf ht).trans (congrArg Block.sizeMask htb).symm
      · refine ⟨fun hmem => hne _ hmem rfl, Nat.lt_succ_self _, ?_, ?_, ?_⟩
        · show (Function.update m.heap m.blocks _ m.blocks).next =
            (Function.update m.heap m.blocks _ m.tailBlock).next
          rw [Function.update_self, htb]
          rfl
        · show (Function.update m.heap m.blocks _ m.blocks).Holds _ _ _
          rw [Function.update_self]
          exact holds_newBlock hk' hfits x _
        · show (Function.update m.heap m.blocks _ m.blocks).size = _
          rw [Function.update_self]
          exact newBlock_size (hk' ▸ Nat.two_pow_pos _) hfits x _
      · exact { (Kept.refl : Kept m m used used vals vals) with
          front := fun b hb => congrArg Block.front (hu _ b hb)
          localTail := fun b hb => congrArg Block.localTail (hu _ b hb)
          sizeMask := fun b hb => congrArg Block.sizeMask (hu _ b hb) }
  | idle => cases hs
  | start mode x => cases hs
  | readFront mode x blk blockTail nextBlockTail => cases hs
  | write x blk blockTail nextBlockTail => cases hs
  | publish x blk nextBlockTail => cases hs
  | full mode x blk => cases hs
  | advance x blk => cases hs
  | readTail x nb nextBlockFront => cases hs
  | writeNext x nb nextBlockTail => cases hs
  | publishNext x nb nextBlockTail => cases hs
  | link x blk nb => cases hs
  | moveTail x nb => cases hs
  | answer ok => cases hs

/-- A call or a return of the producer. -/
theorem producer_event (h : Related maxBlockSize capacity m l c t used free vals) :
    (∀ mode x, step maxBlockSize ⟨m, l, c⟩ (.event (.enqueue mode x)) = some s' →
      ∃ t', (Spec.queue T capacity).step t (.event (.enqueue mode x)) = some t' ∧
        Rel maxBlockSize capacity s' t') ∧
    ∀ ok, step maxBlockSize ⟨m, l, c⟩ (.event (.enqueued ok)) = some s' →
      ∃ t', (Spec.queue T capacity).step t (.event (.enqueued ok)) = some t' ∧
        Rel maxBlockSize capacity s' t' := by
  obtain ⟨hl, hz, hc, hp, hk⟩ := h
  obtain ⟨cs, q, d⟩ := t
  constructor
  · intro mode x hs
    cases l with
    | idle =>
      obtain rfl : q = .idle := hp
      cases hs
      exact ⟨_, rfl, used, free, vals, hl, hz, hc, ⟨_, rfl, hc ▸ le_rfl⟩, hk⟩
    | start | readFront | write | publish | full | advance | readTail | writeNext
    | publishNext | alloc | link | moveTail | answer => cases hs
  · intro ok hs
    cases l with
    | answer ok' =>
      obtain rfl : q = .answered ok' := hp
      by_cases he : ok = ok'
      · have hs' := (if_pos he).symm.trans hs
        cases hs'
        exact ⟨_, if_pos he, used, free, vals, hl, hz, hc, rfl, hk⟩
      · cases (if_neg he).symm.trans hs
    | idle | start | readFront | write | publish | full | advance | readTail | writeNext
    | publishNext | alloc | link | moveTail => cases hs

/-- A call of the consumer. -/
theorem call (h : Related maxBlockSize capacity m l c t used free vals)
    (hs : step maxBlockSize ⟨m, l, c⟩ (.event (.call op)) = some s') :
    ∃ t', (Spec.queue T capacity).step t (.event (.call op)) = some t' ∧
      Rel maxBlockSize capacity s' t' := by
  obtain ⟨hl, hz, hc, hp, hk⟩ := h
  obtain ⟨cs, q, d⟩ := t
  cases c with
  | idle held =>
    obtain ⟨rfl : d = .idle, -⟩ := hk
    cases hs
    exact ⟨_, rfl, used, free, vals, hl, hz, hc, hp, asked_call hc⟩
  | start | readTail | readTailBlock | reread | readNext | readNextTail | moveFront | take
  | publish | pointer | answer => cases hs

/-- A return of the consumer: where a pointer is returned, the
specification looks at the oldest element then. -/
theorem returned {r : Answer T} (h : Related maxBlockSize capacity m l c t used free vals)
    (hs : step maxBlockSize ⟨m, l, c⟩ (.event (.returned r)) = some s') :
    ∃ bs t', (Spec.queue T capacity).run t bs = some t' ∧ Act.history bs = [.returned r] ∧
      Rel maxBlockSize capacity s' t' := by
  obtain ⟨hl, hz, hc, hp, hk⟩ := h
  obtain ⟨cs, q, d⟩ := t
  cases c with
  | answer r' =>
    obtain rfl : d = .answered r' := hk
    by_cases he : r = r'
    · cases (if_pos he).symm.trans hs
      refine ⟨[.event (.returned r)], ⟨cs, q, .idle⟩, ?_, rfl, used, free, vals, hl, hz, hc, hp,
        rfl, nofun⟩
      rw [Machine.run_singleton]
      exact if_pos he
    · cases (if_neg he).symm.trans hs
  | pointer p =>
    cases p with
    | none =>
      obtain rfl : d = .pending .peek true := hk
      by_cases he : r = .peeked none
      · cases (if_pos he).symm.trans hs
        refine ⟨[.inner .empty, .event (.returned r)], ⟨cs, q, .idle⟩, ?_, rfl, used, free, vals,
          hl, hz, hc, hp, rfl, nofun⟩
        exact (Machine.run_singleton (M := Spec.queue T capacity)
          (s := ⟨cs, q, .answered (.peeked none)⟩)).trans (if_pos he)
      · cases (if_neg he).symm.trans hs
    | some p =>
      obtain ⟨⟨w, rfl : d = _, -⟩, hpt⟩ := hk
      obtain ⟨v, vs, hflat, hv⟩ := hpt.deref hl
      obtain rfl : cs = v :: vs := hc.trans hflat
      rw [step_returned_pointer hv] at hs
      by_cases he : r = .peeked (some v)
      · rw [if_pos he] at hs
        cases hs
        refine ⟨[.inner .respond, .event (.returned r)], ⟨v :: vs, q, .idle⟩, ?_, rfl, used,
          free, vals, hl, hz, hc, hp, rfl, ?_⟩
        · exact (Machine.run_singleton (M := Spec.queue T capacity)
            (s := ⟨v :: vs, q, .answered (.peeked (some v))⟩)).trans (if_pos he)
        · rintro _ ⟨⟩
          exact hpt
      · rw [if_neg he] at hs
        cases hs
  | idle | start | readTail | readTailBlock | reread | readNext | readNextTail | moveFront
  | take | publish => cases hs

end Related

/-- **Every step of the queue is simulated.** -/
theorem Rel.step {s : State T} {a : Act (Event T) Side} (h : Rel maxBlockSize capacity s t)
    (hs : ReaderWriterQueue.step maxBlockSize s a = some s') :
    ∃ bs t', (Spec.queue T capacity).run t bs = some t' ∧ Act.history bs = a.event?.toList ∧
      Rel maxBlockSize capacity s' t' := by
  obtain ⟨used, free, vals, h⟩ := h
  obtain ⟨m, l, c⟩ := s
  have hevent : ∀ {e : Event T}, (∃ t', (Spec.queue T capacity).step t (.event e) = some t' ∧
      Rel maxBlockSize capacity s' t') → ∃ bs t', (Spec.queue T capacity).run t bs = some t' ∧
      Act.history bs = [e] ∧ Rel maxBlockSize capacity s' t' := by
    rintro e ⟨t', ht, hR⟩
    exact ⟨[.event e], t', Machine.run_singleton.trans ht, rfl, hR⟩
  have hinner : Simulated maxBlockSize capacity t s' →
      ∃ bs t', (Spec.queue T capacity).run t bs = some t' ∧ Act.history bs = [] ∧
        Rel maxBlockSize capacity s' t' := by
    rintro ⟨bs, t', used, free, vals, hb, hh, hR⟩
    exact ⟨bs, t', hb, hh, used, free, vals, hR⟩
  rcases a with e | side
  · cases e with
    | enqueue mode x => exact hevent (h.producer_event.1 mode x hs)
    | malloc ok => exact hevent (h.malloc hs)
    | enqueued ok => exact hevent (h.producer_event.2 ok hs)
    | call op => exact hevent (h.call hs)
    | returned r => exact h.returned hs
  · cases side with
    | producer => exact hinner (h.produce hs)
    | consumer => exact hinner (h.consume hs)

end ReaderWriterQueue

end TestBuffer
