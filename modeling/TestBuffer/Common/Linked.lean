import Mathlib.Data.List.Cycle
/-!
# Circular linked lists

`Linked next l` says that following `next` from any node of `l` leads
through `l` in order and from its last node back to its first. Where the
walk begins does not matter (`linked_rotate`), a node can be linked in
after another (`Linked.insert`), and what a node links to is read off its
place (`Linked.next_eq`).
-/

namespace TestBuffer

variable {ι : Type*}

/-- **A circular linked list**: the nodes in the order `next` visits them. -/
def Linked (next : ι → Option ι) (l : List ι) : Prop :=
  (l : Cycle ι).Chain fun a b => next a = some b

variable {next next' : ι → Option ι} {a b c : ι} {l u f : List ι}

theorem linked_cons : Linked next (a :: l) ↔
    List.IsChain (fun a b => next a = some b) (a :: (l ++ [a])) :=
  Cycle.chain_coe_cons _ a l

/-- The walk may begin at any node. -/
theorem linked_rotate : Linked next (a :: l) ↔ Linked next (l ++ [a]) := by
  unfold Linked
  rw [Cycle.coe_cons_eq_coe_append]

theorem linked_append_comm (h : Linked next (u ++ f)) : Linked next (f ++ u) := by
  induction u generalizing f with
  | nil => simpa using h
  | cons a u ih =>
    have h' : Linked next (u ++ (f ++ [a])) := by
      rw [← List.append_assoc]
      exact linked_rotate.mp h
    have := ih h'
    rwa [List.append_assoc] at this

/-- **What a node links to**: the node after it. -/
theorem Linked.next_eq (h : Linked next (u ++ a :: b :: f)) : next a = some b := by
  have h' := linked_append_comm h
  rw [List.cons_append, linked_cons, List.cons_append, List.cons_append] at h'
  exact (List.isChain_cons_cons.mp h').1

/-- The last node links to the first. -/
theorem Linked.next_last (h : Linked next (a :: u ++ [b])) : next b = some a := by
  have h' : Linked next (b :: a :: u) := linked_rotate.mpr h
  exact h'.next_eq (u := [])

/-- The only node links to itself. -/
theorem Linked.next_self (h : Linked next [a]) : next a = some a :=
  (Cycle.chain_singleton _ a).mp h

/-- A walk that follows links only from the nodes of `l`. -/
theorem isChain_concat_congr (h : List.IsChain (fun a b => next a = some b) (l ++ [c]))
    (hn : ∀ a ∈ l, next' a = next a) :
    List.IsChain (fun a b => next' a = some b) (l ++ [c]) := by
  induction l with
  | nil => exact List.isChain_singleton c
  | cons a l ih =>
    obtain ⟨hhead, htail⟩ := List.isChain_cons.mp h
    refine List.isChain_cons.mpr ⟨fun b hb => ?_, ih htail fun b hb => ?_⟩
    · rw [hn a List.mem_cons_self]
      exact hhead b hb
    · exact hn b (List.mem_cons_of_mem a hb)

/-- Links that are the same on the nodes make the same list. -/
theorem Linked.congr (h : Linked next l) (hn : ∀ a ∈ l, next' a = next a) : Linked next' l := by
  cases l with
  | nil => exact h
  | cons a l =>
    rw [linked_cons] at h ⊢
    exact isChain_concat_congr (l := a :: l) h hn

/-- **Linking a node in**: `b`, linked to what `a` linked to, goes after
`a`. -/
theorem Linked.insert (h : Linked next (u ++ a :: f)) (hd : (u ++ a :: f).Nodup)
    (ha : next' a = some b) (hb : next' b = next a)
    (hn : ∀ c ∈ u ++ a :: f, c ≠ a → next' c = next c) :
    Linked next' (u ++ a :: b :: f) := by
  have h' : Linked next (a :: (f ++ u)) := linked_append_comm h
  suffices hs : Linked next' (a :: b :: (f ++ u)) from
    linked_append_comm (u := a :: b :: f) hs
  obtain ⟨hau, hfu⟩ : a ∉ u ∧ a ∉ f := by
    have := List.nodup_middle.mp hd
    rw [List.nodup_cons, List.mem_append, not_or] at this
    exact this.1
  rw [linked_cons] at h' ⊢
  obtain ⟨hfirst, hrest⟩ := List.isChain_cons.mp h'
  refine List.isChain_cons_cons.mpr ⟨ha, List.isChain_cons.mpr ⟨fun y hy => ?_, ?_⟩⟩
  · rw [hb]
    exact hfirst y hy
  · refine isChain_concat_congr hrest fun c hc => ?_
    rw [List.mem_append] at hc
    refine hn c ?_ ?_
    · rw [List.mem_append, List.mem_cons]
      tauto
    · rintro rfl
      exact hc.elim hfu hau

/-! ## Loops round the list -/

/-- **A loop that goes round once**: `do { body } while (next != first)`,
with fuel. -/
def doWhile {β : Type*} [DecidableEq ι] (next : ι → Option ι) (body : β → ι → Option β)
    (first : ι) : ℕ → ι → β → Option β
  | 0, _, _ => none
  | fuel + 1, a, b =>
    (body b a).bind fun b => (next a).bind fun a' =>
      if a' = first then some b else doWhile next body first fuel a' b

/-- **It visits every node once, in order**, given fuel for as many. -/
theorem doWhile_eq {β : Type*} [DecidableEq ι] {body : β → ι → Option β} {fuel : ℕ} {s : β}
    (h : Linked next (a :: l)) (hd : (a :: l).Nodup) (hf : l.length < fuel) :
    doWhile next body a fuel a s = (a :: l).foldlM body s := by
  suffices hs : ∀ c r fuel s, List.IsChain (fun a b => next a = some b) (c :: (r ++ [a])) →
      a ∉ r → r.length < fuel →
      doWhile next body a fuel c s = (c :: r).foldlM body s from
    hs a l fuel s (linked_cons.mp h) (List.nodup_cons.mp hd).1 hf
  intro c r
  induction r generalizing c with
  | nil =>
    intro fuel s hc _ hf
    obtain ⟨fuel, rfl⟩ := Nat.exists_eq_succ_of_ne_zero (Nat.ne_of_gt hf)
    have hnext : next c = some a := (List.isChain_cons_cons.mp hc).1
    rw [doWhile, List.foldlM_cons]
    cases body s c with
    | none => rfl
    | some s' => simp [hnext]
  | cons d r ih =>
    intro fuel s hc ha hf
    obtain ⟨fuel, rfl⟩ := Nat.exists_eq_succ_of_ne_zero (Nat.ne_of_gt (Nat.zero_lt_of_lt hf))
    obtain ⟨hnext, hc⟩ := List.isChain_cons_cons.mp hc
    have hda : d ≠ a := fun he => ha (he ▸ List.mem_cons_self)
    rw [doWhile, List.foldlM_cons]
    cases body s c with
    | none => rfl
    | some s' =>
      have := ih d fuel s' hc (fun hr => ha (List.mem_cons_of_mem _ hr)) (Nat.lt_of_succ_lt_succ hf)
      simpa [hnext, hda] using this

/-- **The list from a node is determined** by the links. -/
theorem Linked.unique (h : Linked next (a :: l)) (hd : (a :: l).Nodup)
    (h' : Linked next (a :: u)) (hd' : (a :: u).Nodup) : l = u := by
  classical
  have hcollect : ∀ (l s : List ι), l.foldlM (fun s b => some (s ++ [b])) s = some (s ++ l) := by
    intro l
    induction l with
    | nil => exact fun s => congrArg some (List.append_nil s).symm
    | cons b l ih =>
      intro s
      rw [List.foldlM_cons]
      exact (ih _).trans (by rw [List.append_assoc]; rfl)
  let walk := doWhile next (fun s b => some (s ++ [b])) a (l.length + u.length + 1) a []
  have hl : walk = some (a :: l) := (doWhile_eq h hd (by omega)).trans (hcollect _ _)
  have hu : walk = some (a :: u) := (doWhile_eq h' hd' (by omega)).trans (hcollect _ _)
  simpa using hl.symm.trans hu

/-- Two lists with a node in common are the same nodes. -/
theorem Linked.perm (h : Linked next l) (hd : l.Nodup) (h' : Linked next u) (hd' : u.Nodup)
    (hl : a ∈ l) (hu : a ∈ u) : l.Perm u := by
  obtain ⟨p, q, rfl⟩ := List.append_of_mem hl
  obtain ⟨p', q', rfl⟩ := List.append_of_mem hu
  have hp : (p ++ a :: q).Perm (a :: (q ++ p)) := List.perm_append_comm
  have hp' : (p' ++ a :: q').Perm (a :: (q' ++ p')) := List.perm_append_comm
  have he : q ++ p = q' ++ p' := (linked_append_comm h).unique (hp.nodup_iff.mp hd)
    (linked_append_comm h') (hp'.nodup_iff.mp hd')
  rw [he] at hp
  exact hp.trans hp'.symm

end TestBuffer
