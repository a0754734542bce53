import TestBuffer.Queue.Fifo
/-!
# `queue<T>` — how far the read index drifts

`m_unread` counts every push, also one that only overwrote, so it is off
the size by what the constructor left in it and the pushes that met a full
container, as a word. Where that drift is zero a pop reads the item it
removes. Otherwise what counts is how far back it reaches: seen as a
subtraction, the index is that many places nearer the front than the last
item, where the items are newer, and past the end where there are not so
many places (`Drifts`).
-/

namespace TestBuffer

namespace Queue

variable {T : Type*} {w : ℕ} {capacity garbage : BitVec w}
variable {o : Obj w T} {h : List (Event T)}

/-- `overwrites` counts the pushes that met a full container. -/
theorem overwrites_push {o' : Obj w T} {r : Event T} {x : T} (h : List (Event T))
    (hb : body (.push x) o = some (o', r)) :
    overwrites (r :: h) = overwrites h + o.queue.mContainer.full.toNat := by
  cases hb
  exact congrArg (overwrites h + ·) (o.queue.mContainer.length_spilled _)

/-! ## The index as a subtraction -/

/-- Where `-x` fits below `m`, adding `x` takes it off. -/
theorem toNat_add_of_le {x : BitVec w} {m : ℕ} (hm : m < 2 ^ w) (hle : (-x).toNat ≤ m) :
    (x + BitVec.ofNat w m).toNat = m - (-x).toNat := by
  have hofNat : (BitVec.ofNat w m).toNat = m :=
    (BitVec.toNat_ofNat m w).trans (Nat.mod_eq_of_lt hm)
  have hsub : x + BitVec.ofNat w m = BitVec.ofNat w m - -x := by
    rw [sub_neg_eq_add, add_comm]
  rw [hsub, BitVec.toNat_sub_of_le (BitVec.le_def.mpr (hle.trans_eq hofNat.symm)), hofNat]

/-- Where it does not, adding `x` wraps round to more than `m`. -/
theorem lt_toNat_add_of_lt {x : BitVec w} {m : ℕ} (hm : m < 2 ^ w) (hlt : m < (-x).toNat) :
    m < (x + BitVec.ofNat w m).toNat := by
  have hofNat : (BitVec.ofNat w m).toNat = m :=
    (BitVec.toNat_ofNat m w).trans (Nat.mod_eq_of_lt hm)
  have hsub : x + BitVec.ofNat w m = BitVec.ofNat w m - -x := by
    rw [sub_neg_eq_add, add_comm]
  have hword := (-x).isLt
  rw [hsub, BitVec.toNat_sub_of_lt (BitVec.lt_def.mpr (hofNat.trans_lt hlt)), hofNat]
  omega

theorem toNat_neg_eq_zero_iff {x : BitVec w} : (-x).toNat = 0 ↔ x = 0 := by
  rw [← neg_eq_zero (a := x)]
  exact ⟨fun h => BitVec.eq_of_toNat_eq (h.trans BitVec.toNat_zero.symm),
    fun h => h ▸ BitVec.toNat_zero⟩

/-- The items held are newest first. -/
theorem items_pairwise_of_runs (hr : (monitor w T).Runs ⟨.new capacity garbage, 0⟩ o h) :
    o.queue.mContainer.items.Pairwise fun i j => j.seq < i.seq := by
  induction hr with
  | new => exact .nil
  | @next o o' op r h hr hb ih =>
    obtain ⟨x, rfl, rfl, rfl⟩ | ⟨rfl, _, rfl, rfl⟩ | ⟨_, _, rfl, rfl⟩ := body_cases hb
    · have hsub : (o.queue.push ⟨o.pushes, x⟩).mContainer.items.Sublist
          (⟨o.pushes, x⟩ :: o.queue.mContainer.items) := List.take_sublist _ _
      exact (List.pairwise_cons.mpr ⟨(tracks_of_runs hr).seq_lt, ih⟩).sublist hsub
    · exact ih
    · exact ih.sublist (List.dropLast_sublist _)

/-! ## What the next pop reads -/

/-- A call of `try_pop` or `wait_and_pop` takes something, and leaves the
queue so. -/
def Pops (q q' : Queue w T) (t : Taken T) : Prop :=
  q.tryPop = (q', some t) ∨ q.waitAndPop = some (q', t)

/-- It takes on a container that is not empty. -/
theorem Pops.eq_take {q q' : Queue w T} {t : Taken T} (hp : q.Pops q' t) :
    q.mContainer.items ≠ [] ∧ q' = q.take.1 ∧ t = q.take.2 := by
  by_cases he : q.mContainer.items = []
  · rcases hp with hp | hp
    · rw [tryPop, if_pos he] at hp
      cases hp
    · rw [waitAndPop, if_pos he] at hp
      cases hp
  · rcases hp with hp | hp
    · rw [tryPop, if_neg he] at hp
      cases hp
      exact ⟨he, rfl, rfl⟩
    · rw [waitAndPop, if_neg he] at hp
      cases hp
      exact ⟨he, rfl, rfl⟩

/-- It returns an item newer than the one removed exactly where it reads
before the last index. -/
theorem take_newer_iff {q : Queue w (Item T)}
    (hsorted : q.mContainer.items.Pairwise fun i j => j.seq < i.seq) :
    (∃ i j, q.take.2.value = some i ∧ q.mContainer.back? = some j ∧ j.seq < i.seq) ↔
      q.take.2.index < q.mContainer.size - 1 := by
  have hvalue : q.take.2.value = q.mContainer.items[q.take.2.index]? := rfl
  rw [hvalue, Ring.back?_eq_get?, Ring.get?]
  rw [List.pairwise_iff_getElem] at hsorted
  constructor
  · rintro ⟨i, j, hi, hj, hlt⟩
    obtain ⟨hindex, rfl⟩ := List.getElem?_eq_some_iff.mp hi
    obtain ⟨hlast, rfl⟩ := List.getElem?_eq_some_iff.mp hj
    rcases Nat.lt_trichotomy q.take.2.index (q.mContainer.size - 1) with hbefore | heq | hafter
    · exact hbefore
    · simp only [heq, lt_irrefl] at hlt
    · rw [Ring.size] at hafter
      omega
  · intro hbefore
    have hlast : q.mContainer.size - 1 < q.mContainer.items.length := by
      rw [Ring.size] at hbefore ⊢
      omega
    exact ⟨_, _, List.getElem?_eq_getElem (hbefore.trans hlast), List.getElem?_eq_getElem hlast,
      hsorted _ _ _ hlast hbefore⟩

/-- **The drift of the read index**, `k` pushes having met a full
container. The next pop is right, reads a newer item than it removes, or
reads out of range, as `garbage + k` is zero, reaches back to another item
held, or neither. -/
structure Drifts (garbage : BitVec w) (k : ℕ) (o : Obj w T) : Prop where
  unread_eq : o.queue.mUnread =
    garbage + BitVec.ofNat w o.queue.mContainer.size + BitVec.ofNat w k
  /-- The next pop returns the item that its `pop_back` removes, -/
  returns_removed : ∀ q' t, o.queue.Pops q' t →
    (t.value = o.queue.mContainer.back? ↔ garbage + BitVec.ofNat w k = 0)
  /-- which is to read at the last index. -/
  reads_last : ∀ q' t, o.queue.Pops q' t →
    (t.index = o.queue.mContainer.size - 1 ↔ garbage + BitVec.ofNat w k = 0)
  /-- It returns an item newer than the one removed. -/
  returns_newer : ∀ q' t, o.queue.Pops q' t →
    ((∃ i j, t.value = some i ∧ o.queue.mContainer.back? = some j ∧ j.seq < i.seq) ↔
      1 ≤ (-(garbage + BitVec.ofNat w k)).toNat ∧
        (-(garbage + BitVec.ofNat w k)).toNat ≤ o.queue.mContainer.size - 1)
  /-- Its access to the container is out of range. -/
  out_of_range : ∀ q' t, o.queue.Pops q' t →
    (o.queue.mContainer.size ≤ t.index ↔ ¬ garbage + BitVec.ofNat w k = 0 ∧
      ¬ (1 ≤ (-(garbage + BitVec.ofNat w k)).toNat ∧
        (-(garbage + BitVec.ofNat w k)).toNat ≤ o.queue.mContainer.size - 1))

variable {Tid : Type*} [Fintype Tid] [DecidableEq Tid]
variable {s : Monitor.State Tid (Obj w T) (Op T) (Event T)}

/-- **The read index drifts by what the constructor left in `m_unread` and
the pushes that met a full container**, in every reachable state, so in
each that comes before the first access out of range. -/
theorem drifts (hs : (machine Tid T capacity garbage).Reachable s) :
    Drifts garbage (overwrites s.history) s.obj := by
  have hr := Monitor.runs_of_reachable hs
  have K := tracks_of_runs hr
  set x := garbage + BitVec.ofNat w (overwrites s.history) with hx
  -- the index reaches back by `-x` where there is room, and past the end where there is not
  have hread : ∀ q' t, s.obj.queue.Pops q' t → t = s.obj.queue.take.2 ∧
      0 < s.obj.queue.mContainer.size ∧
      ((-x).toNat ≤ s.obj.queue.mContainer.size - 1 ∧
          s.obj.queue.take.2.index = s.obj.queue.mContainer.size - 1 - (-x).toNat ∨
        s.obj.queue.mContainer.size - 1 < (-x).toNat ∧
          s.obj.queue.mContainer.size - 1 < s.obj.queue.take.2.index) := by
    intro q' t hp
    obtain ⟨hne, -, rfl⟩ := hp.eq_take
    have hlt := K.size_lt
    have hm : s.obj.queue.mContainer.size - 1 < 2 ^ w := by omega
    rw [take_index K.unread_eq hne]
    refine ⟨rfl, List.length_pos_iff.mpr hne, ?_⟩
    rcases Nat.lt_or_ge (s.obj.queue.mContainer.size - 1) (-x).toNat with hfar | hnear
    · exact Or.inr ⟨hfar, lt_toNat_add_of_lt hm hfar⟩
    · exact Or.inl ⟨hnear, toNat_add_of_le hm hnear⟩
  refine ⟨K.unread_eq.trans (add_right_comm _ _ _), ?_, ?_, ?_, ?_⟩
  · intro q' t hp
    obtain ⟨hne, -, rfl⟩ := hp.eq_take
    exact take_value_eq_back?_iff K.unread_eq hne K.size_lt K.nodup
  · intro q' t hp
    obtain ⟨rfl, hpos, hindex⟩ := hread q' t hp
    rw [← hx, ← toNat_neg_eq_zero_iff]
    omega
  · intro q' t hp
    obtain ⟨rfl, hpos, hindex⟩ := hread q' t hp
    rw [← hx, take_newer_iff (items_pairwise_of_runs hr)]
    omega
  · intro q' t hp
    obtain ⟨rfl, hpos, hindex⟩ := hread q' t hp
    rw [← hx, ← toNat_neg_eq_zero_iff]
    omega

/-- `m_unread` starts one short of zero: the pop after two pushes on a
queue of two returns the newer item, and removes the older. -/
theorem drifts_of_pushes :
    ∃ s q' t, (machine (w := 64) (Fin 1) ℤ 2 (-1)).Reachable s ∧ s.obj.queue.Pops q' t ∧
      t.value = some ⟨1, 8⟩ ∧ s.obj.queue.mContainer.back? = some ⟨0, 7⟩ ∧
      Drifts (w := 64) (-1) (overwrites s.history) s.obj := by
  have hrun : (machine (w := 64) (Fin 1) ℤ 2 (-1)).Reachable _ :=
    Machine.reachable_of_run (.init rfl)
      [.call 0 (.push 7) none, .notify 0 none, .call 0 (.push 8) none, .notify 0 none] rfl
  exact ⟨_, _, _, hrun, Or.inl rfl, by decide, by decide, drifts hrun⟩

end Queue

end TestBuffer
