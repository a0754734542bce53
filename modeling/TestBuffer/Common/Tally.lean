import Mathlib.Algebra.BigOperators.Group.List.Basic
import Mathlib.Algebra.GroupWithZero.Nat
/-!
# Running totals

A counter read after each item of a sequence gives the running totals of
what the items add to it. The totals say what each item added: two
sequences with the same totals are the same (`tally_inj`). So a counter
that is right after each item is one to which each item added what it
should.
-/

namespace TestBuffer

/-- **The running totals** of a sequence, from `n` on. -/
def tally (n : ℕ) : List ℕ → List ℕ
  | [] => []
  | u :: us => (n + u) :: tally (n + u) us

variable {n k : ℕ} {us vs : List ℕ}

@[simp] theorem length_tally : (tally n us).length = us.length := by
  induction us generalizing n with
  | nil => rfl
  | cons u us ih => rw [tally, List.length_cons, List.length_cons, ih]

/-- One more item adds to all the others. -/
theorem tally_concat (u : ℕ) : tally n (us ++ [u]) = tally n us ++ [n + us.sum + u] := by
  induction us generalizing n with
  | nil => simp [tally]
  | cons v us ih =>
    rw [List.cons_append, tally, ih, tally, List.sum_cons, List.cons_append]
    congr 3
    omega

/-- The total after an item is what it and those before it add. -/
theorem getElem?_tally (hk : k < us.length) :
    (tally n us)[k]? = some (n + (us.take (k + 1)).sum) := by
  induction us generalizing n k with
  | nil => exact absurd hk (Nat.not_lt_zero k)
  | cons u us ih =>
    cases k with
    | zero => simp [tally]
    | succ k =>
      rw [tally, List.getElem?_cons_succ, ih (Nat.lt_of_succ_lt_succ hk), List.take_succ_cons,
        List.sum_cons, Nat.add_assoc]

/-- A sequence is the running totals if each of its items is. -/
theorem eq_tally_iff {ns : List ℕ} (h : ns.length = us.length) :
    ns = tally n us ↔ ∀ k < us.length, ns[k]? = some (n + (us.take (k + 1)).sum) := by
  constructor
  · rintro rfl k hk
    exact getElem?_tally hk
  · intro hget
    refine List.ext_getElem? fun k => ?_
    by_cases hk : k < us.length
    · rw [hget k hk, getElem?_tally hk]
    · rw [List.getElem?_eq_none (by omega), List.getElem?_eq_none (by rw [length_tally]; omega)]

/-- **The totals determine the items.** -/
theorem tally_inj : tally n us = tally n vs ↔ us = vs := by
  refine ⟨fun h => ?_, fun h => h ▸ rfl⟩
  induction us generalizing n vs with
  | nil =>
    cases vs with
    | nil => rfl
    | cons v vs => cases h
  | cons u us ih =>
    cases vs with
    | nil => cases h
    | cons v vs =>
      rw [tally, tally, List.cons.injEq] at h
      have huv : u = v := by omega
      subst huv
      rw [ih h.2]

/-- Counting is adding up ones. -/
theorem countP_eq_sum {α : Type*} (p : α → Bool) (xs : List α) :
    xs.countP p = (xs.map fun x => (p x).toNat).sum := by
  induction xs with
  | nil => rfl
  | cons x xs ih =>
    rw [List.countP_cons, List.map_cons, List.sum_cons, ih]
    cases p x with
    | true => exact Nat.add_comm _ _
    | false => exact (Nat.zero_add _).symm

end TestBuffer
