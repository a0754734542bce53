import Mathlib.Algebra.BigOperators.Group.Finset.Piecewise
import Mathlib.Algebra.Order.BigOperators.Group.Finset
import Mathlib.Data.Fintype.Basic
/-!
# Threads, what they weigh together, and whom a notification wakes

A pool of threads is a map from thread ids to locations. Counting the
threads at a kind of location and summing weights over all threads are the
same thing (`count_eq_total`), and moving one thread changes either by what
that thread weighed and weighs now (`total_update`, `count_update`); with
these an invariant that counts threads is arithmetic.

A condition variable is a partial map `wake` from the locations a thread
can be blocked at to those it resumes from. `notifyOne` wakes one blocked
thread, chosen by the action, and does nothing only where none is blocked.
-/

namespace TestBuffer

namespace Threads

variable {Tid Loc : Type*} [Fintype Tid]
variable {f g : Loc → ℕ} {p q : Loc → Bool} {pc pc' : Tid → Loc}

/-- **What a pool weighs**, each thread by where it stands. -/
def total (f : Loc → ℕ) (pc : Tid → Loc) : ℕ := ∑ t, f (pc t)

/-- How many threads stand at a location that `p` accepts. -/
def count (p : Loc → Bool) (pc : Tid → Loc) : ℕ :=
  (Finset.univ.filter fun t => p (pc t) = true).card

/-- Counting is weighing by one. -/
theorem count_eq_total : count p pc = total (fun l => (p l).toNat) pc := by
  unfold count total
  rw [Finset.card_filter]
  refine Finset.sum_congr rfl fun t _ => ?_
  cases h : p (pc t) <;> simp [h]

/-- One thread weighs no more than all. -/
theorem le_total (f : Loc → ℕ) (pc : Tid → Loc) (t : Tid) : f (pc t) ≤ total f pc :=
  Finset.single_le_sum (f := fun t => f (pc t)) (fun _ _ => Nat.zero_le _) (Finset.mem_univ t)

theorem total_pos_iff : 0 < total f pc ↔ ∃ t, 0 < f (pc t) := by
  simp [total, Finset.sum_pos_iff]

theorem total_mono (h : ∀ l, f l ≤ g l) : total f pc ≤ total g pc :=
  Finset.sum_le_sum fun t _ => h (pc t)

/-- Weights of disjoint kinds add. -/
theorem total_add : total (fun l => f l + g l) pc = total f pc + total g pc :=
  Finset.sum_add_distrib

/-- A wider kind counts no fewer. -/
theorem count_mono (h : ∀ t, p (pc t) = true → q (pc t) = true) : count p pc ≤ count q pc :=
  Finset.card_le_card (Finset.monotone_filter_right Finset.univ fun t _ => h t)

theorem count_pos_iff : 0 < count p pc ↔ ∃ t, p (pc t) = true := by
  unfold count
  rw [Finset.card_pos]
  constructor
  · rintro ⟨t, ht⟩
    exact ⟨t, (Finset.mem_filter.mp ht).2⟩
  · rintro ⟨t, ht⟩
    exact ⟨t, Finset.mem_filter.mpr ⟨Finset.mem_univ t, ht⟩⟩

theorem count_eq_zero_iff : count p pc = 0 ↔ ∀ t, p (pc t) = false := by
  constructor
  · intro h t
    by_contra hp
    have : 0 < count p pc := count_pos_iff.mpr ⟨t, by simpa using hp⟩
    omega
  · intro h
    by_contra hp
    obtain ⟨t, ht⟩ := count_pos_iff.mp (Nat.pos_of_ne_zero hp)
    rw [h t] at ht
    cases ht

variable [DecidableEq Tid]

/-- **Moving one thread** changes the weight by what it weighed and what
it weighs now. -/
theorem total_update (f : Loc → ℕ) (pc : Tid → Loc) (t : Tid) (l : Loc) :
    total f (Function.update pc t l) + f (pc t) = total f pc + f l := by
  unfold total
  have hrest : ∑ u ∈ Finset.univ.erase t, f (Function.update pc t l u)
      = ∑ u ∈ Finset.univ.erase t, f (pc u) :=
    Finset.sum_congr rfl fun u hu => by
      rw [Function.update_of_ne (Finset.ne_of_mem_erase hu)]
  have hnew := Finset.sum_erase_add Finset.univ (fun u => f (Function.update pc t l u))
    (Finset.mem_univ t)
  have hold := Finset.sum_erase_add Finset.univ (fun u => f (pc u)) (Finset.mem_univ t)
  simp only [Function.update_self] at hnew
  omega

/-- So one that weighs less now makes all weigh less, -/
theorem total_update_lt {t : Tid} {l : Loc} (h : f l < f (pc t)) :
    total f (Function.update pc t l) < total f pc := by
  have hmove := total_update f pc t l
  omega

/-- and one that weighs as much leaves the weight as it was. -/
theorem total_update_eq {t : Tid} {l : Loc} (h : f l = f (pc t)) :
    total f (Function.update pc t l) = total f pc := by
  have hmove := total_update f pc t l
  omega

/-- Two threads weigh together. -/
theorem add_le_total (f : Loc → ℕ) (pc : Tid → Loc) {t u : Tid} (hne : t ≠ u) :
    f (pc t) + f (pc u) ≤ total f pc := by
  have hpair := Finset.sum_pair (f := fun t => f (pc t)) hne
  exact hpair.symm.trans_le (Finset.sum_le_sum_of_subset (Finset.subset_univ _))

/-- And the count by whether it was and is now counted. -/
theorem count_update (p : Loc → Bool) (pc : Tid → Loc) (t : Tid) (l : Loc) :
    count p (Function.update pc t l) + (p (pc t)).toNat = count p pc + (p l).toNat := by
  rw [count_eq_total, count_eq_total]
  exact total_update _ pc t l

/-! ## Condition variables -/

variable {wake : Loc → Option Loc} {w : Option Tid}

/-- **`notify_one`**: one thread blocked at this moment resumes, and the
call does nothing only if there is none. `w` is whom the scheduler picks. -/
def notifyOne (wake : Loc → Option Loc) (w : Option Tid) (pc : Tid → Loc) :
    Option (Tid → Loc) :=
  match w with
  | some u => (wake (pc u)).map (Function.update pc u)
  | none => if ∀ u, (wake (pc u)).isNone = true then some pc else none

/-- **A spurious wake-up**: a blocked thread resumes with no notification. -/
def spurious (wake : Loc → Option Loc) (u : Tid) (pc : Tid → Loc) : Option (Tid → Loc) :=
  (wake (pc u)).map (Function.update pc u)

omit [Fintype Tid] in
theorem spurious_eq_some {u : Tid} (h : spurious wake u pc = some pc') :
    ∃ l, wake (pc u) = some l ∧ pc' = Function.update pc u l := by
  unfold spurious at h
  obtain ⟨l, hl, rfl⟩ := Option.map_eq_some_iff.mp h
  exact ⟨l, hl, rfl⟩

/-- A notification can always be made. -/
theorem exists_notifyOne (wake : Loc → Option Loc) (pc : Tid → Loc) :
    ∃ w pc', notifyOne wake w pc = some pc' := by
  by_cases hnone : ∀ u, (wake (pc u)).isNone = true
  · exact ⟨none, pc, if_pos hnone⟩
  · obtain ⟨u, hu⟩ := not_forall.mp hnone
    obtain ⟨l, hl⟩ := Option.ne_none_iff_exists'.mp fun h => hu (Option.isNone_iff_eq_none.mpr h)
    exact ⟨some u, _, by rw [notifyOne, hl, Option.map_some]⟩

/-- **What a notification does**: it moves one blocked thread, or none is
blocked and nothing moves. -/
theorem notifyOne_cases (h : notifyOne wake w pc = some pc') :
    (∃ u l, wake (pc u) = some l ∧ pc' = Function.update pc u l) ∨
      ((∀ u, wake (pc u) = none) ∧ pc' = pc) := by
  cases w with
  | some u =>
    obtain ⟨l, hl, rfl⟩ := Option.map_eq_some_iff.mp h
    exact Or.inl ⟨u, l, hl, rfl⟩
  | none =>
    simp only [notifyOne, Option.ite_none_right_eq_some, Option.some.injEq,
      Option.isNone_iff_eq_none] at h
    exact Or.inr ⟨h.1, h.2.symm⟩

end Threads

end TestBuffer
