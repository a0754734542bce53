import Mathlib.Data.Nat.Bitwise
import Mathlib.Logic.Function.Basic
/-!
# Indices that go round

The indices of an array of `n` slots taken in a circle: `shift n a i` is
the index `i` places after `a`, `gap n a b` how far `b` is after `a`.
Neither goes round more than once, so both are stated without a modulus
and what relates them is linear. The last section says that masking with
`n - 1` is the step round the circle where `n` is a power of two
(`succ_and_eq_shift`).
-/

namespace TestBuffer

namespace Circular

/-- The index `i` places after `a`. -/
def shift (n a i : ℕ) : ℕ := if a + i < n then a + i else a + i - n

/-- How many places `b` is after `a`. -/
def gap (n a b : ℕ) : ℕ := if a ≤ b then b - a else b + n - a

variable {n a b i j : ℕ}

theorem shift_lt (ha : a < n) (hi : i ≤ n) : shift n a i < n := by
  unfold shift
  split <;> omega

theorem shift_zero (ha : a < n) : shift n a 0 = a := by
  unfold shift
  split <;> omega

theorem gap_lt (ha : a < n) (hb : b < n) : gap n a b < n := by
  unfold gap
  split <;> omega

@[simp] theorem gap_self : gap n a a = 0 := by
  unfold gap
  split <;> omega

theorem gap_eq_zero_iff (ha : a < n) : gap n a b = 0 ↔ a = b := by
  unfold gap
  split <;> omega

/-- Going as far as `b` is away arrives at `b`. -/
theorem shift_gap (ha : a < n) (hb : b < n) : shift n a (gap n a b) = b := by
  unfold shift gap
  split <;> split <;> omega

theorem gap_shift (ha : a < n) (hi : i < n) : gap n a (shift n a i) = i := by
  unfold shift gap
  split <;> split <;> omega

/-- Within one round the places are distinct. -/
theorem shift_inj (ha : a < n) (hi : i < n) (hj : j < n) :
    shift n a i = shift n a j ↔ i = j := by
  constructor
  · intro h
    have := congrArg (gap n a) h
    rwa [gap_shift ha hi, gap_shift ha hj] at this
  · rintro rfl
    rfl

/-- Stepping on from `b` arrives back at `a` exactly where `b` is the last
place of the round that starts at `a`. -/
theorem shift_one_eq_iff (ha : a < n) (hb : b < n) :
    shift n b 1 = a ↔ gap n a b + 1 = n := by
  unfold shift gap
  split <;> split <;> omega

/-- The far end moves one on. -/
theorem gap_shift_one (ha : a < n) (hb : b < n) (h : shift n b 1 ≠ a) :
    gap n a (shift n b 1) = gap n a b + 1 := by
  revert h
  unfold shift gap
  split <;> split <;> split <;> omega

/-- The near end moves one on. -/
theorem gap_shift_one_left (ha : a < n) (hb : b < n) (h : a ≠ b) :
    gap n (shift n a 1) b + 1 = gap n a b := by
  unfold shift gap
  split <;> split <;> split <;> omega

/-- The places seen from one step on. -/
theorem shift_shift_one (ha : a < n) (hi : i + 1 < n) :
    shift n (shift n a 1) i = shift n a (i + 1) := by
  unfold shift
  split <;> split <;> split <;> omega

/-- The last place seen from one step on is where one stood. -/
theorem shift_shift_one_last (ha : a < n) (hi : i + 1 = n) :
    shift n (shift n a 1) i = a := by
  unfold shift
  split <;> split <;> omega

/-! ## Slots -/

variable {T : Type*}

/-- Writing a slot, seen from `a`: the place written changes and no
other. -/
theorem update_shift (data : ℕ → T) (x : T) (ha : a < n) (hi : i < n) (hj : j < n) :
    Function.update data (shift n a j) x (shift n a i) =
      if i = j then x else data (shift n a i) := by
  rw [Function.update_apply]
  simp only [shift_inj ha hi hj]

/-! ## Masks -/

/-- **Masking with `n - 1` is the step round the circle**, for `n` a power
of two. -/
theorem succ_and_eq_shift {m k : ℕ} (hm : m + 1 = 2 ^ k) (ha : a ≤ m) :
    (a + 1) &&& m = shift (m + 1) a 1 := by
  obtain rfl : m = 2 ^ k - 1 := by omega
  rw [Nat.and_two_pow_sub_one_eq_mod, hm]
  unfold shift
  split
  · rename_i h
    exact Nat.mod_eq_of_lt h
  · rename_i h
    obtain he : a + 1 = 2 ^ k := by omega
    rw [he, Nat.mod_self, Nat.sub_self]

/-- Subtraction on `w` bits finds the gap, under the mask. -/
theorem sub_and_eq_gap {m k w : ℕ} (hm : m + 1 = 2 ^ k) (hk : k ≤ w) (ha : a ≤ m) (hb : b ≤ m) :
    (b + (2 ^ w - a)) % 2 ^ w &&& m = gap (m + 1) a b := by
  obtain ⟨q, hq⟩ := pow_dvd_pow 2 hk
  obtain ⟨q, rfl⟩ : ∃ p, q = p + 1 := by
    refine Nat.exists_eq_succ_of_ne_zero ?_
    rintro rfl
    exact (Nat.two_pow_pos w).ne' hq
  have hmask : m = 2 ^ k - 1 := by omega
  rw [hq, ← hm, hmask, Nat.and_two_pow_sub_one_eq_mod, ← hmask, ← hm, Nat.mod_mul_right_mod,
    Nat.mul_succ]
  unfold gap
  split
  · have hsum : b + ((m + 1) * q + (m + 1) - a) = b - a + (m + 1) * (q + 1) := by
      rw [Nat.mul_succ]
      omega
    rw [hsum, Nat.add_mul_mod_self_left, Nat.mod_eq_of_lt (by omega)]
  · have hsum : b + ((m + 1) * q + (m + 1) - a) = b + (m + 1) - a + (m + 1) * q := by omega
    rw [hsum, Nat.add_mul_mod_self_left, Nat.mod_eq_of_lt (by omega)]

end Circular

end TestBuffer
