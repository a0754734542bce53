import Mathlib.Data.Nat.Bitwise
import Mathlib.Data.Nat.Log
/-!
# Smearing the highest bit

`x ||| x >>> m` doubles the run of ones below the highest bit, where the
run was `m` long. Doubled often enough the ones reach the bottom, and one
more is the next power of two: how programs round up to a power of two
without a loop over the bits.
-/

namespace TestBuffer

/-- **The highest `m` bits of `x`, down from bit `k`, are ones.** -/
structure TopOnes (x k m : ℕ) : Prop where
  lt : x < 2 ^ (k + 1)
  testBit : ∀ j ≤ k, k < j + m → x.testBit j = true

namespace TopOnes

variable {x k m : ℕ}

/-- The highest bit is one. -/
theorem one (hx : x ≠ 0) : TopOnes x x.log2 1 where
  lt := Nat.lt_log2_self
  testBit j hj hk := by
    obtain rfl : j = x.log2 := by omega
    exact Nat.testBit_log2 hx

/-- **One step doubles the run.** -/
theorem double (h : TopOnes x k m) : TopOnes (x ||| x >>> m) k (2 * m) where
  lt := Nat.or_lt_two_pow h.lt (lt_of_le_of_lt (Nat.shiftRight_le x m) h.lt)
  testBit j hj hk := by
    rw [Nat.testBit_or, Nat.testBit_shiftRight]
    rcases Nat.lt_or_ge k (j + m) with hlt | hge
    · rw [h.testBit j hj hlt, Bool.true_or]
    · rw [h.testBit (m + j) (by omega) (by omega), Bool.or_true]

/-- A run that reaches the bottom. -/
theorem eq_two_pow_sub_one (h : TopOnes x k m) (hk : k < m) : x = 2 ^ (k + 1) - 1 := by
  refine Nat.eq_of_testBit_eq fun j => ?_
  rw [Nat.testBit_two_pow_sub_one]
  rcases Nat.lt_or_ge j (k + 1) with hlt | hge
  · rw [h.testBit j (Nat.lt_succ_iff.mp hlt) (by omega), decide_eq_true hlt]
  · rw [Nat.testBit_lt_two_pow (h.lt.trans_le (Nat.pow_le_pow_right Nat.two_pos hge)),
      decide_eq_false (Nat.not_lt.mpr hge)]

end TopOnes

/-- The least power of two not below `n` is one more than all the bits of
`n - 1`. -/
theorem clog_two_eq {n : ℕ} (hn : 2 ≤ n) : Nat.clog 2 n = (n - 1).log2 + 1 := by
  have hne : n - 1 ≠ 0 := by omega
  refine le_antisymm ((Nat.clog_le_iff_le_pow Nat.one_lt_two).mpr ?_) ?_
  · have := Nat.lt_log2_self (n := n - 1)
    omega
  · refine Nat.succ_le_of_lt ((Nat.lt_clog_iff_pow_lt Nat.one_lt_two).mpr ?_)
    have := Nat.log2_self_le hne
    omega

end TestBuffer
