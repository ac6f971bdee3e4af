import Mathlib

/-!
# Integer division and bits by cases on signs

Go's `math/big` computes signed quotients and remainders on absolute values and
fixes the sign afterwards, and sign-extends with a mask and its complement. These
are the facts that relate such computations to `Int.tdiv`, `Int.tmod` and to
remainders modulo a power of two.
-/

namespace Int

theorem tdiv_eq_natAbs_div {x y : Int} (hx : x ≠ 0) (hy : y ≠ 0) :
    x.tdiv y = if x.sign ≠ y.sign then -((x.natAbs / y.natAbs : Nat) : Int)
      else ((x.natAbs / y.natAbs : Nat) : Int) := by
  rcases x with (_ | m) | m <;> rcases y with (_ | n) | n
  all_goals first | exact absurd rfl hx | exact absurd rfl hy | rfl

theorem tmod_eq_natAbs_mod (x y : Int) :
    x.tmod y = if x < 0 then -((x.natAbs % y.natAbs : Nat) : Int) else ((x.natAbs % y.natAbs : Nat) : Int) := by
  rcases x with m | m <;> rcases y with n | n <;> simp [Int.tmod]

theorem land_two_pow_sub_one (m k : Nat) : Int.land m (2 ^ k - 1) = ((m % 2 ^ k : Nat) : Int) := by
  have h : ((2 : Int) ^ k - 1) = ((2 ^ k - 1 : Nat) : Int) := by
    have := Nat.one_le_two_pow (n := k)
    push_cast [Nat.cast_sub this]
    rfl
  rw [h, ← Nat.and_two_pow_sub_one_eq_mod]
  rfl

theorem lor_lnot_two_pow_sub_one (m k : Nat) :
    Int.lor m (Int.lnot (2 ^ k - 1)) = ((m % 2 ^ k : Nat) : Int) - 2 ^ k := by
  have h : ((2 : Int) ^ k - 1) = ((2 ^ k - 1 : Nat) : Int) := by
    have := Nat.one_le_two_pow (n := k)
    push_cast [Nat.cast_sub this]
    rfl
  -- the complement clears, below `k`, exactly the bits of `m`
  have hl : Nat.ldiff (2 ^ k - 1) m = 2 ^ k - (m % 2 ^ k + 1) := by
    refine Nat.eq_of_testBit_eq fun i => ?_
    rw [Nat.testBit_ldiff, Nat.testBit_two_pow_sub_one, Nat.testBit_two_pow_sub_succ (Nat.mod_lt _ (by positivity)),
      Nat.testBit_mod_two_pow]
    by_cases hi : i < k <;> simp [hi]
  rw [h]
  show Int.negSucc (Nat.ldiff (2 ^ k - 1) m) = _
  rw [hl, Int.negSucc_eq]
  have := Nat.mod_lt m (Nat.two_pow_pos k)
  push_cast [Nat.cast_sub (show m % 2 ^ k + 1 ≤ 2 ^ k by omega)]
  ring

end Int
