import Dipper.Types.Bytes

/-!
# Go integers: `*big.Int` and `uint64`

Stack words are `*big.Int` values, kept as `Int`; the accessors below follow
`math/big` (`Uint64` and `Int64` read the low 64 bits of the absolute value).
Gas, sizes and counters are `uint64`: they are naturals, and the operations of
the source that can wrap are written with `u64`.
-/

namespace Dipper

def MaxUint64 : Nat := 2^64 - 1

/-- Reduction of an integer to `uint64`, the result of a wrapping operation. -/
def u64 (n : Int) : Nat := (n % 2^64).toNat

theorem u64_lt (n : Int) : u64 n < 2^64 := by
  unfold u64; omega

theorem u64_of_lt {n : Nat} (h : n < 2^64) : u64 n = n := by
  unfold u64; omega

theorem u64_le (n : Nat) : u64 n ≤ n := by
  unfold u64; omega

theorem u64_add_le (a b : Nat) : u64 ((a : Int) + b) ≤ a + b := by
  unfold u64; omega

/-- `math.SafeAdd`: the wrapped sum and whether it overflowed. -/
def SafeAdd (x y : Nat) : Nat × Bool := (u64 (x + y), decide (y > MaxUint64 - x))

def SafeMul (x y : Nat) : Nat × Bool :=
  if x = 0 ∨ y = 0 then (0, false) else (u64 (x * y), decide (y > MaxUint64 / x))

theorem SafeAdd_ok {x y : Nat} (hx : x < 2^64) (h : (SafeAdd x y).2 = false) :
    (SafeAdd x y).1 = x + y := by
  simp only [SafeAdd, decide_eq_false_iff_not, not_lt] at h ⊢
  unfold MaxUint64 at h
  exact u64_of_lt (by omega)

theorem SafeMul_ok {x y : Nat} (h : (SafeMul x y).2 = false) : (SafeMul x y).1 = x * y := by
  unfold SafeMul at h ⊢
  split
  · rename_i h0; rcases h0 with h0 | h0 <;> simp [h0]
  · rename_i h0
    rw [if_neg h0] at h
    simp only [decide_eq_false_iff_not, not_lt] at h
    unfold MaxUint64 at h
    have hx : 0 < x := by omega
    have : x * y ≤ x * ((2^64 - 1) / x) := Nat.mul_le_mul_left x h
    have : x * ((2^64 - 1) / x) ≤ 2^64 - 1 := Nat.mul_div_le (2^64 - 1) x
    exact u64_of_lt (by omega)

def Sign (x : Int) : Int := x.sign

def IsUint64 (x : Int) : Bool := decide (0 ≤ x ∧ x < 2^64)

/-- `x.Uint64()`: the low 64 bits of `|x|`. -/
def Uint64 (x : Int) : Nat := x.natAbs % 2^64

/-- `bigUint64`: the value and whether it overflowed. -/
def bigUint64 (v : Int) : Nat × Bool := (Uint64 v, !IsUint64 v)

/-- Reinterpretation of a `uint64` as `int64`. -/
def toInt64 (v : Nat) : Int := if v < 2^63 then v else (v : Int) - 2^64

theorem toNat_toInt64_of_lt {v : Nat} (h : v < 2 ^ 63) : (toInt64 v).toNat = v := by
  rw [toInt64, if_pos h, Int.toNat_natCast]

/-- `x.Int64()`: the low 64 bits of `|x|` as `int64`, negated (wrapping) when `x < 0`. -/
def Int64 (x : Int) : Int :=
  let v := toInt64 (Uint64 x)
  if x < 0 then toInt64 (u64 (-v)) else v

def BitLen (x : Int) : Nat := if x = 0 then 0 else Nat.log2 x.natAbs + 1

theorem Int64_of_lt {x : Int} (h0 : 0 ≤ x) (h : x < 2^63) : Int64 x = x := by
  unfold Int64 toInt64 Uint64
  have : x.natAbs % 2^64 = x.natAbs := Nat.mod_eq_of_lt (by omega)
  simp only [this, show ¬ x < 0 by omega, if_false]
  split <;> omega

/-- `sdk.NewIntFromBigInt`: an `sdk.Int` holds at most 255 bits. -/
def NewIntFromBigInt (i : Int) : Except String Int :=
  if BitLen i > 255 then .error "NewIntFromBigInt() out of bound" else .ok i

/-- `sdk.Int.Add`, which panics past 255 bits. -/
def IntAdd (i i2 : Int) : Except String Int :=
  if BitLen (i + i2) > 255 then .error "Int overflow" else .ok (i + i2)

/-- `sdk.Int.Sub`, which panics past 255 bits. -/
def IntSub (i i2 : Int) : Except String Int :=
  if BitLen (i - i2) > 255 then .error "Int overflow" else .ok (i - i2)

/-! ### `sdk.Int` and `sdk.Uint`

`int.go` and `uint.go`: `*big.Int` values held in range by a check after each operation,
`sdk.Int` within 255 bits of magnitude and `sdk.Uint` in `[0, 2^256)`. Both are `Int` here.
The comparisons read `Cmp` against `-1`, `0` and `1`; `sdk.Uint.LTE` is written as the
negation of `GTE`, which makes it the strict order. -/

theorem BitLen_le_iff (x : Int) (k : Nat) : BitLen x ≤ k ↔ x.natAbs < 2 ^ k := by
  unfold BitLen
  by_cases h : x = 0
  · subst h
    simp
  · rw [if_neg h, Nat.add_one_le_iff, Nat.log2_lt (Int.natAbs_ne_zero.mpr h)]

theorem BitLen_add_le_mul {x y : Int} (hx : x ≠ 0) (hy : y ≠ 0) :
    BitLen x + BitLen y ≤ BitLen (x * y) + 1 := by
  unfold BitLen
  rw [if_neg hx, if_neg hy, if_neg (mul_ne_zero hx hy), Int.natAbs_mul]
  have ha := Nat.log2_self_le (Int.natAbs_ne_zero.mpr hx)
  have hb := Nat.log2_self_le (Int.natAbs_ne_zero.mpr hy)
  have hab : 2 ^ (Nat.log2 x.natAbs + Nat.log2 y.natAbs) ≤ x.natAbs * y.natAbs := by
    rw [pow_add]
    exact Nat.mul_le_mul ha hb
  have hlog := (Nat.le_log2 (Nat.mul_ne_zero (Int.natAbs_ne_zero.mpr hx)
    (Int.natAbs_ne_zero.mpr hy))).mpr hab
  omega

def Cmp (x y : Int) : Int :=
  match compare x y with
  | .lt => -1
  | .eq => 0
  | .gt => 1

/-- `sdk.Int.Mul`: a product of more bits than the two factors together less one panics
before it is computed, and one past 255 bits after. -/
def IntMul (i i2 : Int) : Except String Int :=
  if (BitLen i : Int) + BitLen i2 - 1 > 255 then .error "Int overflow"
  else if BitLen (i * i2) > 255 then .error "Int overflow"
  else .ok (i * i2)

/-- `sdk.Int.Quo`: `big.Int.Quo`, truncated, after a check of the divisor. -/
def IntQuo (i i2 : Int) : Except String Int :=
  if Sign i2 = 0 then .error "Division by zero" else .ok (i.tdiv i2)

/-- `sdk.Int.Mod`: `big.Int.Mod`, the Euclidean remainder, after a check of the divisor. -/
def IntMod (i i2 : Int) : Except String Int :=
  if Sign i2 = 0 then .error "division-by-zero" else .ok (i % i2)

/-- `sdk.Int.Equal`: `equal`, `Cmp` is zero. -/
def IntEqual (i i2 : Int) : Bool := Cmp i i2 == 0
/-- `sdk.Int.GT`: `gt`, `Cmp` is one. -/
def IntGT (i i2 : Int) : Bool := Cmp i i2 == 1
/-- `sdk.Int.GTE`: `gte`, `Cmp` is not negative. -/
def IntGTE (i i2 : Int) : Bool := decide (Cmp i i2 ≥ 0)
/-- `sdk.Int.LT`: `lt`, `Cmp` is minus one. -/
def IntLT (i i2 : Int) : Bool := Cmp i i2 == -1
/-- `sdk.Int.LTE`: `lte`, `Cmp` is not positive. -/
def IntLTE (i i2 : Int) : Bool := decide (Cmp i i2 ≤ 0)

/-- `UintOverflow`: a negative value, or one past 256 bits. -/
def UintOverflow (i : Int) : Except String Unit :=
  if Sign i < 0 then .error "non-positive integer"
  else if BitLen i > 256 then .error ("bit length " ++ toString (BitLen i) ++ " greater than 256")
  else .ok ()

def checkNewUint (i : Int) : Except String Int := do
  UintOverflow i
  pure i

/-- `NewUintFromBigInt`: a value out of range panics. -/
def NewUintFromBigInt (i : Int) : Except String Int :=
  match checkNewUint i with
  | .ok u => .ok u
  | .error err => .error ("overflow: " ++ err)

def UintAdd (u u2 : Int) : Except String Int := NewUintFromBigInt (u + u2)
def UintSub (u u2 : Int) : Except String Int := NewUintFromBigInt (u - u2)
def UintMul (u u2 : Int) : Except String Int := NewUintFromBigInt (u * u2)
/-- `sdk.Uint.Quo`: `big.Int.Quo` panics on a zero divisor. -/
def UintQuo (u u2 : Int) : Except String Int :=
  if u2 = 0 then .error "division by zero" else NewUintFromBigInt (u.tdiv u2)

def UintEqual (u u2 : Int) : Bool := Cmp u u2 == 0
def UintGT (u u2 : Int) : Bool := Cmp u u2 == 1
/-- `sdk.Uint.GTE`: `GT` or `Equal`. -/
def UintGTE (u u2 : Int) : Bool := UintGT u u2 || UintEqual u u2
def UintLT (u u2 : Int) : Bool := Cmp u u2 == -1
/-- `sdk.Uint.LTE`: written as the negation of `GTE`. -/
def UintLTE (u u2 : Int) : Bool := !UintGTE u u2

theorem Cmp_eq (x y : Int) : Cmp x y = if x < y then -1 else if x = y then 0 else 1 := by
  unfold Cmp
  rcases lt_trichotomy x y with h | rfl | h
  · simp [h, compare_lt_iff_lt.mpr h]
  · simp
  · simp [h.ne', not_lt_of_gt h, compare_gt_iff_gt.mpr h]

theorem IntCmp_spec (x y : Int) :
    IntEqual x y = decide (x = y) ∧ IntGT x y = decide (y < x) ∧ IntGTE x y = decide (y ≤ x) ∧
      IntLT x y = decide (x < y) ∧ IntLTE x y = decide (x ≤ y) := by
  simp only [IntEqual, IntGT, IntGTE, IntLT, IntLTE, Cmp_eq]
  rcases lt_trichotomy x y with h | rfl | h
  · simp [h, h.ne, h.le, not_lt_of_gt h]
  · simp
  · simp [h, h.ne', h.le, not_lt_of_gt h]

theorem NewUintFromBigInt_spec (z : Int) :
    (0 ≤ z ∧ z < 2 ^ 256 → NewUintFromBigInt z = .ok z) ∧
      (¬ (0 ≤ z ∧ z < 2 ^ 256) → ∃ e, NewUintFromBigInt z = .error e) := by
  have hb := BitLen_le_iff z 256
  unfold NewUintFromBigInt checkNewUint UintOverflow Sign
  by_cases hz : z < 0
  · have hs : z.sign < 0 := Int.sign_neg_iff.mpr hz  
    simp [hs, not_le.mpr hz, bind, Except.bind]
  · have hs : ¬ z.sign < 0 := fun h => hz (Int.sign_neg_iff.mp h)
    by_cases hr : z < 2 ^ 256
    · have hbl : ¬ BitLen z > 256 := by omega
      simpa [hs, hbl, not_lt.mp hz, bind, Except.bind, pure, Except.pure] using hr
    · have hbl : BitLen z > 256 := by omega
      simpa [hs, hbl, bind, Except.bind] using fun _ : 0 ≤ z => not_lt.mp hr


theorem BitLen_gt_iff (x : Int) (k : Nat) : BitLen x > k ↔ 2 ^ k ≤ x.natAbs := by
  rw [gt_iff_lt, ← not_le, BitLen_le_iff, not_lt]

theorem IntAdd_spec (x y : Int) :
    ((x + y).natAbs < 2 ^ 255 → IntAdd x y = .ok (x + y)) ∧
      (2 ^ 255 ≤ (x + y).natAbs → IntAdd x y = .error "Int overflow") := by
  unfold IntAdd
  exact ⟨fun h => if_neg (by rw [BitLen_gt_iff]; omega), fun h => if_pos ((BitLen_gt_iff _ _).mpr h)⟩

theorem NewIntFromBigInt_spec (x : Int) :
    (x.natAbs < 2 ^ 255 → NewIntFromBigInt x = .ok x) ∧
      (2 ^ 255 ≤ x.natAbs → NewIntFromBigInt x = .error "NewIntFromBigInt() out of bound") := by
  unfold NewIntFromBigInt
  exact ⟨fun h => if_neg (by rw [BitLen_gt_iff]; omega), fun h => if_pos ((BitLen_gt_iff _ _).mpr h)⟩

theorem IntSub_spec (x y : Int) :
    ((x - y).natAbs < 2 ^ 255 → IntSub x y = .ok (x - y)) ∧
      (2 ^ 255 ≤ (x - y).natAbs → IntSub x y = .error "Int overflow") := by
  unfold IntSub
  exact ⟨fun h => if_neg (by rw [BitLen_gt_iff]; omega), fun h => if_pos ((BitLen_gt_iff _ _).mpr h)⟩

/-- On factors within 255 bits the early test of `sdk.Int.Mul` rejects no product within
255 bits: it returns the exact product there and panics past it. -/
theorem IntMul_spec {x y : Int} (hx : x.natAbs < 2 ^ 255) (hy : y.natAbs < 2 ^ 255) :
    ((x * y).natAbs < 2 ^ 255 → IntMul x y = .ok (x * y)) ∧
      (2 ^ 255 ≤ (x * y).natAbs → IntMul x y = .error "Int overflow") := by
  have hbx := (BitLen_le_iff x 255).mpr hx
  have hby := (BitLen_le_iff y 255).mpr hy
  unfold IntMul
  constructor
  · intro h
    have hbxy := (BitLen_le_iff (x * y) 255).mpr h
    -- the factors have at most one bit more together than the product
    have hearly : ¬ ((BitLen x : Int) + BitLen y - 1 > 255) := by
      by_cases h0 : x = 0 ∨ y = 0
      · have h00 : BitLen 0 = 0 := by simp [BitLen]
        rcases h0 with rfl | rfl <;> omega
      · have := BitLen_add_le_mul (not_or.mp h0).1 (not_or.mp h0).2
        omega
    rw [if_neg hearly, if_neg (by omega)]
  · intro h
    split
    · rfl
    · rw [if_pos ((BitLen_gt_iff _ _).mpr h)]

/-- `sdk.Int.Quo` and `sdk.Int.Mod` panic only on a zero divisor, and otherwise return the
truncated quotient and the Euclidean remainder. -/
theorem IntQuo_IntMod_spec (x y : Int) :
    (y = 0 → IntQuo x y = .error "Division by zero" ∧ IntMod x y = .error "division-by-zero") ∧
      (y ≠ 0 → IntQuo x y = .ok (x.tdiv y) ∧ IntMod x y = .ok (x % y)) := by
  unfold IntQuo IntMod Sign
  exact ⟨fun h => by simp [h], fun h => by simp [Int.sign_eq_zero_iff_zero, h]⟩

/-- `sdk.Uint.Add`, `Sub` and `Mul` return the exact result in `[0, 2^256)` and panic
outside it; `Quo` of a value in range by a nonzero one returns the quotient. -/
theorem UintOps_spec (u v : Int) :
    ((0 ≤ u + v ∧ u + v < 2 ^ 256 → UintAdd u v = .ok (u + v)) ∧
      (¬ (0 ≤ u + v ∧ u + v < 2 ^ 256) → ∃ e, UintAdd u v = .error e)) ∧
    ((0 ≤ u - v ∧ u - v < 2 ^ 256 → UintSub u v = .ok (u - v)) ∧
      (¬ (0 ≤ u - v ∧ u - v < 2 ^ 256) → ∃ e, UintSub u v = .error e)) ∧
    ((0 ≤ u * v ∧ u * v < 2 ^ 256 → UintMul u v = .ok (u * v)) ∧
      (¬ (0 ≤ u * v ∧ u * v < 2 ^ 256) → ∃ e, UintMul u v = .error e)) ∧
    (v = 0 → UintQuo u v = .error "division by zero") ∧
    (0 ≤ u → u < 2 ^ 256 → 0 < v → UintQuo u v = .ok (u / v)) := by
  refine ⟨NewUintFromBigInt_spec _, NewUintFromBigInt_spec _, NewUintFromBigInt_spec _,
    fun h => if_pos h, fun hu hu' hv => ?_⟩
  -- a quotient of non-negative values is the floored one, and stays in range
  have hq : u.tdiv v = u / v := Int.tdiv_eq_ediv_of_nonneg hu
  have hq0 : 0 ≤ u / v := Int.ediv_nonneg hu hv.le
  have hq1 : u / v ≤ u := Int.ediv_le_self v hu
  rw [UintQuo, if_neg hv.ne', hq]
  exact (NewUintFromBigInt_spec _).1 ⟨hq0, by omega⟩

theorem UintCmp_spec (u v : Int) :
    UintEqual u v = decide (u = v) ∧ UintGT u v = decide (v < u) ∧ UintGTE u v = decide (v ≤ u) ∧
      UintLT u v = decide (u < v) := by
  simp only [UintEqual, UintGT, UintGTE, UintLT, Cmp_eq]
  rcases lt_trichotomy u v with h | rfl | h
  · simp [h, h.ne, not_lt_of_gt h, not_le.mpr h]
  · simp
  · simp [h, h.ne', h.le, not_lt_of_gt h]

/-- `sdk.Uint.LTE`, written as `!GTE`, is the strict order: it is false on equal values,
against its comment. -/
theorem UintLTE_is_LT : (∀ u v : Int, UintLTE u v = decide (u < v)) ∧ UintLTE 1 1 = false := by
  refine ⟨fun u v => ?_, by decide⟩
  rw [UintLTE, (UintCmp_spec u v).2.2.1, ← decide_not]
  simp only [not_le]

def tt255 : Int := 2^255
def tt256 : Int := 2^256

/-- `math.U256`: reduction modulo `2^256` (the two's complement of a negative value). -/
def U256 (x : Int) : Int := x % tt256

/-- `math.S256`: a word read as a two's complement number. -/
def S256 (x : Int) : Int := if x < tt255 then x else x - tt256

theorem Sign_of_Sign_U256 {x : Int} (h : Sign (U256 x) ≠ 0) : Sign x ≠ 0 := by
  intro hx
  simp only [Sign, Int.sign_eq_zero_iff_zero] at hx
  subst hx
  exact h rfl

/-- The loop of `math.Exp`: square-and-multiply over `bits` low bits of the exponent. -/
def expLoop : Nat → Int → Int → Nat → Int
  | 0, result, _, _ => result
  | k+1, result, base, e =>
    let result := if e % 2 = 1 then U256 (result * base) else result
    expLoop k result (U256 (base * base)) (e / 2)

/-- `math.Exp`: the loop runs over every bit of every 64-bit word of the exponent. -/
def mathExp (base exponent : Int) : Int :=
  let e := exponent.natAbs
  expLoop (64 * ((BitLen e + 63) / 64)) 1 base e

/-- `math.Byte(bigint, 32, n)`: byte `n` of the 32-byte big-endian form of `|bigint|`. -/
def mathByte (bigint : Int) (n : Int) : Nat :=
  if 32 ≤ n then 0 else bigint.natAbs / 256^(31 - n).toNat % 256

end Dipper
