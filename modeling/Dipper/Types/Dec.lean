import Dipper.Types.BigInt

/-!
# `sdk.Dec`

A decimal is an integer count of 10⁻¹⁸ units (`types/decimal.go`). Products and
quotients are computed on the raw integers and then chopped back to 18 places:
rounded half to even (`chopPrecisionAndRound`), rounded up, or truncated. Go's
`big.Int` quotient truncates toward zero, which is `Int.tdiv`, and panics on a zero
divisor, so the quotients here return `Except String`. `sdk.Int` values are `Int`.
The 315-bit overflow panics of the arithmetic are not modelled.
-/

namespace Dipper

structure Dec where
  i : Int
  deriving DecidableEq, Repr

namespace Dec

def Precision : Nat := 18

/-- `DecimalPrecisionBits`: the bits of `Precision` decimals, which `Dec`'s arithmetic allows
above `sdk.Int`'s 255. -/
def DecimalPrecisionBits : Nat := 60

/-- `precisionReuse`: 10¹⁸. -/
def precisionReuse : Int := 10 ^ Precision

def fivePrecision : Int := precisionReuse / 2

def ZeroDec : Dec := ⟨0⟩
def OneDec : Dec := ⟨precisionReuse⟩
def SmallestDec : Dec := ⟨1⟩

/-- `NewDec` and `Int.ToDec`: an integer as a decimal. -/
def NewDec (i : Int) : Dec := ⟨i * precisionReuse⟩

/-- `NewDecWithPrec`: `i` times 10 to the minus `prec`. -/
def NewDecWithPrec (i : Int) (prec : Nat) : Dec := ⟨i * 10 ^ (Precision - prec)⟩

def IsZero (d : Dec) : Bool := d.i == 0
def IsNegative (d : Dec) : Bool := decide (d.i < 0)
def IsPositive (d : Dec) : Bool := decide (0 < d.i)
def GT (d d2 : Dec) : Bool := decide (d2.i < d.i)
def GTE (d d2 : Dec) : Bool := decide (d2.i ≤ d.i)
def LT (d d2 : Dec) : Bool := decide (d.i < d2.i)
def LTE (d d2 : Dec) : Bool := decide (d.i ≤ d2.i)

def Add (d d2 : Dec) : Dec := ⟨d.i + d2.i⟩
def Sub (d d2 : Dec) : Dec := ⟨d.i - d2.i⟩
def Neg (d : Dec) : Dec := ⟨-d.i⟩

/-- The rounding of `chopPrecisionAndRound` on a non-negative integer: half to even. -/
def chopNonneg (d : Int) : Int :=
  let quo := d.tdiv precisionReuse
  let rem := d.tmod precisionReuse
  if rem = 0 then quo
  else if rem < fivePrecision then quo
  else if fivePrecision < rem then quo + 1
  else if quo % 2 = 0 then quo else quo + 1

/-- `chopPrecisionAndRound`: a negative value is rounded as its negation. -/
def chopPrecisionAndRound (d : Int) : Int :=
  if d < 0 then -chopNonneg (-d) else chopNonneg d

/-- `chopPrecisionAndRoundUp`: a negative value is truncated. -/
def chopPrecisionAndRoundUp (d : Int) : Int :=
  if d < 0 then -((-d).tdiv precisionReuse)
  else if d.tmod precisionReuse = 0 then d.tdiv precisionReuse else d.tdiv precisionReuse + 1

def chopPrecisionAndTruncate (d : Int) : Int := d.tdiv precisionReuse

def Mul (d d2 : Dec) : Dec := ⟨chopPrecisionAndRound (d.i * d2.i)⟩
def MulTruncate (d d2 : Dec) : Dec := ⟨chopPrecisionAndTruncate (d.i * d2.i)⟩
def MulInt (d : Dec) (i : Int) : Dec := ⟨d.i * i⟩

/-- The panic of `big.Int.Quo` on a zero divisor. -/
def quoRaw (x y : Int) : Except String Int :=
  if y = 0 then .error "division by zero" else .ok (x.tdiv y)

def Quo (d d2 : Dec) : Except String Dec :=
  (quoRaw (d.i * precisionReuse * precisionReuse) d2.i).map fun q => ⟨chopPrecisionAndRound q⟩

def QuoTruncate (d d2 : Dec) : Except String Dec :=
  (quoRaw (d.i * precisionReuse * precisionReuse) d2.i).map fun q => ⟨chopPrecisionAndTruncate q⟩

def QuoRoundUp (d d2 : Dec) : Except String Dec :=
  (quoRaw (d.i * precisionReuse * precisionReuse) d2.i).map fun q => ⟨chopPrecisionAndRoundUp q⟩

def QuoInt (d : Dec) (i : Int) : Except String Dec := (quoRaw d.i i).map Dec.mk

def TruncateInt (d : Dec) : Int := chopPrecisionAndTruncate d.i

def RoundInt (d : Dec) : Int := chopPrecisionAndRound d.i

def MinDec (d1 d2 : Dec) : Dec := if d1.LT d2 then d1 else d2

theorem eq_of_i_eq {d d2 : Dec} (h : d.i = d2.i) : d = d2 := by
  cases d
  cases d2
  cases h
  rfl

@[simp] theorem Add_i (d d2 : Dec) : (d.Add d2).i = d.i + d2.i := rfl
@[simp] theorem Sub_i (d d2 : Dec) : (d.Sub d2).i = d.i - d2.i := rfl
@[simp] theorem Neg_i (d : Dec) : d.Neg.i = -d.i := rfl
@[simp] theorem MulInt_i (d : Dec) (i : Int) : (d.MulInt i).i = d.i * i := rfl
@[simp] theorem NewDec_i (i : Int) : (NewDec i).i = i * precisionReuse := rfl
@[simp] theorem ZeroDec_i : ZeroDec.i = 0 := rfl
@[simp] theorem IsZero_iff (d : Dec) : d.IsZero = true ↔ d.i = 0 := by simp [IsZero]
@[simp] theorem IsNegative_iff (d : Dec) : d.IsNegative = true ↔ d.i < 0 := by simp [IsNegative]
@[simp] theorem IsPositive_iff (d : Dec) : d.IsPositive = true ↔ 0 < d.i := by simp [IsPositive]
@[simp] theorem GT_iff (d d2 : Dec) : d.GT d2 = true ↔ d2.i < d.i := by simp [GT]
@[simp] theorem LT_iff (d d2 : Dec) : d.LT d2 = true ↔ d.i < d2.i := by simp [LT]
@[simp] theorem LTE_iff (d d2 : Dec) : d.LTE d2 = true ↔ d.i ≤ d2.i := by simp [LTE]

theorem precisionReuse_pos : 0 < precisionReuse := by decide

theorem quoRaw_ok {x y q : Int} (h : quoRaw x y = .ok q) : y ≠ 0 ∧ q = x.tdiv y := by
  unfold quoRaw at h
  split at h
  · cases h
  · cases h; exact ⟨‹_›, rfl⟩

theorem chopNonneg_bounds (d : Int) :
    d.tdiv precisionReuse ≤ chopNonneg d ∧ chopNonneg d ≤ d.tdiv precisionReuse + 1 := by
  unfold chopNonneg
  dsimp only
  split_ifs <;> omega

theorem chopNonneg_le_half {q : Int} (hq0 : 0 ≤ q) : 2 * precisionReuse * chopNonneg q ≤ 2 * q + precisionReuse := by
  have hP : precisionReuse = 1000000000000000000 := by decide
  have hF : fivePrecision = 500000000000000000 := by decide
  unfold chopNonneg
  rw [Int.tdiv_eq_ediv_of_nonneg hq0, Int.tmod_eq_emod_of_nonneg hq0, hP, hF]
  dsimp only
  split_ifs <;> omega

theorem chopNonneg_le_of_le {q m : Int} (hq0 : 0 ≤ q) (hq : q ≤ m * precisionReuse) : chopNonneg q ≤ m := by
  have hP : precisionReuse = 1000000000000000000 := by decide
  have hF : fivePrecision = 500000000000000000 := by decide
  unfold chopNonneg
  rw [Int.tdiv_eq_ediv_of_nonneg hq0, Int.tmod_eq_emod_of_nonneg hq0, hF]
  rw [hP] at hq ⊢
  dsimp only
  split_ifs <;> omega

theorem chopPrecisionAndRound_ge {q : Int} (hq : 0 ≤ q) : q / precisionReuse ≤ chopPrecisionAndRound q := by
  have hc := (chopNonneg_bounds q).1
  rw [Int.tdiv_eq_ediv_of_nonneg hq] at hc
  rw [chopPrecisionAndRound, if_neg (by omega)]
  exact hc

theorem chopPrecisionAndRound_nonneg {q : Int} (hq : 0 ≤ q) : 0 ≤ chopPrecisionAndRound q :=
  (Int.ediv_nonneg hq precisionReuse_pos.le).trans (chopPrecisionAndRound_ge hq)

theorem Quo_TruncateInt_ge {d d2 r : Dec} (h : d.Quo d2 = .ok r) (hd : 0 ≤ d.i) (hd2 : 0 < d2.i) :
    d.i / d2.i ≤ r.TruncateInt := by
  have hP := precisionReuse_pos
  unfold Quo at h
  cases hq : quoRaw (d.i * precisionReuse * precisionReuse) d2.i with
  | error e => rw [hq] at h; cases h
  | ok q =>
    rw [hq] at h
    cases h
    obtain ⟨-, rfl⟩ := quoRaw_ok hq
    have hx : 0 ≤ d.i * precisionReuse * precisionReuse := by positivity
    rw [Int.tdiv_eq_ediv_of_nonneg hx]
    have hq0 : 0 ≤ d.i * precisionReuse * precisionReuse / d2.i := Int.ediv_nonneg hx hd2.le
    have hround := chopPrecisionAndRound_ge hq0
    -- the integer quotient, scaled back up twice, fits under the raw quotient
    have hk : d.i / d2.i * precisionReuse ≤ d.i * precisionReuse * precisionReuse / d2.i / precisionReuse := by
      rw [Int.le_ediv_iff_mul_le hP, Int.le_ediv_iff_mul_le hd2]
      have := Int.ediv_mul_le d.i (ne_of_gt hd2)
      have hPP : 0 ≤ precisionReuse * precisionReuse := by positivity
      nlinarith
    have hr0 : 0 ≤ chopPrecisionAndRound (d.i * precisionReuse * precisionReuse / d2.i) :=
      chopPrecisionAndRound_nonneg hq0
    show d.i / d2.i ≤ chopPrecisionAndTruncate _
    rw [chopPrecisionAndTruncate, Int.tdiv_eq_ediv_of_nonneg hr0, Int.le_ediv_iff_mul_le hP]
    omega

theorem chopNonneg_nonneg {q : Int} (hq0 : 0 ≤ q) : 0 ≤ chopNonneg q :=
  (Int.tdiv_nonneg hq0 precisionReuse_pos.le).trans (chopNonneg_bounds q).1

theorem Quo_ok_nonneg {d d2 r : Dec} (h : d.Quo d2 = .ok r) (hd : 0 ≤ d.i) (hd2 : 0 < d2.i) :
    0 ≤ d.i * precisionReuse * precisionReuse / d2.i ∧
      r.i = chopNonneg (d.i * precisionReuse * precisionReuse / d2.i) := by
  unfold Quo at h
  cases hq : quoRaw (d.i * precisionReuse * precisionReuse) d2.i with
  | error e => rw [hq] at h; cases h
  | ok q =>
    rw [hq] at h
    cases h
    obtain ⟨-, rfl⟩ := quoRaw_ok hq
    have hx : 0 ≤ d.i * precisionReuse * precisionReuse := by positivity [precisionReuse_pos]
    have hq0 : 0 ≤ d.i * precisionReuse * precisionReuse / d2.i := Int.ediv_nonneg hx hd2.le
    rw [Int.tdiv_eq_ediv_of_nonneg hx]
    exact ⟨hq0, if_neg (by omega)⟩

theorem Quo_TruncateInt_le {d d2 r : Dec} (h : d.Quo d2 = .ok r) (hd : 0 ≤ d.i) (hd2 : 0 < d2.i) :
    2 * precisionReuse * (r.TruncateInt * d2.i) ≤ 2 * precisionReuse * d.i + d2.i := by
  have hP := precisionReuse_pos
  obtain ⟨hq0, hr⟩ := Quo_ok_nonneg h hd hd2
  set q := d.i * precisionReuse * precisionReuse / d2.i
  have hr0 : 0 ≤ r.i := hr ▸ chopNonneg_nonneg hq0
  have htrunc : r.TruncateInt = r.i / precisionReuse := by
    rw [TruncateInt, chopPrecisionAndTruncate, Int.tdiv_eq_ediv_of_nonneg hr0]
  -- truncation, rounding and the raw quotient, each below what it approximates
  have h1 : r.TruncateInt * precisionReuse ≤ r.i := htrunc ▸ Int.ediv_mul_le _ hP.ne'
  have h2 : 2 * precisionReuse * r.i ≤ 2 * q + precisionReuse := hr ▸ chopNonneg_le_half hq0
  have h3 : q * d2.i ≤ d.i * precisionReuse * precisionReuse := Int.ediv_mul_le _ hd2.ne'
  refine Int.le_of_mul_le_mul_left ?_ hP
  calc precisionReuse * (2 * precisionReuse * (r.TruncateInt * d2.i))
      = 2 * precisionReuse * (r.TruncateInt * precisionReuse) * d2.i := by ring
    _ ≤ 2 * precisionReuse * r.i * d2.i := by gcongr
    _ ≤ (2 * q + precisionReuse) * d2.i := by gcongr
    _ = 2 * (q * d2.i) + precisionReuse * d2.i := by ring
    _ ≤ 2 * (d.i * precisionReuse * precisionReuse) + precisionReuse * d2.i := by gcongr
    _ = precisionReuse * (2 * precisionReuse * d.i + d2.i) := by ring

theorem Quo_TruncateInt_le_of_le {d d2 r : Dec} (h : d.Quo d2 = .ok r) (hd : 0 ≤ d.i) (hd2 : 0 < d2.i)
    {n : Int} (hn : d.i ≤ n * d2.i) : r.TruncateInt ≤ n := by
  have hP := precisionReuse_pos
  obtain ⟨hq0, hr⟩ := Quo_ok_nonneg h hd hd2
  have hq : d.i * precisionReuse * precisionReuse / d2.i ≤ n * precisionReuse * precisionReuse := by
    refine Int.ediv_le_of_le_mul hd2 ?_
    calc d.i * precisionReuse * precisionReuse ≤ n * d2.i * precisionReuse * precisionReuse := by gcongr
      _ = n * precisionReuse * precisionReuse * d2.i := by ring
  have hr' : r.i ≤ n * precisionReuse := hr ▸ chopNonneg_le_of_le hq0 hq
  have hr0 : 0 ≤ r.i := hr ▸ chopNonneg_nonneg hq0
  rw [TruncateInt, chopPrecisionAndTruncate, Int.tdiv_eq_ediv_of_nonneg hr0]
  exact Int.ediv_le_of_le_mul hP hr'

theorem Mul_nonneg {d d2 : Dec} (hd : 0 ≤ d.i) (hd2 : 0 ≤ d2.i) : 0 ≤ (d.Mul d2).i :=
  chopPrecisionAndRound_nonneg (mul_nonneg hd hd2)

theorem QuoInt_nonneg {d r : Dec} {n : Int} (h : d.QuoInt n = .ok r) (hd : 0 ≤ d.i) (hn : 0 ≤ n) : 0 ≤ r.i := by
  unfold QuoInt at h
  cases hq : quoRaw d.i n with
  | error e => rw [hq] at h; cases h
  | ok q =>
    rw [hq] at h
    cases h
    obtain ⟨-, rfl⟩ := quoRaw_ok hq
    exact Int.tdiv_nonneg hd hn

end Dec

end Dipper
