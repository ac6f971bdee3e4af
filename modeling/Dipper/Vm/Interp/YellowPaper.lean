import Dipper.Vm.Interp.Instructions
import Dipper.Lib.IntBits

/-!
# The arithmetic opcodes against the Yellow Paper

The arithmetic, comparison and bitwise operations of `instructions.go` compute on
`big.Int` values, reduce with `math.U256` and read signed operands with
`math.S256`. The Yellow Paper defines the same operations on 256-bit words, which
are `BitVec 256` here: two's complement for the signed ones, division and
remainder by zero giving zero, `ADDMOD` and `MULMOD` without intermediate wrap. For
every opcode and all operand words, the operation pops exactly its operands and
pushes the Yellow-Paper word, leaving the rest of the stack as it was.
-/

namespace Dipper

/-- A 256-bit EVM word. -/
abbrev Word := BitVec 256

/-! ### Words as `big.Int` values -/

section Words

theorem U256_natCast (n : Nat) : U256 n = ((n % 2 ^ 256 : Nat) : Int) := by
  unfold U256 tt256
  push_cast
  rfl

theorem U256_word (w : Word) : U256 w.toNat = w.toNat := by
  rw [U256_natCast, Nat.mod_eq_of_lt w.isLt]

theorem S256_word (w : Word) : S256 w.toNat = w.toInt := by
  rw [BitVec.toInt_eq_toNat_cond, S256, tt255, tt256]
  have := w.isLt
  split_ifs <;> push_cast <;> omega

theorem word_eq_U256_toInt (w : Word) : (w.toNat : Int) = U256 w.toInt := by
  rw [BitVec.toInt_eq_toNat_cond, U256, tt256]
  have := w.isLt
  split_ifs <;> push_cast <;> omega

theorem U256_bmod (x : Int) : U256 (x.bmod (2 ^ 256)) = U256 x := by
  unfold U256 tt256
  exact Int.bmod_emod

theorem word_eq_zero_iff (w : Word) : (w.toNat : Int) = 0 ↔ w = 0 := by
  rw [Int.natCast_eq_zero, BitVec.toNat_eq]
  rfl

theorem toInt_eq_zero_iff (w : Word) : w.toInt = 0 ↔ w = 0 := by
  rw [← BitVec.toInt_zero, BitVec.toInt_inj]
  rfl

end Words

/-! ### The Yellow-Paper semantics -/

/-- The arithmetic, comparison and bitwise opcodes. -/
inductive ArithOp
  | ADD | MUL | SUB | DIV | SDIV | MOD | SMOD | ADDMOD | MULMOD | EXP | SIGNEXTEND
  | LT | GT | SLT | SGT | EQ | ISZERO | AND | OR | XOR | NOT | BYTE | SHL | SHR | SAR
  deriving DecidableEq, Repr

namespace ArithOp

/-- How many words the opcode takes from the stack. -/
def arity : ArithOp → Nat
  | ADDMOD | MULMOD => 3
  | ISZERO | NOT => 1
  | _ => 2

/-- The word the Yellow Paper pushes for the operands `a` (the top of the stack),
`b` and `c`. -/
def yellowPaper : ArithOp → Word → Word → Word → Word
  | ADD, a, b, _ => a + b
  | MUL, a, b, _ => a * b
  | SUB, a, b, _ => a - b
  | DIV, a, b, _ => if b = 0 then 0 else a / b
  | SDIV, a, b, _ => if b = 0 then 0 else a.sdiv b
  | MOD, a, b, _ => if b = 0 then 0 else a % b
  | SMOD, a, b, _ => if b = 0 then 0 else a.srem b
  | ADDMOD, a, b, c => if c = 0 then 0 else BitVec.ofNat 256 ((a.toNat + b.toNat) % c.toNat)
  | MULMOD, a, b, c => if c = 0 then 0 else BitVec.ofNat 256 ((a.toNat * b.toNat) % c.toNat)
  | EXP, a, b, _ => BitVec.ofNat 256 (a.toNat ^ b.toNat)
  | SIGNEXTEND, a, b, _ => if a.toNat < 31 then (b.setWidth (8 * a.toNat + 8)).signExtend 256 else b
  | LT, a, b, _ => if a < b then 1 else 0
  | GT, a, b, _ => if b < a then 1 else 0
  | SLT, a, b, _ => if a.slt b then 1 else 0
  | SGT, a, b, _ => if b.slt a then 1 else 0
  | EQ, a, b, _ => if a = b then 1 else 0
  | ISZERO, a, _, _ => if a = 0 then 1 else 0
  | AND, a, b, _ => a &&& b
  | OR, a, b, _ => a ||| b
  | XOR, a, b, _ => a ^^^ b
  | NOT, a, _, _ => ~~~a
  | BYTE, a, b, _ => if a.toNat < 32 then (b >>> (8 * (31 - a.toNat))) &&& 0xff else 0
  | SHL, a, b, _ => b <<< a.toNat
  | SHR, a, b, _ => b >>> a.toNat
  | SAR, a, b, _ => b.sshiftRight a.toNat

/-- The execution function `instructions.go` gives the opcode. -/
def execute : ArithOp → ExecFn
  | ADD => opAdd | MUL => opMul | SUB => opSub | DIV => opDiv | SDIV => opSdiv | MOD => opMod
  | SMOD => opSmod | ADDMOD => opAddmod | MULMOD => opMulmod | EXP => opExp
  | SIGNEXTEND => opSignExtend | LT => opLt | GT => opGt | SLT => opSlt | SGT => opSgt | EQ => opEq
  | ISZERO => opIszero | AND => opAnd | OR => opOr | XOR => opXor | NOT => opNot | BYTE => opByte
  | SHL => opSHL | SHR => opSHR | SAR => opSAR

end ArithOp

/-! ### One step of each operation -/

section Run

variable (env : Env) (run : RunFn) (fr : Frame) (st : EVMState) (rest : Stack)

theorem binaryOp_word {f : Int → Int → Int} {a b w : Word} (h : f a.toNat b.toNat = w.toNat) :
    binaryOp f env run { fr with stack := (a.toNat : Int) :: (b.toNat : Int) :: rest } st =
      .ok (({ fr with stack := (w.toNat : Int) :: rest }, [], none), st) := by
  rw [← h]
  rfl

theorem unaryOp_word {f : Int → Int} {a w : Word} (h : f a.toNat = w.toNat) :
    unaryOp f env run { fr with stack := (a.toNat : Int) :: rest } st =
      .ok (({ fr with stack := (w.toNat : Int) :: rest }, [], none), st) := by
  rw [← h]
  rfl

theorem ternaryOp_word {f : Int → Int → Int → Int} {a b c w : Word} (h : f a.toNat b.toNat c.toNat = w.toNat) :
    ternaryOp f env run { fr with stack := (a.toNat : Int) :: (b.toNat : Int) :: (c.toNat : Int) :: rest } st =
      .ok (({ fr with stack := (w.toNat : Int) :: rest }, [], none), st) := by
  rw [← h]
  rfl

end Run

/-! ### The words the operations compute -/

section Values

variable (a b c : Word)

theorem opAdd_word : U256 ((a.toNat : Int) + b.toNat) = (a + b).toNat := by
  rw [BitVec.toNat_add, ← Nat.cast_add, U256_natCast]

theorem opMul_word : U256 ((a.toNat : Int) * b.toNat) = (a * b).toNat := by
  rw [BitVec.toNat_mul, ← Nat.cast_mul, U256_natCast]

theorem opSub_word : U256 ((a.toNat : Int) - b.toNat) = (a - b).toNat := by
  rw [BitVec.toNat_sub, U256, tt256]
  have := b.isLt
  push_cast
  omega

theorem Sign_word_eq_zero_iff : Sign (b.toNat : Int) = 0 ↔ b = 0 := by
  rw [Sign, Int.sign_eq_zero_iff_zero, word_eq_zero_iff]

theorem opDiv_word :
    (if Sign (b.toNat : Int) ≠ 0 then U256 ((a.toNat : Int) / b.toNat) else 0) =
      ((if b = 0 then 0 else a / b : Word).toNat : Int) := by
  by_cases hb : b = 0
  · simp [hb, Sign]
  · rw [if_pos ((Sign_word_eq_zero_iff b).not.mpr hb), if_neg hb, BitVec.toNat_udiv, ← Int.natCast_div,
      U256_natCast, Nat.mod_eq_of_lt (lt_of_le_of_lt (Nat.div_le_self _ _) a.isLt)]

theorem opMod_word :
    (if Sign (b.toNat : Int) = 0 then 0 else U256 ((a.toNat : Int) % b.toNat)) =
      ((if b = 0 then 0 else a % b : Word).toNat : Int) := by
  by_cases hb : b = 0
  · simp [hb, Sign]
  · rw [if_neg ((Sign_word_eq_zero_iff b).not.mpr hb), if_neg hb, BitVec.toNat_umod, ← Int.natCast_mod,
      U256_natCast, Nat.mod_eq_of_lt (lt_of_le_of_lt (Nat.mod_le _ _) a.isLt)]

theorem opSdiv_word :
    (if Sign (S256 b.toNat) = 0 ∨ Sign (S256 a.toNat) = 0 then 0
      else if Sign (S256 a.toNat) ≠ Sign (S256 b.toNat) then
        U256 (-(((S256 a.toNat).natAbs / (S256 b.toNat).natAbs : Nat) : Int))
      else U256 (((S256 a.toNat).natAbs / (S256 b.toNat).natAbs : Nat) : Int)) =
      ((if b = 0 then 0 else a.sdiv b : Word).toNat : Int) := by
  rw [S256_word, S256_word]
  by_cases hb : b = 0
  · simp [hb, Sign]
  · have hb' : b.toInt ≠ 0 := (toInt_eq_zero_iff b).not.mpr hb
    rw [if_neg hb, word_eq_U256_toInt, BitVec.toInt_sdiv, U256_bmod]
    by_cases ha : a.toInt = 0
    · simp [ha, Sign, U256, tt256]
    · rw [if_neg (by simp [Sign, ha, hb']), Int.tdiv_eq_natAbs_div ha hb', apply_ite U256]
      rfl

theorem opSmod_word :
    (if Sign (S256 b.toNat) = 0 then 0
      else if Sign (S256 a.toNat) < 0 then
        U256 (-(((S256 a.toNat).natAbs % (S256 b.toNat).natAbs : Nat) : Int))
      else U256 (((S256 a.toNat).natAbs % (S256 b.toNat).natAbs : Nat) : Int)) =
      ((if b = 0 then 0 else a.srem b : Word).toNat : Int) := by
  rw [S256_word, S256_word]
  by_cases hb : b = 0
  · simp [hb, Sign]
  · rw [if_neg (by simpa [Sign] using (toInt_eq_zero_iff b).not.mpr hb), if_neg hb, word_eq_U256_toInt,
      BitVec.toInt_srem, Int.tmod_eq_natAbs_mod, apply_ite U256]
    simp only [Sign, Int.sign_neg_iff]

theorem opAddmod_word :
    (if (c.toNat : Int) > 0 then U256 (((a.toNat : Int) + b.toNat) % c.toNat) else 0) =
      ((if c = 0 then 0 else BitVec.ofNat 256 ((a.toNat + b.toNat) % c.toNat) : Word).toNat : Int) := by
  by_cases hc : c = 0
  · simp [hc]
  · have hc' : 0 < c.toNat := Nat.pos_of_ne_zero fun h => hc (BitVec.eq_of_toNat_eq (by simpa using h))
    have hlt : (a.toNat + b.toNat) % c.toNat < 2 ^ 256 := lt_of_lt_of_le (Nat.mod_lt _ hc') c.isLt.le
    rw [if_pos (by exact_mod_cast hc'), if_neg hc, BitVec.toNat_ofNat, Nat.mod_eq_of_lt hlt, ← Nat.cast_add,
      ← Int.natCast_mod, U256_natCast, Nat.mod_eq_of_lt hlt]

theorem opMulmod_word :
    (if (c.toNat : Int) > 0 then U256 (((a.toNat : Int) * b.toNat) % c.toNat) else 0) =
      ((if c = 0 then 0 else BitVec.ofNat 256 ((a.toNat * b.toNat) % c.toNat) : Word).toNat : Int) := by
  by_cases hc : c = 0
  · simp [hc]
  · have hc' : 0 < c.toNat := Nat.pos_of_ne_zero fun h => hc (BitVec.eq_of_toNat_eq (by simpa using h))
    have hlt : (a.toNat * b.toNat) % c.toNat < 2 ^ 256 := lt_of_lt_of_le (Nat.mod_lt _ hc') c.isLt.le
    rw [if_pos (by exact_mod_cast hc'), if_neg hc, BitVec.toNat_ofNat, Nat.mod_eq_of_lt hlt, ← Nat.cast_mul,
      ← Int.natCast_mod, U256_natCast, Nat.mod_eq_of_lt hlt]

theorem boolWord_eq (p : Prop) [Decidable p] : boolWord (decide p) = ((if p then 1 else 0 : Word).toNat : Int) := by
  by_cases hp : p <;> simp [boolWord, hp]

theorem opLt_word : boolWord (decide ((a.toNat : Int) < b.toNat)) = ((if a < b then 1 else 0 : Word).toNat : Int) := by
  rw [boolWord_eq]
  simp only [Nat.cast_lt, ← BitVec.lt_def]

theorem opGt_word : boolWord (decide ((a.toNat : Int) > b.toNat)) = ((if b < a then 1 else 0 : Word).toNat : Int) := by
  rw [boolWord_eq]
  simp only [gt_iff_lt, Nat.cast_lt, ← BitVec.lt_def]

theorem opEq_word : boolWord (decide ((a.toNat : Int) = b.toNat)) = ((if a = b then 1 else 0 : Word).toNat : Int) := by
  rw [boolWord_eq]
  simp only [Nat.cast_inj, ← BitVec.toNat_eq]

theorem opIszero_word : (if Sign (a.toNat : Int) > 0 then 0 else 1) = ((if a = 0 then 1 else 0 : Word).toNat : Int) := by
  by_cases ha : a = 0
  · simp [ha, Sign]
  · have : 0 < (a.toNat : Int) := by
      have := (word_eq_zero_iff a).not.mpr ha
      omega
    rw [if_neg ha, if_pos (show Sign (a.toNat : Int) > 0 from Int.sign_pos_iff.mpr this)]
    rfl

theorem opSlt_word :
    (if (a.toNat : Int) ≥ tt255 ∧ (b.toNat : Int) < tt255 then 1
      else if (a.toNat : Int) < tt255 ∧ (b.toNat : Int) ≥ tt255 then 0
      else boolWord (decide ((a.toNat : Int) < b.toNat))) = ((if a.slt b then 1 else 0 : Word).toNat : Int) := by
  have h : a.slt b = true ↔ S256 a.toNat < S256 b.toNat := by
    rw [S256_word, S256_word]
    exact BitVec.slt_iff_toInt_lt
  unfold S256 tt255 tt256 at *
  have ha := a.isLt
  have hb := b.isLt
  by_cases hs : a.slt b = true
  · have hlt := h.mp hs
    rw [if_pos hs]
    split_ifs at hlt ⊢ <;> simp [boolWord] <;> omega
  · have hlt := mt h.mpr hs
    rw [if_neg hs]
    split_ifs at hlt ⊢ <;> simp [boolWord] <;> omega

theorem opSgt_word :
    (if (a.toNat : Int) ≥ tt255 ∧ (b.toNat : Int) < tt255 then 0
      else if (a.toNat : Int) < tt255 ∧ (b.toNat : Int) ≥ tt255 then 1
      else boolWord (decide ((a.toNat : Int) > b.toNat))) = ((if b.slt a then 1 else 0 : Word).toNat : Int) := by
  have h : b.slt a = true ↔ S256 b.toNat < S256 a.toNat := by
    rw [S256_word, S256_word]
    exact BitVec.slt_iff_toInt_lt
  unfold S256 tt255 tt256 at *
  have ha := a.isLt
  have hb := b.isLt
  by_cases hs : b.slt a = true
  · have hlt := h.mp hs
    rw [if_pos hs]
    split_ifs at hlt ⊢ <;> simp [boolWord] <;> omega
  · have hlt := mt h.mpr hs
    rw [if_neg hs]
    split_ifs at hlt ⊢ <;> simp [boolWord] <;> omega

theorem opAnd_word : Int.land a.toNat b.toNat = (a &&& b).toNat := by
  rw [BitVec.toNat_and]
  rfl

theorem opOr_word : Int.lor a.toNat b.toNat = (a ||| b).toNat := by
  rw [BitVec.toNat_or]
  rfl

theorem opXor_word : Int.xor a.toNat b.toNat = (a ^^^ b).toNat := by
  rw [BitVec.toNat_xor]
  rfl

theorem opNot_word : U256 (Int.lnot a.toNat) = (~~~a).toNat := by
  rw [BitVec.toNat_not]
  show U256 (Int.negSucc a.toNat) = _
  rw [Int.negSucc_eq, U256, tt256]
  have := a.isLt
  push_cast [Nat.sub_sub, Nat.cast_sub (show a.toNat + 1 ≤ 2 ^ 256 by omega)]
  omega

theorem opByte_word :
    (if (a.toNat : Int) < 32 then ((mathByte b.toNat (Int64 a.toNat) : Nat) : Int) else 0) =
      ((if a.toNat < 32 then (b >>> (8 * (31 - a.toNat))) &&& 0xff else 0 : Word).toNat : Int) := by
  by_cases ha : a.toNat < 32
  · rw [if_pos (by exact_mod_cast ha), if_pos ha, Int64_of_lt (by positivity) (by omega), mathByte,
      if_neg (by omega), BitVec.toNat_and, BitVec.toNat_ushiftRight, Nat.shiftRight_eq_div_pow]
    have h31 : (31 - (a.toNat : Int)).toNat = 31 - a.toNat := by omega
    have h256 : (256 : Nat) ^ (31 - a.toNat) = 2 ^ (8 * (31 - a.toNat)) := by rw [pow_mul]; rfl
    have h255 : (0xff : Word).toNat = 2 ^ 8 - 1 := rfl
    rw [h31, h256, h255, Nat.and_two_pow_sub_one_eq_mod]
    rfl
  · rw [if_neg (by exact_mod_cast ha), if_neg ha]
    rfl

theorem opSHL_word :
    (if U256 a.toNat ≥ 256 then 0 else U256 (U256 b.toNat * 2 ^ (Uint64 (U256 a.toNat)))) =
      (b <<< a.toNat).toNat := by
  rw [U256_word, U256_word, BitVec.toNat_shiftLeft, Nat.shiftLeft_eq]
  by_cases ha : a.toNat < 256
  · have hu : Uint64 a.toNat = a.toNat := by
      rw [Uint64, Int.natAbs_natCast, Nat.mod_eq_of_lt (by omega)]
    rw [if_neg (by exact_mod_cast Nat.not_le.mpr ha), hu, ← U256_natCast]
    push_cast
    rfl
  · -- a shift of 256 or more leaves no bit inside the word
    have hd : 2 ^ 256 ∣ b.toNat * 2 ^ a.toNat :=
      Dvd.dvd.mul_left (Nat.pow_dvd_pow 2 (by omega)) _
    rw [if_pos (by exact_mod_cast Nat.le_of_not_lt ha), Nat.mod_eq_zero_of_dvd hd]
    rfl

theorem opSHR_word :
    (if U256 a.toNat ≥ 256 then 0 else U256 (U256 b.toNat / 2 ^ (Uint64 (U256 a.toNat)))) =
      (b >>> a.toNat).toNat := by
  rw [U256_word, U256_word, BitVec.toNat_ushiftRight, Nat.shiftRight_eq_div_pow]
  by_cases ha : a.toNat < 256
  · have hu : Uint64 a.toNat = a.toNat := by
      rw [Uint64, Int.natAbs_natCast, Nat.mod_eq_of_lt (by omega)]
    have hq : (b.toNat : Int) / 2 ^ a.toNat = ((b.toNat / 2 ^ a.toNat : Nat) : Int) := by
      push_cast
      rfl
    rw [if_neg (by exact_mod_cast Nat.not_le.mpr ha), hu, hq, U256_natCast,
      Nat.mod_eq_of_lt (lt_of_le_of_lt (Nat.div_le_self _ _) b.isLt)]
  · have hlt : b.toNat < 2 ^ a.toNat := lt_of_lt_of_le b.isLt (Nat.pow_le_pow_right (by decide) (by omega))
    rw [if_pos (by exact_mod_cast Nat.le_of_not_lt ha), Nat.div_eq_of_lt hlt]
    rfl

theorem opSAR_word :
    (if U256 a.toNat ≥ 256 then U256 (if Sign (S256 b.toNat) ≥ 0 then 0 else -1)
      else U256 (S256 b.toNat / 2 ^ (Uint64 (U256 a.toNat)))) = (b.sshiftRight a.toNat).toNat := by
  rw [U256_word, S256_word, word_eq_U256_toInt (b.sshiftRight _), BitVec.toInt_sshiftRight,
    Int.shiftRight_eq_div_pow]
  by_cases ha : a.toNat < 256
  · have hu : Uint64 a.toNat = a.toNat := by
      rw [Uint64, Int.natAbs_natCast, Nat.mod_eq_of_lt (by omega)]
    rw [if_neg (by exact_mod_cast Nat.not_le.mpr ha), hu]
    push_cast
    rfl
  · have hpow : (2 : Int) ^ 256 ≤ ((2 ^ a.toNat : Nat) : Int) := by
      have : (2 : Int) ^ 256 ≤ 2 ^ a.toNat := pow_le_pow_right₀ (by norm_num) (by omega)
      exact_mod_cast this
    have hb := b.isLt
    have hbi := BitVec.toInt_eq_toNat_cond b
    rw [if_pos (by exact_mod_cast Nat.le_of_not_lt ha)]
    congr 1
    by_cases hs : 0 ≤ b.toInt
    · rw [if_pos (show Sign b.toInt ≥ 0 from Int.sign_nonneg_iff.mpr hs), Int.ediv_eq_zero_of_lt hs (by split_ifs at hbi <;> push_cast at * <;> omega)]
    · -- a negative reading lies in `[-2^255, 0)`, so its floor quotient is `-1`
      rw [if_neg (show ¬ Sign b.toInt ≥ 0 from fun h => hs (Int.sign_nonneg_iff.mp h))]
      have hq := (Int.ediv_emod_unique (a := b.toInt) (b := ((2 ^ a.toNat : Nat) : Int)) (q := -1)
        (r := b.toInt + ((2 ^ a.toNat : Nat) : Int)) (by positivity)).mpr
        ⟨by ring, by split_ifs at hbi <;> push_cast at * <;> omega, by split_ifs at hbi <;> push_cast at * <;> omega⟩
      exact hq.1.symm

theorem expLoop_eq (k : Nat) : ∀ (r b e : Nat), r < 2 ^ 256 →
    expLoop k r b e = ((r * b ^ (e % 2 ^ k) % 2 ^ 256 : Nat) : Int) := by
  induction k with
  | zero =>
    intro r b e hr
    rw [expLoop, pow_zero, Nat.mod_one, pow_zero, mul_one, Nat.mod_eq_of_lt hr]
  | succ k ih =>
    intro r b e hr
    have hsq : U256 ((b : Int) * b) = ((b * b % 2 ^ 256 : Nat) : Int) := by
      rw [← Nat.cast_mul, U256_natCast]
    -- squaring the reduced base is squaring the base, and the exponent loses its low bit
    have hbb : ∀ x j, x * (b * b % 2 ^ 256) ^ j % 2 ^ 256 = x * (b * b) ^ j % 2 ^ 256 := fun x j => by
      rw [← Nat.mul_mod_mod, ← Nat.pow_mod, Nat.mul_mod_mod]
    have he : e % 2 ^ (k + 1) = e % 2 + 2 * (e / 2 % 2 ^ k) := by rw [pow_succ', Nat.mod_mul]
    have hpow : ∀ j, b ^ (e % 2 + 2 * j) = b ^ (e % 2) * (b * b) ^ j := fun j => by
      rw [pow_add, pow_mul, sq]
    rw [expLoop]
    by_cases hodd : e % 2 = 1
    · have hrb : U256 ((r : Int) * b) = ((r * b % 2 ^ 256 : Nat) : Int) := by
        rw [← Nat.cast_mul, U256_natCast]
      rw [if_pos hodd, hrb, hsq, ih _ _ _ (Nat.mod_lt _ (by positivity)), hbb, Nat.mod_mul_mod, he, hpow, hodd,
        pow_one, mul_assoc]
    · have h0 : e % 2 = 0 := by omega
      rw [if_neg hodd, hsq, ih _ _ _ hr, hbb, he, hpow, h0, pow_zero, one_mul]

theorem mathExp_eq (a : Word) (e : Nat) : mathExp a.toNat e = ((a.toNat ^ e % 2 ^ 256 : Nat) : Int) := by
  have hbits : e < 2 ^ BitLen e := by
    unfold BitLen
    split_ifs with h
    · simp only [Nat.cast_eq_zero] at h
      simp [h]
    · rw [Int.natAbs_natCast]
      exact Nat.lt_log2_self
  have hk : e < 2 ^ (64 * ((BitLen e + 63) / 64)) :=
    lt_of_lt_of_le hbits (Nat.pow_le_pow_right (by decide) (by omega))
  have hloop := expLoop_eq (64 * ((BitLen e + 63) / 64)) 1 a.toNat e (by norm_num)
  rw [Nat.cast_one, one_mul, Nat.mod_eq_of_lt hk] at hloop
  rw [mathExp, Int.natAbs_natCast, hloop]

theorem opExp_word :
    (if (b.toNat : Int) < 1 then 1 else if Sign (a.toNat : Int) = 0 then 0
      else if (b.toNat : Int) = 1 then (a.toNat : Int) else mathExp a.toNat b.toNat) =
      ((BitVec.ofNat 256 (a.toNat ^ b.toNat)).toNat : Int) := by
  rw [BitVec.toNat_ofNat]
  by_cases hb0 : b.toNat = 0
  · simp [hb0]
  rw [if_neg (by omega)]
  by_cases ha0 : a.toNat = 0
  · simp [ha0, Sign, zero_pow hb0]
  rw [if_neg (by simpa [Sign] using ha0)]
  by_cases hb1 : b.toNat = 1
  · rw [if_pos (by exact_mod_cast hb1), hb1, pow_one, Nat.mod_eq_of_lt a.isLt]
  · rw [if_neg (by exact_mod_cast hb1), mathExp_eq]

theorem opSignExtend_word (ha : a.toNat < 31) :
    U256 (if Int.testBit b.toNat (Uint64 a.toNat * 8 + 7)
        then Int.lor b.toNat (Int.lnot (2 ^ (Uint64 a.toNat * 8 + 7) - 1))
        else Int.land b.toNat (2 ^ (Uint64 a.toNat * 8 + 7) - 1)) =
      ((b.setWidth (8 * a.toNat + 8)).signExtend 256).toNat := by
  have hu : Uint64 a.toNat = a.toNat := by
    rw [Uint64, Int.natAbs_natCast, Nat.mod_eq_of_lt (by omega)]
  have hk : 8 * a.toNat + 8 = (a.toNat * 8 + 7) + 1 := by omega
  rw [hu, BitVec.toNat_signExtend, BitVec.toNat_setWidth, BitVec.toNat_setWidth, BitVec.msb_eq_getLsbD_last,
    BitVec.getLsbD_setWidth, ← BitVec.testBit_toNat, hk]
  set k := a.toNat * 8 + 7
  have hk256 : k + 1 ≤ 256 := by omega
  have hmod : b.toNat % 2 ^ (k + 1) % 2 ^ 256 = b.toNat % 2 ^ (k + 1) :=
    Nat.mod_eq_of_lt (lt_of_lt_of_le (Nat.mod_lt _ (by positivity)) (Nat.pow_le_pow_right (by decide) hk256))
  -- the remainder one bit up adds bit `k`
  have hsplit := Nat.mod_pow_succ (x := b.toNat) (b := 2) (k := k)
  have hpk : (2 : Nat) ^ (k + 1) = 2 * 2 ^ k := by rw [pow_succ']
  have hp256 : 2 ^ (k + 1) ≤ 2 ^ 256 := Nat.pow_le_pow_right (by decide) hk256
  have hlt := Nat.mod_lt b.toNat (Nat.two_pow_pos k)
  show U256 (if b.toNat.testBit k then _ else _) = _
  rw [hmod, show k + 1 - 1 = k from rfl, decide_eq_true (Nat.lt_succ_self k), Bool.true_and]
  cases hb : b.toNat.testBit k
  · have hdiv : b.toNat / 2 ^ k % 2 = 0 := by
      rw [Nat.testBit_eq_decide_div_mod_eq, decide_eq_false_iff_not] at hb
      omega
    rw [if_neg Bool.false_ne_true, Int.land_two_pow_sub_one, U256_natCast,
      Nat.mod_eq_of_lt (lt_of_lt_of_le hlt (Nat.pow_le_pow_right (by decide) (by omega))),
      if_neg Bool.false_ne_true, add_zero, hsplit, hdiv, mul_zero, add_zero]
  · have hdiv : b.toNat / 2 ^ k % 2 = 1 := by
      rw [Nat.testBit_eq_decide_div_mod_eq, decide_eq_true_iff] at hb
      exact hb
    rw [if_pos rfl, Int.lor_lnot_two_pow_sub_one, U256, tt256, if_pos rfl, hsplit, hdiv, mul_one, hpk]
    rw [hpk] at hp256
    have hcast : (2 : Int) ^ k = ((2 ^ k : Nat) : Int) := by push_cast; rfl
    rw [hcast]
    generalize b.toNat % 2 ^ k = m at hlt ⊢
    generalize (2 : Nat) ^ k = P at hlt hp256 ⊢
    push_cast [Nat.cast_sub hp256]
    omega

end Values

/-! ### Every opcode against its Yellow-Paper word -/

section Steps

variable (env : Env) (run : RunFn) (fr : Frame) (st : EVMState) (rest : Stack)

theorem opSignExtend_run (a b : Word) :
    opSignExtend env run { fr with stack := (a.toNat : Int) :: (b.toNat : Int) :: rest } st =
      .ok (({ fr with stack :=
        ((if a.toNat < 31 then (b.setWidth (8 * a.toNat + 8)).signExtend 256 else b : Word).toNat : Int) :: rest },
        [], none), st) := by
  by_cases ha : a.toNat < 31
  · rw [if_pos ha, ← opSignExtend_word a b ha]
    show (if (a.toNat : Int) < 31 then (_ : VM (Frame × Bytes × Option VmError)) else _) st = _
    rw [if_pos (by exact_mod_cast ha)]
    rfl
  · rw [if_neg ha]
    show (if (a.toNat : Int) < 31 then (_ : VM (Frame × Bytes × Option VmError)) else _) st = _
    rw [if_neg (by exact_mod_cast ha)]
    rfl

/-- Every arithmetic, comparison and bitwise opcode pops exactly its operands and
pushes the Yellow-Paper word, leaving the rest of the stack and the frame as they
were. -/
theorem ArithOp.execute_yellowPaper (op : ArithOp) (a b c : Word) :
    op.execute env run { fr with stack := ([a, b, c].take op.arity).map (fun w => (w.toNat : Int)) ++ rest } st =
      .ok (({ fr with stack := ((op.yellowPaper a b c).toNat : Int) :: rest }, [], none), st) := by
  cases op <;> dsimp only [ArithOp.execute, ArithOp.arity, ArithOp.yellowPaper, List.take, List.map,
    List.cons_append, List.nil_append]
  case ADD => exact binaryOp_word env run fr st rest (opAdd_word a b)
  case MUL => exact binaryOp_word env run fr st rest (opMul_word a b)
  case SUB => exact binaryOp_word env run fr st rest (opSub_word a b)
  case DIV => exact binaryOp_word env run fr st rest (opDiv_word a b)
  case SDIV => exact binaryOp_word env run fr st rest (opSdiv_word a b)
  case MOD => exact binaryOp_word env run fr st rest (opMod_word a b)
  case SMOD => exact binaryOp_word env run fr st rest (opSmod_word a b)
  case ADDMOD => exact ternaryOp_word env run fr st rest (opAddmod_word a b c)
  case MULMOD => exact ternaryOp_word env run fr st rest (opMulmod_word a b c)
  case EXP => exact binaryOp_word env run fr st rest (opExp_word a b)
  case SIGNEXTEND => exact opSignExtend_run env run fr st rest a b
  case LT => exact binaryOp_word env run fr st rest (opLt_word a b)
  case GT => exact binaryOp_word env run fr st rest (opGt_word a b)
  case SLT => exact binaryOp_word env run fr st rest (opSlt_word a b)
  case SGT => exact binaryOp_word env run fr st rest (opSgt_word a b)
  case EQ => exact binaryOp_word env run fr st rest (opEq_word a b)
  case ISZERO => exact unaryOp_word env run fr st rest (opIszero_word a)
  case AND => exact binaryOp_word env run fr st rest (opAnd_word a b)
  case OR => exact binaryOp_word env run fr st rest (opOr_word a b)
  case XOR => exact binaryOp_word env run fr st rest (opXor_word a b)
  case NOT => exact unaryOp_word env run fr st rest (opNot_word a)
  case BYTE => exact binaryOp_word env run fr st rest (opByte_word a b)
  case SHL => exact binaryOp_word env run fr st rest (opSHL_word a b)
  case SHR => exact binaryOp_word env run fr st rest (opSHR_word a b)
  case SAR => exact binaryOp_word env run fr st rest (opSAR_word a b)

end Steps

end Dipper
