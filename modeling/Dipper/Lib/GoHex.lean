import Dipper.Lib.GoText

/-!
# Hexadecimal text in Go's standard library

The pieces of Go's standard library that write and read numbers and bytes in base 16:
`encoding/hex` (`Encode`, `Decode`), `strconv.ParseUint` for a base from 2 to 36 and
`strconv.AppendUint` in base 16, and of `math/big` the words of `SetBits` and the `%x` verb.
Strings are lists of characters; Go reads these functions' input as bytes, and the two agree on
the ASCII text they accept. Each writer is read back by its reader (`Decode_Encode`,
`ParseUint_toDigits`).
-/

namespace GoHex

open Digits GoText

/-! ## `encoding/hex` -/

def hextable : List Char := "0123456789abcdef".toList

/-- `hex.Encode`: each byte as two lower-case digits, the high four bits first. -/
def Encode (src : List UInt8) : List Char :=
  src.flatMap fun v => [hextable.getD (v.toNat >>> 4) ' ', hextable.getD (v.toNat &&& 0x0f) ' ']

/-- `fromHexChar`: a hexadecimal digit of either case. -/
def fromHexChar (c : Char) : Option ℕ :=
  if '0' ≤ c ∧ c ≤ '9' then some (c.toNat - '0'.toNat)
  else if 'a' ≤ c ∧ c ≤ 'f' then some (c.toNat - 'a'.toNat + 10)
  else if 'A' ≤ c ∧ c ≤ 'F' then some (c.toNat - 'A'.toNat + 10)
  else none

/-- The errors of `hex.Decode`. -/
inductive DecodeError
  | InvalidByteError (c : Char)
  | ErrLength
  deriving DecidableEq, Repr

/-- `hex.Decode`: two digits a byte, from the left. A bad digit is reported before an odd
length, as Go checks the last digit before the length. -/
def Decode : List Char → Except DecodeError (List UInt8)
  | [] => .ok []
  | [c] => match fromHexChar c with
    | none => .error (.InvalidByteError c)
    | some _ => .error .ErrLength
  | a :: b :: rest =>
    match fromHexChar a, fromHexChar b with
    | none, _ => .error (.InvalidByteError a)
    | some _, none => .error (.InvalidByteError b)
    | some x, some y => (Decode rest).map (UInt8.ofNat (x <<< 4 ||| y) :: ·)

def DecodeString (s : List Char) : Except DecodeError (List UInt8) := Decode s

/-! ## `strconv` -/

/-- The errors of `strconv.ParseUint`. -/
inductive NumError
  | ErrSyntax
  | ErrRange
  deriving DecidableEq, Repr

/-- The digit loop of `ParseUint`: a digit of the base, then the checks that multiplying by
the base stays below 2⁶⁴ (`cutoff`) and adding the digit below `maxVal`. The value is a
natural number, so the wrap-around test `n1 < n` of Go's `uint64` is the test against
`maxVal`, which is below 2⁶⁴. -/
def ParseUint.loop (base cutoff maxVal : ℕ) : ℕ → List Char → Except NumError ℕ
  | n, [] => .ok n
  | n, c :: rest =>
    match charValue c with
    | none => .error .ErrSyntax
    | some d =>
      if d ≥ base then .error .ErrSyntax
      else if n ≥ cutoff then .error .ErrRange
      else if n * base + d > maxVal then .error .ErrRange
      else loop base cutoff maxVal (n * base + d) rest

/-- `strconv.ParseUint(s, base, bitSize)` for a base from 2 to 36 and a bit size from 1 to 64.
Base 0, which reads a prefix and underscores, is not modelled; in the other bases an underscore
is a bad digit. -/
def ParseUint (s : List Char) (base bitSize : ℕ) : Except NumError ℕ :=
  if s = [] then .error .ErrSyntax
  else
    -- the smallest number such that cutoff * base > maxUint64
    let cutoff := (2 ^ 64 - 1) / base + 1
    let maxVal := 2 ^ bitSize - 1
    ParseUint.loop base cutoff maxVal 0 s

/-- `strconv.AppendUint(dst, i, 16)`: the lower-case digits of `i` in base 16. -/
def AppendUint (dst : List Char) (i : ℕ) : List Char := dst ++ Nat.toDigits 16 i

/-! ## `math/big` -/

/-- `big.Int.SetBits`: the value of little-endian words of `W` bits. -/
def SetBits (W : ℕ) (words : List ℕ) : ℕ := words.foldr (fun w acc => w + 2 ^ W * acc) 0

/-- `fmt.Sprintf("%x", x)` of a `big.Int`: `-` for a negative value, then the lower-case digits
of its magnitude. -/
def formatHex (x : ℤ) : List Char := (if x < 0 then ['-'] else []) ++ Nat.toDigits 16 x.natAbs

/-! ## Writing and reading back -/

@[simp] theorem SetBits_nil (W : ℕ) : SetBits W [] = 0 := rfl

@[simp] theorem SetBits_cons (W w : ℕ) (words : List ℕ) :
    SetBits W (w :: words) = w + 2 ^ W * SetBits W words := rfl

theorem hextable_getD {i : ℕ} (h : i < 16) (c : Char) : hextable.getD i c = Nat.digitChar i := by
  interval_cases i <;> rfl

theorem fromHexChar_digitChar {d : ℕ} (h : d < 16) : fromHexChar (Nat.digitChar d) = some d := by
  interval_cases d <;> rfl

theorem Decode_Encode (src : List UInt8) : Decode (Encode src) = .ok src := by
  induction src with
  | nil => rfl
  | cons v src ih =>
    have hv := v.toNat_lt
    have hhi : v.toNat >>> 4 = v.toNat / 16 := Nat.shiftRight_eq_div_pow _ 4
    have hlo : v.toNat &&& 0x0f = v.toNat % 16 := Nat.and_two_pow_sub_one_eq_mod _ 4
    have hbyte : UInt8.ofNat ((v.toNat / 16) <<< 4 ||| v.toNat % 16) = v := by
      rw [← Nat.shiftLeft_add_eq_or_of_lt (Nat.mod_lt _ (by decide)), Nat.shiftLeft_eq,
        show v.toNat / 16 * 2 ^ 4 + v.toNat % 16 = v.toNat by omega]
      exact UInt8.ofNat_toNat
    rw [Encode, List.flatMap_cons, ← Encode, hhi, hlo, hextable_getD (by omega),
      hextable_getD (by omega), List.cons_append, List.cons_append, List.nil_append, Decode,
      fromHexChar_digitChar (by omega), fromHexChar_digitChar (by omega)]
    simp only [ih, Except.map, hbyte]

theorem isDigitOf_Encode (src : List UInt8) : ∀ c ∈ Encode src, IsDigitOf 16 c := by
  have hdig : ∀ {d : ℕ}, d < 16 → IsDigitOf 16 (hextable.getD d ' ') := fun hd => by
    rw [hextable_getD hd]
    exact ⟨_, hd, charValue_digitChar hd⟩
  intro c hc
  obtain ⟨v, -, hv⟩ := List.mem_flatMap.mp hc
  have hhi : v.toNat >>> 4 < 16 := by
    rw [Nat.shiftRight_eq_div_pow]
    have := v.toNat_lt
    omega
  have hlo : v.toNat &&& 0x0f < 16 := Nat.lt_of_le_of_lt Nat.and_le_right (by decide)
  rcases List.mem_pair.mp hv with rfl | rfl
  · exact hdig hhi
  · exact hdig hlo

@[simp] theorem length_Encode (src : List UInt8) : (Encode src).length = 2 * src.length := by
  simp [Encode]
  omega

theorem ParseUint.loop_eq {base cutoff maxVal : ℕ} (hcut : ∀ n, n * base ≤ maxVal → n < cutoff) :
    ∀ (n : ℕ) (s : List Char), (∀ c ∈ s, IsDigitOf base c) →
      n * base ^ s.length + value base (digitValues s) ≤ maxVal →
      ParseUint.loop base cutoff maxVal n s = .ok (n * base ^ s.length + value base (digitValues s))
  | n, [], _, _ => by simp [ParseUint.loop, digitValues]
  | n, c :: rest, hdig, hle => by
    obtain ⟨d, hd, hcv⟩ := hdig c List.mem_cons_self
    have hrest : ∀ c ∈ rest, IsDigitOf base c := fun c' hc' => hdig c' (List.mem_cons_of_mem _ hc')
    have hpow : 1 ≤ base ^ rest.length := Nat.one_le_pow _ _ (by omega)
    have htot := horner_digitValues_cons hcv hrest n
    rw [htot] at hle ⊢
    have hstep : n * base + d ≤ maxVal :=
      le_trans (Nat.le_mul_of_pos_right _ hpow) (le_trans (Nat.le_add_right _ _) hle)
    rw [ParseUint.loop, hcv]
    simp only [ge_iff_le, not_le.mpr hd, if_false, not_le.mpr (hcut n (by omega)),
      not_lt.mpr hstep]
    exact ParseUint.loop_eq hcut (n * base + d) rest hrest hle

theorem ParseUint_eq {s : List Char} {base bitSize : ℕ} (hs : s ≠ [])
    (hdig : ∀ c ∈ s, IsDigitOf base c) (hbits : bitSize ≤ 64)
    (hv : value base (digitValues s) < 2 ^ bitSize) :
    ParseUint s base bitSize = .ok (value base (digitValues s)) := by
  have hbase : 0 < base := by
    obtain ⟨c, cs, rfl⟩ := List.exists_cons_of_ne_nil hs
    obtain ⟨d, hd, -⟩ := hdig c List.mem_cons_self
    omega
  have hpow : 2 ^ bitSize ≤ 2 ^ 64 := Nat.pow_le_pow_right (by decide) hbits
  -- a value that stays within 64 bits when multiplied by the base is below the cutoff
  have hcut : ∀ n, n * base ≤ 2 ^ bitSize - 1 → n < (2 ^ 64 - 1) / base + 1 := by
    intro n hn
    have : n ≤ (2 ^ 64 - 1) / base := (Nat.le_div_iff_mul_le hbase).mpr (by omega)
    omega
  rw [ParseUint, if_neg hs]
  have h := ParseUint.loop_eq hcut 0 s hdig (by simp only [zero_mul, zero_add]; omega)
  simpa using h

theorem ParseUint_toDigits {n : ℕ} (hn : n < 2 ^ 64) : ParseUint (Nat.toDigits 16 n) 16 64 = .ok n := by
  obtain ⟨hdig, hval⟩ := toDigits_spec (show 1 < 16 by decide) le_rfl n
  have h := ParseUint_eq (by simp) hdig le_rfl (by rw [hval]; exact hn)
  rwa [hval] at h

end GoHex
