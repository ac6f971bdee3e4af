import Dipper.Lib.GoHex
import Dipper.Types.BigInt

/-!
# Package hexutil: hexadecimal text of bytes and numbers

`hexutil.go`: bytes and quantities (`uint64` and `big.Int`) as hexadecimal text. The decoders
take the text with or without the `0x` prefix (`has0xPrefix`, `checkNumber`); the encoders write
it without one. A quantity has no leading zero digit, and a big integer has at most 64 digits,
which `DecodeBig` reads a `big.Word` at a time from the last digit on.
-/

namespace Dipper
namespace Hexutil

open Digits GoText

/-- The platform Go runs on: `uint` and `big.Word` have 32 or 64 bits. -/
structure Platform where
  wordBits : ℕ
  valid : wordBits = 32 ∨ wordBits = 64

/-- A 64-bit platform. -/
def Platform.amd64 : Platform := ⟨64, Or.inr rfl⟩

/-- `uintBits`: `32 << (uint64(^uint(0)) >> 63)`, the bits of a `uint`. -/
def uintBits (p : Platform) : ℕ := p.wordBits

/-- `bigWordNibbles`: the digits of one `big.Word`. `init` counts the words of `0xFFFFFFFFFF`:
one word of 64 bits gives 16, two of 32 bits give 8. -/
def bigWordNibbles (p : Platform) : ℕ := p.wordBits / 4

theorem bigWordNibbles_pos (p : Platform) : 0 < bigWordNibbles p := by
  rcases p.valid with h | h <;> simp [bigWordNibbles, h]

theorem pow_bigWordNibbles (p : Platform) : 16 ^ bigWordNibbles p = 2 ^ p.wordBits := by
  rcases p.valid with h | h <;> simp [bigWordNibbles, h]

/-- The errors of the package, each a `*decError` of its own. -/
inductive decError
  | ErrEmptyString
  | ErrSyntax
  | ErrMissingPrefix
  | ErrOddLength
  | ErrEmptyNumber
  | ErrLeadingZero
  | ErrUint64Range
  | ErrUintRange
  | ErrBig256Range
  deriving DecidableEq, Repr

/-- `decError.Error`: the message of each error. -/
def decError.Error (p : Platform) : decError → String
  | .ErrEmptyString => "empty hex string"
  | .ErrSyntax => "invalid hex string"
  | .ErrMissingPrefix => "hex string without 0x prefix"
  | .ErrOddLength => "hex string of odd length"
  | .ErrEmptyNumber => "hex string \"0x\""
  | .ErrLeadingZero => "hex number with leading zero digits"
  | .ErrUint64Range => "hex number > 64 bits"
  | .ErrUintRange => "hex number > " ++ toString (uintBits p) ++ " bits"
  | .ErrBig256Range => "hex number > 256 bits"

/-- `mapError` on the errors of `strconv.ParseUint`. -/
def mapErrorNum : GoHex.NumError → decError
  | .ErrRange => .ErrUint64Range
  | .ErrSyntax => .ErrSyntax

/-- `mapError` on the errors of `hex.Decode`. -/
def mapErrorHex : GoHex.DecodeError → decError
  | .InvalidByteError _ => .ErrSyntax
  | .ErrLength => .ErrOddLength

def has0xPrefix : List Char → Bool
  | '0' :: 'x' :: _ | '0' :: 'X' :: _ => true
  | _ => false

theorem has0xPrefix_eq_false {s : List Char} (hs : ∀ c ∈ s, IsDigitOf 16 c) :
    has0xPrefix s = false := by
  unfold has0xPrefix
  split
  · exact absurd (hs 'x' (by simp)) (by decide)
  · exact absurd (hs 'X' (by simp)) (by decide)
  · rfl

/-! ## Bytes -/

/-- `Decode`: hexadecimal text, with or without the prefix, as bytes. -/
def Decode (input : List Char) : Except decError (List UInt8) :=
  if input.length = 0 then .error .ErrEmptyString
  else if has0xPrefix input then
    if (input.drop 2).length = 0 then .error .ErrEmptyString
    else (GoHex.DecodeString (input.drop 2)).mapError mapErrorHex
  else (GoHex.DecodeString input).mapError mapErrorHex

/-- `Encode`: two lower-case digits a byte, without the prefix. -/
def Encode (b : List UInt8) : List Char := GoHex.Encode b

theorem Decode_Encode {b : List UInt8} (hb : b ≠ []) : Decode (Encode b) = .ok b := by
  have hne : (Encode b).length ≠ 0 := by
    simpa [Encode] using hb
  rw [Decode, if_neg hne, Encode, has0xPrefix_eq_false (GoHex.isDigitOf_Encode b),
    if_neg (by simp), GoHex.DecodeString, GoHex.Decode_Encode]
  rfl

/-! ## Quantities -/

/-- `checkNumber`: the digits of a quantity, the prefix optional. -/
def checkNumber (input : List Char) : Except decError (List Char) :=
  if input.length = 0 then .error .ErrEmptyString
  else
    let input := if has0xPrefix input then input.drop 2 else input
    if input.length = 0 then .error .ErrEmptyNumber
    else if input.length > 1 ∧ input.head? = some '0' then .error .ErrLeadingZero
    else .ok input

theorem toDigits_not_leadingZero (n : ℕ) :
    ¬ ((Nat.toDigits 16 n).length > 1 ∧ (Nat.toDigits 16 n).head? = some '0') := by
  rintro ⟨hlen, hhead⟩
  -- a number of more than one digit is not zero, so its first digit is not `0`
  have hn : n ≠ 0 := by
    rintro rfl
    simp at hlen
  obtain ⟨d, ds, hds, hd0⟩ := head_digitsBE_ne_zero 16 hn
  have hd : d < 16 := digitsBE_lt (by decide) n d (by simp [hds])
  rw [toDigits_eq (by decide), hds, List.map_cons, List.head?_cons, Option.some_inj] at hhead
  interval_cases d <;> simp_all

theorem checkNumber_toDigits (n : ℕ) : checkNumber (Nat.toDigits 16 n) = .ok (Nat.toDigits 16 n) := by
  have hdig := (toDigits_spec (show 1 < 16 by decide) le_rfl n).1
  have hne : (Nat.toDigits 16 n).length ≠ 0 := by simp
  simp only [checkNumber, if_neg hne, has0xPrefix_eq_false hdig, Bool.false_eq_true, if_false,
    if_neg (toDigits_not_leadingZero n)]

def DecodeUint64 (input : List Char) : Except decError UInt64 :=
  match checkNumber input with
  | .error err => .error err
  | .ok raw =>
    match GoHex.ParseUint raw 16 64 with
    | .ok dec => .ok (UInt64.ofNat dec)
    | .error err => .error (mapErrorNum err)

/-- `EncodeUint64`: `strconv.AppendUint` in base 16, without the prefix. -/
def EncodeUint64 (i : UInt64) : List Char := GoHex.AppendUint [] i.toNat

theorem DecodeUint64_EncodeUint64 (n : UInt64) : DecodeUint64 (EncodeUint64 n) = .ok n := by
  rw [DecodeUint64, EncodeUint64, GoHex.AppendUint, List.nil_append, checkNumber_toDigits]
  simp only [GoHex.ParseUint_toDigits n.toNat_lt, UInt64.ofNat_toNat]

/-- `badNibble`: `^uint64(0)`. -/
def badNibble : ℕ := 2 ^ 64 - 1

/-- `decodeNibble`: a hexadecimal digit of either case, or `badNibble`. -/
def decodeNibble (c : Char) : ℕ :=
  if '0' ≤ c ∧ c ≤ '9' then c.toNat - '0'.toNat
  else if 'A' ≤ c ∧ c ≤ 'F' then c.toNat - 'A'.toNat + 10
  else if 'a' ≤ c ∧ c ≤ 'f' then c.toNat - 'a'.toNat + 10
  else badNibble

theorem decodeNibble_eq {c : Char} {d : ℕ} (hc : charValue c = some d) (hd : d < 16) :
    decodeNibble c = d := by
  have hle : ∀ a b : Char, a ≤ b ↔ a.toNat ≤ b.toNat := fun a b => Iff.rfl
  unfold charValue at hc
  unfold decodeNibble
  simp only [hle, Char.reduceToNat] at hc ⊢
  split_ifs at hc ⊢ <;> cases hc <;> omega

/-- The inner loop of `DecodeBig`: the digits of one word, first to last, into the word `w`
in `big.Word` arithmetic; `none` at a bad digit. -/
def decodeWord (p : Platform) (w : ℕ) : List Char → Option ℕ
  | [] => some w
  | c :: rest =>
    if decodeNibble c = badNibble then none
    else decodeWord p ((w * 16 + decodeNibble c) % 2 ^ p.wordBits) rest

theorem decodeWord_eq (p : Platform) :
    ∀ (w : ℕ) (cs : List Char), (∀ c ∈ cs, IsDigitOf 16 c) →
      w * 16 ^ cs.length + value 16 (digitValues cs) < 2 ^ p.wordBits →
      decodeWord p w cs = some (w * 16 ^ cs.length + value 16 (digitValues cs))
  | w, [], _, _ => by simp [decodeWord, digitValues]
  | w, c :: rest, hdig, hlt => by
    obtain ⟨d, hd, hcv⟩ := hdig c List.mem_cons_self
    have hrest : ∀ c ∈ rest, IsDigitOf 16 c := fun c' hc' => hdig c' (List.mem_cons_of_mem _ hc')
    have hpow : 1 ≤ 16 ^ rest.length := Nat.one_le_pow _ _ (by decide)
    rw [horner_digitValues_cons hcv hrest w] at hlt ⊢
    have hstep : w * 16 + d < 2 ^ p.wordBits :=
      lt_of_le_of_lt (le_trans (Nat.le_mul_of_pos_right _ hpow) (Nat.le_add_right _ _)) hlt
    have hbad : d ≠ badNibble := by
      unfold badNibble
      omega
    rw [decodeWord, decodeNibble_eq hcv hd, if_neg hbad, Nat.mod_eq_of_lt hstep]
    exact decodeWord_eq p _ rest hrest hlt

/-- The outer loop of `DecodeBig`: `k` words more, the next made of the digits of `raw` that
end at `stop` (the source's `end`) and start `bigWordNibbles` before, or at the first. -/
def decodeWords (p : Platform) (raw : List Char) : ℕ → ℕ → Option (List ℕ)
  | 0, _ => some []
  | k + 1, stop =>
    let start := stop - bigWordNibbles p
    match decodeWord p 0 ((raw.take stop).drop start) with
    | none => none
    | some w => (decodeWords p raw k start).map (w :: ·)

theorem decodeWords_eq (p : Platform) {raw : List Char} (hraw : ∀ c ∈ raw, IsDigitOf 16 c) :
    ∀ (k stop : ℕ), stop ≤ raw.length → stop ≤ k * bigWordNibbles p →
      ∃ words, decodeWords p raw k stop = some words ∧
        GoHex.SetBits p.wordBits words = value 16 (digitValues (raw.take stop))
  | 0, stop, _, hk => by
    obtain rfl : stop = 0 := by simpa using hk
    exact ⟨[], rfl, by simp [digitValues]⟩
  | k + 1, stop, hlen, hk => by
    let start := stop - bigWordNibbles p
    let chunk := (raw.take stop).drop start
    have hchunk : ∀ c ∈ chunk, IsDigitOf 16 c :=
      fun c hc => hraw c (List.mem_of_mem_take (List.mem_of_mem_drop hc))
    have hclen : chunk.length = stop - start := by simp [chunk]; omega
    have hclt : value 16 (digitValues chunk) < 2 ^ p.wordBits := by
      rw [← pow_bigWordNibbles]
      calc value 16 (digitValues chunk) < 16 ^ (digitValues chunk).length :=
            value_lt fun d hd => ?_
        _ ≤ 16 ^ bigWordNibbles p := Nat.pow_le_pow_right (by decide) (by
            rw [length_digitValues hchunk, hclen]; omega)
      obtain ⟨c, hc, hcd⟩ := List.mem_filterMap.mp hd
      obtain ⟨d', hd', hcd'⟩ := hchunk c hc
      rw [hcd] at hcd'
      cases hcd'
      exact hd'
    have hword := decodeWord_eq p 0 chunk hchunk (by simpa using hclt)
    rw [zero_mul, zero_add] at hword
    obtain ⟨words, hws, hset⟩ := decodeWords_eq p hraw k start (by omega) (by
      rw [Nat.succ_mul] at hk; omega)
    refine ⟨value 16 (digitValues chunk) :: words, ?_, ?_⟩
    · show (match decodeWord p 0 chunk with
        | none => none
        | some w => (decodeWords p raw k start).map (w :: ·)) = _
      rw [hword, hws]
      rfl
    -- the digits before `stop` are those before `start`, then the word's own
    have hsplit : raw.take stop = raw.take start ++ chunk := by
      rw [← List.take_append_drop start (raw.take stop), List.take_take, Nat.min_eq_left (by omega)]
    rw [GoHex.SetBits_cons, hset, hsplit, digitValues_append, value_append, length_digitValues hchunk,
      hclen]
    by_cases hfull : bigWordNibbles p ≤ stop
    · rw [show stop - start = bigWordNibbles p by omega, pow_bigWordNibbles]
      ring
    · rw [show start = 0 by omega]
      simp [digitValues]

/-- What `DecodeBig` does after `checkNumber`, and `Big.UnmarshalText` after
`checkNumberText`: `len(raw)/bigWordNibbles + 1` words from the last digit on, then
`SetBits`. -/
def decodeBigRaw (p : Platform) (raw : List Char) : Except decError ℤ :=
  if raw.length > 64 then .error .ErrBig256Range
  else
    match decodeWords p raw (raw.length / bigWordNibbles p + 1) raw.length with
    | none => .error .ErrSyntax
    | some words => .ok (GoHex.SetBits p.wordBits words)

theorem decodeBigRaw_eq (p : Platform) {raw : List Char} (hraw : ∀ c ∈ raw, IsDigitOf 16 c)
    (hlen : raw.length ≤ 64) : decodeBigRaw p raw = .ok (value 16 (digitValues raw)) := by
  have hnib := bigWordNibbles_pos p
  have henough : raw.length ≤ (raw.length / bigWordNibbles p + 1) * bigWordNibbles p := by
    rw [Nat.succ_mul]
    exact (Nat.lt_div_mul_add hnib).le
  obtain ⟨words, hws, hset⟩ := decodeWords_eq p hraw _ raw.length le_rfl henough
  rw [decodeBigRaw, if_neg (by omega), hws]
  simp only [hset, List.take_length]

def DecodeBig (p : Platform) (input : List Char) : Except decError ℤ :=
  match checkNumber input with
  | .error err => .error err
  | .ok raw => decodeBigRaw p raw

/-- `EncodeBig`: `0`, or `%x` without the prefix. -/
def EncodeBig (bigint : ℤ) : List Char :=
  if BitLen bigint = 0 then ['0'] else GoHex.formatHex bigint

theorem EncodeBig_natCast (n : ℕ) : EncodeBig n = Nat.toDigits 16 n := by
  rcases Nat.eq_zero_or_pos n with rfl | hn
  · rfl
  · have hbit : BitLen (n : ℤ) ≠ 0 := by simp [BitLen]; omega
    simp [EncodeBig, hbit, GoHex.formatHex]

theorem decodeBigRaw_toDigits (p : Platform) {n : ℕ} (hn : n < 2 ^ 256) :
    decodeBigRaw p (Nat.toDigits 16 n) = .ok n := by
  obtain ⟨hdig, hval⟩ := toDigits_spec (show 1 < 16 by decide) le_rfl n
  have hlen : (Nat.toDigits 16 n).length ≤ 64 := by
    rw [toDigits_eq (by decide), List.length_map]
    exact length_digitsBE_le (by decide) (by decide) (by simpa using hn)
  rw [decodeBigRaw_eq p hdig hlen, hval]

theorem DecodeBig_EncodeBig (p : Platform) {x : ℤ} (hx0 : 0 ≤ x) (hx : x < 2 ^ 256) :
    DecodeBig p (EncodeBig x) = .ok x := by
  obtain ⟨n, rfl⟩ := Int.eq_ofNat_of_zero_le hx0
  rw [DecodeBig, EncodeBig_natCast, checkNumber_toDigits]
  exact decodeBigRaw_toDigits p (by exact_mod_cast hx)

end Hexutil
end Dipper
