import Dipper.Hexutil.Hexutil
import Dipper.Lib.GoJson

/-!
# Package hexutil: JSON

`json.go`: the types `Bytes`, `Big`, `Uint64` and `Uint` are written to JSON as strings of
hexadecimal text and read from JSON strings (`unmarshalJSON`). `Bytes` is written by `Encode`
and read through `checkText`, which takes the `0x` prefix as optional, so a byte string reads
back (`Bytes.UnmarshalJSON_MarshalJSON`). The quantity types are written by `EncodeBig` and
`strconv.AppendUint` without the prefix, but read through `checkNumberText`, which wants it: what
`json.Marshal` writes of a `Big`, a `Uint64` or a `Uint` does not read back
(`Big.UnmarshalJSON_marshalText` and the like), while the same text behind the prefix does
(`Big.UnmarshalJSON_prefixed` and the like).
-/

namespace Dipper
namespace Hexutil

open Digits GoText

/-- `bytesT.String()`. -/
def bytesT : String := "hexutil.Bytes"

/-- `bigT.String()`: `Big` is read through a pointer. -/
def bigT : String := "*hexutil.Big"

/-- `uint64T.String()`. -/
def uint64T : String := "hexutil.Uint64"

/-- `uintT.String()`. -/
def uintT : String := "hexutil.Uint"

/-- `isString`: a JSON string literal, by its first and last character. -/
def isString (input : List Char) : Bool :=
  decide (input.length ≥ 2) && input.head? == some '"' && input.getLast? == some '"'

/-- `bytesHave0xPrefix`: `has0xPrefix` on bytes. -/
def bytesHave0xPrefix (input : List Char) : Bool := has0xPrefix input

/-- `checkText`: the digits of a byte string, the prefix wanted or optional. The empty text is
allowed. -/
def checkText (input : List Char) (wantPrefix : Bool) : Except decError (List Char) :=
  if input.length = 0 then .ok []
  else if !bytesHave0xPrefix input && wantPrefix then .error .ErrMissingPrefix
  else
    let input := if bytesHave0xPrefix input then input.drop 2 else input
    if input.length % 2 ≠ 0 then .error .ErrOddLength else .ok input

/-- `checkNumberText`: the digits of a quantity after the prefix, which it wants. The empty
text is allowed. -/
def checkNumberText (input : List Char) : Except decError (List Char) :=
  if input.length = 0 then .ok []
  else if !bytesHave0xPrefix input then .error .ErrMissingPrefix
  else
    let input := input.drop 2
    if input.length = 0 then .error .ErrEmptyNumber
    else if input.length > 1 ∧ input.head? = some '0' then .error .ErrLeadingZero
    else .ok input

theorem checkNumberText_missing {s : List Char} (hs : s ≠ []) (hp : has0xPrefix s = false) :
    checkNumberText s = .error .ErrMissingPrefix := by
  rw [checkNumberText, if_neg (by simpa using hs), bytesHave0xPrefix, hp]
  rfl

theorem checkNumberText_prefixed (n : ℕ) :
    checkNumberText ('0' :: 'x' :: Nat.toDigits 16 n) = .ok (Nat.toDigits 16 n) := by
  have hne : (Nat.toDigits 16 n).length ≠ 0 := by simp
  simp only [checkNumberText, List.length_cons, bytesHave0xPrefix, has0xPrefix, List.drop_succ_cons,
    List.drop_zero, Bool.not_true, Bool.false_eq_true, if_false, if_neg hne,
    if_neg (toDigits_not_leadingZero n)]
  simp

/-- The text of a `json.UnmarshalTypeError` for a value outside a struct. -/
def UnmarshalTypeError (value typ : String) : String :=
  "json: cannot unmarshal " ++ value ++ " into Go value of type " ++ typ

/-- `wrapTypeError`: a `decError` as a `json.UnmarshalTypeError` with its message. -/
def wrapTypeError {α : Type} (p : Platform) (typ : String) : Except decError α → Except String α
  | .ok a => .ok a
  | .error err => .error (UnmarshalTypeError (err.Error p) typ)

def errNonString (typ : String) : String := UnmarshalTypeError "non-string" typ

/-- The `UnmarshalJSON` methods: a JSON string, whose contents the type's `UnmarshalText`
reads. -/
def unmarshalJSON {α : Type} (p : Platform) (typ : String)
    (unmarshalText : List Char → Except decError α) (input : List Char) : Except String α :=
  if !isString input then .error (errNonString typ)
  else wrapTypeError p typ (unmarshalText (input.drop 1).dropLast)

theorem unmarshalJSON_literal {α : Type} (p : Platform) (typ : String)
    (unmarshalText : List Char → Except decError α) (s : List Char) :
    unmarshalJSON p typ unmarshalText ('"' :: s ++ ['"']) = wrapTypeError p typ (unmarshalText s) := by
  have hstr : isString ('"' :: s ++ ['"']) = true := by
    rw [isString, List.getLast?_concat]
    simp
  rw [unmarshalJSON, hstr, Bool.not_true, if_neg (by decide), List.drop_one, List.cons_append,
    List.tail_cons, List.dropLast_concat]

theorem unmarshalWith_marshalText {α : Type} (p : Platform) (typ : String)
    (unmarshalText : List Char → Except decError α) {s : List Char}
    (hs : ∀ c ∈ s, GoJson.IsPlain c = true) :
    GoJson.unmarshalWith (unmarshalJSON p typ unmarshalText) (GoJson.marshalText s) =
      wrapTypeError p typ (unmarshalText s) := by
  rw [GoJson.marshalText, GoJson.unmarshalWith_quote, GoJson.quote_of_isPlain hs,
    unmarshalJSON_literal]

/-! ## What the encoders write -/

theorem isPlain_of_isDigitOf {c : Char} (h : IsDigitOf 16 c) : GoJson.IsPlain c = true := by
  obtain ⟨d, -, hd⟩ := h
  exact GoJson.isPlain_of_charValue hd

theorem toDigits_text (n : ℕ) : Nat.toDigits 16 n ≠ [] ∧ has0xPrefix (Nat.toDigits 16 n) = false ∧
    ∀ c ∈ Nat.toDigits 16 n, GoJson.IsPlain c = true := by
  have hdig := (toDigits_spec (show 1 < 16 by decide) le_rfl n).1
  exact ⟨by simp, has0xPrefix_eq_false hdig, fun c hc => isPlain_of_isDigitOf (hdig c hc)⟩

theorem EncodeBig_text (x : ℤ) : EncodeBig x ≠ [] ∧ has0xPrefix (EncodeBig x) = false ∧
    ∀ c ∈ EncodeBig x, GoJson.IsPlain c = true := by
  obtain ⟨hne, hp, hplain⟩ := toDigits_text x.natAbs
  unfold EncodeBig GoHex.formatHex
  split_ifs with h0 hneg
  · exact ⟨by simp, rfl, fun c hc => by rw [List.mem_singleton.mp hc]; decide⟩
  · refine ⟨by simp, rfl, fun c hc => ?_⟩
    rcases List.mem_cons.mp hc with rfl | hc
    · decide
    · exact hplain c hc
  · simp only [List.nil_append]
    exact ⟨hne, hp, hplain⟩

theorem isPlain_prefixed {s : List Char} (h : ∀ c ∈ s, GoJson.IsPlain c = true) :
    ∀ c ∈ '0' :: 'x' :: s, GoJson.IsPlain c = true := by
  simp only [List.mem_cons, forall_eq_or_imp]
  exact ⟨by decide, by decide, h⟩

/-! ## Bytes -/

/-- `Bytes.MarshalJSON`: `json.Marshal(Encode(b))`. -/
def Bytes.MarshalJSON (b : List UInt8) : List Char := GoJson.quote (Encode b)

def Bytes.UnmarshalText (input : List Char) : Except decError (List UInt8) :=
  match checkText input false with
  | .error err => .error err
  | .ok raw => (GoHex.Decode raw).mapError mapErrorHex

def Bytes.UnmarshalJSON (p : Platform) : List Char → Except String (List UInt8) :=
  unmarshalJSON p bytesT Bytes.UnmarshalText

theorem Bytes.UnmarshalJSON_MarshalJSON (p : Platform) (b : List UInt8) :
    GoJson.unmarshalWith (Bytes.UnmarshalJSON p) (Bytes.MarshalJSON b) = .ok b := by
  have hdig : ∀ c ∈ Encode b, IsDigitOf 16 c := GoHex.isDigitOf_Encode b
  have hmarshal : Bytes.MarshalJSON b = GoJson.marshalText (Encode b) := rfl
  rw [hmarshal, Bytes.UnmarshalJSON, unmarshalWith_marshalText p bytesT _
    fun c hc => isPlain_of_isDigitOf (hdig c hc)]
  -- an even number of digits with no prefix passes `checkText`
  have hcheck : checkText (Encode b) false = .ok (Encode b) := by
    by_cases hb : b = []
    · subst hb
      rfl
    · have hne : (Encode b).length ≠ 0 := by simpa [Encode] using hb
      have heven : (Encode b).length % 2 = 0 := by simp [Encode, GoHex.length_Encode]
      simp only [checkText, if_neg hne, bytesHave0xPrefix, has0xPrefix_eq_false hdig, Bool.not_false,
        Bool.true_and, Bool.false_eq_true, if_false, heven, ne_eq, not_true_eq_false]
  rw [Bytes.UnmarshalText, hcheck]
  simp [Encode, GoHex.Decode_Encode, Except.mapError, wrapTypeError]

/-! ## Big -/

def Big.MarshalText (b : ℤ) : List Char := EncodeBig b

/-- `Big.UnmarshalText`: the loop of `DecodeBig` after `checkNumberText`. -/
def Big.UnmarshalText (p : Platform) (input : List Char) : Except decError ℤ :=
  match checkNumberText input with
  | .error err => .error err
  | .ok raw => decodeBigRaw p raw

theorem Big.UnmarshalText_missing (p : Platform) {s : List Char} (hs : s ≠ [])
    (hp : has0xPrefix s = false) : Big.UnmarshalText p s = .error .ErrMissingPrefix := by
  rw [Big.UnmarshalText, checkNumberText_missing hs hp]

theorem Big.UnmarshalText_prefixed (p : Platform) {x : ℤ} (hx0 : 0 ≤ x) (hx : x < 2 ^ 256) :
    Big.UnmarshalText p ('0' :: 'x' :: Big.MarshalText x) = .ok x := by
  obtain ⟨n, rfl⟩ := Int.eq_ofNat_of_zero_le hx0
  rw [Big.UnmarshalText, Big.MarshalText, EncodeBig_natCast, checkNumberText_prefixed]
  exact decodeBigRaw_toDigits p (by exact_mod_cast hx)

def Big.UnmarshalJSON (p : Platform) : List Char → Except String ℤ :=
  unmarshalJSON p bigT (Big.UnmarshalText p)

theorem Big.UnmarshalJSON_marshalText (p : Platform) (x : ℤ) :
    GoJson.unmarshalWith (Big.UnmarshalJSON p) (GoJson.marshalText (Big.MarshalText x)) =
      .error (UnmarshalTypeError "hex string without 0x prefix" bigT) := by
  obtain ⟨hne, hp, hplain⟩ := EncodeBig_text x
  rw [Big.UnmarshalJSON, Big.MarshalText, unmarshalWith_marshalText p bigT _ hplain,
    Big.UnmarshalText_missing p hne hp]
  rfl

theorem Big.UnmarshalJSON_prefixed (p : Platform) {x : ℤ} (hx0 : 0 ≤ x) (hx : x < 2 ^ 256) :
    GoJson.unmarshalWith (Big.UnmarshalJSON p)
      (GoJson.marshalText ('0' :: 'x' :: Big.MarshalText x)) = .ok x := by
  have hplain : ∀ c ∈ '0' :: 'x' :: Big.MarshalText x, GoJson.IsPlain c = true :=
    isPlain_prefixed (EncodeBig_text x).2.2
  rw [Big.UnmarshalJSON, unmarshalWith_marshalText p bigT _ hplain,
    Big.UnmarshalText_prefixed p hx0 hx]
  rfl

/-! ## Uint64 and Uint -/

/-- `Uint64.MarshalText`: `strconv.AppendUint` in base 16. -/
def Uint64.MarshalText (b : UInt64) : List Char := GoHex.AppendUint [] b.toNat

/-- The digit loop of `Uint64.UnmarshalText`, in `uint64` arithmetic. -/
def Uint64.UnmarshalText.loop : UInt64 → List Char → Except decError UInt64
  | dec, [] => .ok dec
  | dec, c :: rest =>
    if decodeNibble c = badNibble then .error .ErrSyntax
    else loop (dec * 16 + UInt64.ofNat (decodeNibble c)) rest

theorem Uint64.UnmarshalText.loop_eq :
    ∀ (dec : UInt64) (cs : List Char), (∀ c ∈ cs, IsDigitOf 16 c) →
      dec.toNat * 16 ^ cs.length + value 16 (digitValues cs) < 2 ^ 64 →
      Uint64.UnmarshalText.loop dec cs =
        .ok (UInt64.ofNat (dec.toNat * 16 ^ cs.length + value 16 (digitValues cs)))
  | dec, [], _, _ => by simp [Uint64.UnmarshalText.loop, digitValues]
  | dec, c :: rest, hdig, hlt => by
    obtain ⟨d, hd, hcv⟩ := hdig c List.mem_cons_self
    have hrest : ∀ c ∈ rest, IsDigitOf 16 c := fun c' hc' => hdig c' (List.mem_cons_of_mem _ hc')
    have hpow : 1 ≤ 16 ^ rest.length := Nat.one_le_pow _ _ (by decide)
    rw [horner_digitValues_cons hcv hrest] at hlt ⊢
    have hstep : dec.toNat * 16 + d < 2 ^ 64 :=
      lt_of_le_of_lt (le_trans (Nat.le_mul_of_pos_right _ hpow) (Nat.le_add_right _ _)) hlt
    -- the step stays within 64 bits, so the `uint64` arithmetic is exact
    have hdec : (dec * 16 + UInt64.ofNat d).toNat = dec.toNat * 16 + d := by
      have hd64 : (UInt64.ofNat d).toNat = d := UInt64.toNat_ofNat_of_lt' (by simp [UInt64.size]; omega)
      simp only [UInt64.toNat_add, UInt64.toNat_mul, hd64, UInt64.reduceToNat, Nat.reducePow]
      omega
    have hbad : d ≠ badNibble := by
      unfold badNibble
      omega
    rw [Uint64.UnmarshalText.loop, decodeNibble_eq hcv hd, if_neg hbad, ← hdec]
    exact Uint64.UnmarshalText.loop_eq _ rest hrest (by rw [hdec]; exact hlt)

/-- `Uint64.UnmarshalText`: at most 16 digits after the prefix. -/
def Uint64.UnmarshalText (input : List Char) : Except decError UInt64 :=
  match checkNumberText input with
  | .error err => .error err
  | .ok raw => if raw.length > 16 then .error .ErrUint64Range else Uint64.UnmarshalText.loop 0 raw

theorem Uint64.UnmarshalText_missing {s : List Char} (hs : s ≠ [])
    (hp : has0xPrefix s = false) : Uint64.UnmarshalText s = .error .ErrMissingPrefix := by
  rw [Uint64.UnmarshalText, checkNumberText_missing hs hp]

theorem Uint64.UnmarshalText_prefixed (n : UInt64) :
    Uint64.UnmarshalText ('0' :: 'x' :: Uint64.MarshalText n) = .ok n := by
  obtain ⟨hdig, hval⟩ := toDigits_spec (show 1 < 16 by decide) le_rfl n.toNat
  have hlen : (Nat.toDigits 16 n.toNat).length ≤ 16 := by
    rw [toDigits_eq (by decide), List.length_map]
    exact length_digitsBE_le (by decide) (by decide) (by simpa using n.toNat_lt)
  rw [Uint64.UnmarshalText, Uint64.MarshalText, GoHex.AppendUint, List.nil_append,
    checkNumberText_prefixed]
  dsimp only
  rw [if_neg (by omega), Uint64.UnmarshalText.loop_eq 0 _ hdig (by simpa [hval] using n.toNat_lt)]
  simp [hval]

def Uint64.UnmarshalJSON (p : Platform) : List Char → Except String UInt64 :=
  unmarshalJSON p uint64T Uint64.UnmarshalText

theorem Uint64.UnmarshalJSON_marshalText (p : Platform) (n : UInt64) :
    GoJson.unmarshalWith (Uint64.UnmarshalJSON p) (GoJson.marshalText (Uint64.MarshalText n)) =
      .error (UnmarshalTypeError "hex string without 0x prefix" uint64T) := by
  obtain ⟨hne, hp, hplain⟩ := toDigits_text n.toNat
  rw [Uint64.UnmarshalJSON, Uint64.MarshalText, GoHex.AppendUint, List.nil_append,
    unmarshalWith_marshalText p uint64T _ hplain, Uint64.UnmarshalText_missing hne hp]
  rfl

theorem Uint64.UnmarshalJSON_prefixed (p : Platform) (n : UInt64) :
    GoJson.unmarshalWith (Uint64.UnmarshalJSON p)
      (GoJson.marshalText ('0' :: 'x' :: Uint64.MarshalText n)) = .ok n := by
  have hplain : ∀ c ∈ '0' :: 'x' :: Uint64.MarshalText n, GoJson.IsPlain c = true :=
    isPlain_prefixed (toDigits_text n.toNat).2.2
  rw [Uint64.UnmarshalJSON, unmarshalWith_marshalText p uint64T _ hplain,
    Uint64.UnmarshalText_prefixed]
  rfl

/-- `Uint.MarshalText`: that of the `Uint64` of the same value. -/
def Uint.MarshalText (b : ℕ) : List Char := Uint64.MarshalText (UInt64.ofNat b)

/-- `Uint.UnmarshalText`: a `Uint64` that fits a `uint`. -/
def Uint.UnmarshalText (p : Platform) (input : List Char) : Except decError ℕ :=
  -- `u64` keeps its zero value where its `UnmarshalText` fails
  let (u64, err) : UInt64 × Option decError :=
    match Uint64.UnmarshalText input with
    | .ok v => (v, none)
    | .error e => (0, some e)
  if u64.toNat > 2 ^ uintBits p - 1 ∨ err = some .ErrUint64Range then .error .ErrUintRange
  else
    match err with
    | some e => .error e
    | none => .ok u64.toNat

theorem Uint.UnmarshalText_missing (p : Platform) {s : List Char} (hs : s ≠ [])
    (hp : has0xPrefix s = false) : Uint.UnmarshalText p s = .error .ErrMissingPrefix := by
  simp only [Uint.UnmarshalText, Uint64.UnmarshalText_missing hs hp]
  rfl

theorem Uint.UnmarshalText_prefixed (p : Platform) {n : ℕ} (hn : n < 2 ^ uintBits p) :
    Uint.UnmarshalText p ('0' :: 'x' :: Uint.MarshalText n) = .ok n := by
  have hbits : uintBits p ≤ 64 := by rcases p.valid with h | h <;> simp [uintBits, h]
  have h64 : n < 2 ^ 64 := lt_of_lt_of_le hn (Nat.pow_le_pow_right (by decide) hbits)
  have htoNat : (UInt64.ofNat n).toNat = n := UInt64.toNat_ofNat_of_lt' h64
  simp only [Uint.UnmarshalText, Uint.MarshalText, Uint64.UnmarshalText_prefixed, htoNat]
  rw [if_neg (by simp; omega)]

def Uint.UnmarshalJSON (p : Platform) : List Char → Except String ℕ :=
  unmarshalJSON p uintT (Uint.UnmarshalText p)

theorem Uint.UnmarshalJSON_marshalText (p : Platform) (n : ℕ) :
    GoJson.unmarshalWith (Uint.UnmarshalJSON p) (GoJson.marshalText (Uint.MarshalText n)) =
      .error (UnmarshalTypeError "hex string without 0x prefix" uintT) := by
  obtain ⟨hne, hp, hplain⟩ := toDigits_text (UInt64.ofNat n).toNat
  rw [Uint.UnmarshalJSON, Uint.MarshalText, Uint64.MarshalText, GoHex.AppendUint, List.nil_append,
    unmarshalWith_marshalText p uintT _ hplain, Uint.UnmarshalText_missing p hne hp]
  rfl

theorem Uint.UnmarshalJSON_prefixed (p : Platform) {n : ℕ} (hn : n < 2 ^ uintBits p) :
    GoJson.unmarshalWith (Uint.UnmarshalJSON p)
      (GoJson.marshalText ('0' :: 'x' :: Uint.MarshalText n)) = .ok n := by
  have hplain : ∀ c ∈ '0' :: 'x' :: Uint.MarshalText n, GoJson.IsPlain c = true :=
    isPlain_prefixed (toDigits_text (UInt64.ofNat n).toNat).2.2
  rw [Uint.UnmarshalJSON, unmarshalWith_marshalText p uintT _ hplain,
    Uint.UnmarshalText_prefixed p hn]
  rfl

/-! ## Round trips -/

theorem roundtrips_except_json_quantities (p : Platform) :
    (∀ b : List UInt8, b ≠ [] → Decode (Encode b) = .ok b) ∧
    (∀ x : ℤ, 0 ≤ x → x < 2 ^ 256 → DecodeBig p (EncodeBig x) = .ok x) ∧
    (∀ n : UInt64, DecodeUint64 (EncodeUint64 n) = .ok n) ∧
    (∀ b : List UInt8, GoJson.unmarshalWith (Bytes.UnmarshalJSON p) (Bytes.MarshalJSON b) = .ok b) ∧
    (∀ x : ℤ, GoJson.unmarshalWith (Big.UnmarshalJSON p) (GoJson.marshalText (Big.MarshalText x)) =
      .error "json: cannot unmarshal hex string without 0x prefix into Go value of type *hexutil.Big") ∧
    (∀ n : UInt64,
      GoJson.unmarshalWith (Uint64.UnmarshalJSON p) (GoJson.marshalText (Uint64.MarshalText n)) =
        .error "json: cannot unmarshal hex string without 0x prefix into Go value of type hexutil.Uint64") ∧
    (∀ n : ℕ, GoJson.unmarshalWith (Uint.UnmarshalJSON p) (GoJson.marshalText (Uint.MarshalText n)) =
      .error "json: cannot unmarshal hex string without 0x prefix into Go value of type hexutil.Uint") :=
  ⟨fun _ hb => Decode_Encode hb, fun _ hx0 hx => DecodeBig_EncodeBig p hx0 hx,
    DecodeUint64_EncodeUint64, Bytes.UnmarshalJSON_MarshalJSON p,
    Big.UnmarshalJSON_marshalText p, Uint64.UnmarshalJSON_marshalText p,
    Uint.UnmarshalJSON_marshalText p⟩

theorem roundtrips_except_json_quantities_amd64 :
    Decode (Encode [0xab]) = .ok [0xab] ∧ DecodeBig Platform.amd64 (EncodeBig 255) = .ok 255 :=
  ⟨(roundtrips_except_json_quantities Platform.amd64).1 [0xab] (by simp),
    (roundtrips_except_json_quantities Platform.amd64).2.1 255 (by decide) (by decide)⟩

end Hexutil
end Dipper
