import Dipper.Lib.GoJson
import Dipper.Lib.GoText
import Dipper.Types.Dec

/-!
# Decimal strings

`NewDecFromStr`, `Dec.String` and the JSON form of a decimal (`types/decimal.go`).
`NewDecFromStr` strips one `-` by hand, puts the digits before and after the point together,
pads them to 18 places and hands them to `big.Int.SetString` in base 10, which reads a sign of
its own. So it accepts more than `-?[0-9]+(\.[0-9]{1,18})?`: a `+` or a second `-` in front,
even with no digit after it (`DecTextParts`). `Dec.String` writes the magnitude's digits with
the point 18 places from the right, and `NewDecFromStr` reads back every value it writes.
-/

namespace Dipper
namespace Dec

open GoText Digits

def ErrEmptyDecimalStr : String := "decimal string cannot be empty"
def ErrInvalidDecimalLength : String := "invalid decimal length"
def ErrInvalidDecimalStr : String := "invalid decimal string"

def NewDecFromStr (str : List Char) : Except String Dec :=
  if str.length = 0 then .error ErrEmptyDecimalStr else
  let neg : Bool := str.head? = some '-'
  let str := if neg then str.drop 1 else str
  if str.length = 0 then .error ErrEmptyDecimalStr else
  let parts : Except String (ℕ × List Char) := match Split str '.' with
    | [intPart, decs] =>
      if decs.length = 0 ∨ intPart.length = 0 then .error ErrInvalidDecimalLength
      else .ok (decs.length, intPart ++ decs)
    | [intPart] => .ok (0, intPart)
    | _ => .error ErrInvalidDecimalStr
  match parts with
  | .error e => .error e
  | .ok (lenDecs, combinedStr) =>
    if lenDecs > Precision then
      .error ("invalid precision; max: " ++ toString Precision ++ ", got: " ++ toString lenDecs)
    else
      let combinedStr := combinedStr ++ List.replicate (Precision - lenDecs) '0'
      match SetString combinedStr 10 with
      | none => .error ("failed to set decimal string: " ++ String.ofList combinedStr)
      | some combined => .ok ⟨if neg then -combined else combined⟩

/-- `Dec.String`: the digits of the magnitude with the point 18 places from the right (`0.`
and zeros in front below one), and `-` in front of a negative value. -/
def DecString (d : Dec) : List Char :=
  let isNeg := d.IsNegative
  let bzInt := Nat.toDigits 10 d.i.natAbs
  let inputSize := bzInt.length
  let bzStr :=
    if inputSize ≤ Precision then
      '0' :: '.' :: (List.replicate (Precision - inputSize) '0' ++ bzInt)
    else
      let decPointPlace := inputSize - Precision
      bzInt.take decPointPlace ++ '.' :: bzInt.drop decPointPlace
  if isNeg then '-' :: bzStr else bzStr

/-- `Dec.MarshalJSON`: the string, as a JSON string. -/
def MarshalJSON (d : Dec) : List Char := GoJson.quote (DecString d)

/-- `Dec.UnmarshalJSON`: a JSON string, read by `NewDecFromStr`. -/
def UnmarshalJSON (bz : List Char) : Except String Dec :=
  match GoJson.unmarshalString bz with
  | .error e => .error e
  | .ok text => NewDecFromStr text

/-! ## What `NewDecFromStr` accepts -/

/-- A text `NewDecFromStr` accepts, taken apart: a `-` it strips (`neg`), the sign that
`SetString` reads (none, `+`, or a second `-`), the integer digits, and 1 to 18 fraction
digits after a point (none and no point). The sign or an integer digit must be there. -/
def DecTextParts (neg : Bool) (sign ip fp : List Char) : Prop :=
  (sign = [] ∨ sign = ['+'] ∨ (sign = ['-'] ∧ neg = true)) ∧ (∀ c ∈ ip, IsDigit c) ∧
    (∀ c ∈ fp, IsDigit c) ∧ fp.length ≤ Precision ∧ sign ++ ip ≠ []

/-- The text of the parts. -/
def decText (neg : Bool) (sign ip fp : List Char) : List Char :=
  (if neg then ['-'] else []) ++ sign ++ ip ++ (if fp = [] then [] else '.' :: fp)

/-- The raw integer of the parts: the digits as a number of 10⁻¹⁸ units, with both signs. -/
def decTextValue (neg : Bool) (sign ip fp : List Char) : ℤ :=
  let m : ℤ := value 10 (digitValues (ip ++ fp)) * 10 ^ (Precision - fp.length)
  let m := if sign = ['-'] then -m else m
  if neg then -m else m

theorem isDigit_zero : IsDigit '0' := by decide

theorem not_isDigit_minus : ¬ IsDigit '-' := by decide

theorem not_isDigit_point : ¬ IsDigit '.' := by decide

theorem value_digitValues_pad (ds : List Char) (k : ℕ) :
    value 10 (digitValues (ds ++ List.replicate k '0')) = value 10 (digitValues ds) * 10 ^ k := by
  have hz : digitValues (List.replicate k '0') = List.replicate k 0 := by
    induction k with
    | zero => rfl
    | succ k ih => rw [List.replicate_succ, digitValues, List.filterMap_cons, ← digitValues, ih]; rfl
  have h0 : value 10 (List.replicate k 0) = 0 := by
    simpa using value_replicate_zero_append 10 k []
  rw [digitValues_append, value_append, hz, h0, List.length_replicate, add_zero]

theorem SetString_ten_pad {p : List Char} {k : ℕ} {v : ℤ} (hp : p ≠ [])
    (h : SetString (p ++ List.replicate k '0') 10 = some v) :
    ∃ sign ip, (sign = [] ∨ sign = ['+'] ∨ sign = ['-']) ∧ p = sign ++ ip ∧ (∀ c ∈ ip, IsDigit c) ∧
      v = if sign = ['-'] then -(value 10 (digitValues ip) * 10 ^ k : ℤ)
        else value 10 (digitValues ip) * 10 ^ k := by
  obtain ⟨sign, ds, hsign, heq, -, hdig, rfl⟩ := SetString_ten_eq_some h
  have hdig' : ∀ ip pad, ds = ip ++ pad → ∀ c ∈ ip, IsDigit c :=
    fun ip pad h c hc => hdig c (h ▸ List.mem_append_left _ hc)
  rcases hsign with rfl | rfl | rfl
  · -- no sign: the digits are all of it
    rw [List.nil_append] at heq
    refine ⟨[], p, .inl rfl, rfl, hdig' p _ heq.symm, ?_⟩
    rw [← heq, value_digitValues_pad]
    simp
  all_goals
    -- a sign: it is the first character of the text
    obtain ⟨c, p', rfl⟩ := List.exists_cons_of_ne_nil hp
    simp only [List.cons_append, List.nil_append] at heq
    obtain ⟨hc, hds⟩ := List.cons_eq_cons.mp heq
    refine ⟨[c], p', by simp [hc], rfl, hdig' p' _ hds.symm, ?_⟩
    rw [← hds, value_digitValues_pad]
    simp [hc]

/-! ## The parser's steps -/

theorem strip_minus {neg : Bool} {t : List Char} (hneg : neg = false → t.head? ≠ some '-') :
    decide (((if neg then ['-'] else []) ++ t).head? = some '-') = neg ∧
      (if neg then ((if neg then ['-'] else []) ++ t).drop 1 else (if neg then ['-'] else []) ++ t) = t := by
  cases neg
  · simpa using hneg rfl
  · simp

theorem NewDecFromStr_of_parts {neg : Bool} {t p fp : List Char} {v : ℤ}
    (hneg : neg = false → t.head? ≠ some '-') (ht : t ≠ [])
    (hsplit : Split t '.' = if fp = [] then [p] else [p, fp]) (hp : fp ≠ [] → p ≠ [])
    (hlen : fp.length ≤ Precision)
    (hv : SetString (p ++ fp ++ List.replicate (Precision - fp.length) '0') 10 = some v) :
    NewDecFromStr ((if neg then ['-'] else []) ++ t) = .ok ⟨if neg then -v else v⟩ := by
  obtain ⟨h1, h2⟩ := strip_minus hneg
  have hs : ((if neg then ['-'] else []) ++ t).length ≠ 0 := by simp [ht]
  have hlen' : ¬ fp.length > Precision := by omega
  unfold NewDecFromStr
  simp only [hs, if_false, h1, h2, List.length_eq_zero_iff, ht, hsplit]
  by_cases hf : fp = []
  · -- no point: the whole text is the integer part
    subst hf
    simp only [List.append_nil, List.length_nil] at hv hlen'
    simp only [if_true, if_neg hlen', hv]
  · -- a point, with digits on both sides of it
    simp only [hf, hp hf, or_self, if_false, if_neg hlen', hv]

theorem NewDecFromStr_eq_ok {s : List Char} {d : Dec} (h : NewDecFromStr s = .ok d) :
    ∃ neg t p fp v, s = (if neg then ['-'] else []) ++ t ∧ (neg = false → t.head? ≠ some '-') ∧
      t ≠ [] ∧ Split t '.' = (if fp = [] then [p] else [p, fp]) ∧ (fp ≠ [] → p ≠ []) ∧
      fp.length ≤ Precision ∧
      SetString (p ++ fp ++ List.replicate (Precision - fp.length) '0') 10 = some v ∧
      d = ⟨if neg then -v else v⟩ := by
  unfold NewDecFromStr at h
  dsimp only at h
  generalize hneg : decide (s.head? = some '-') = neg at h
  generalize hstr : (if neg = true then List.drop 1 s else s) = t at h
  have hs : s.length ≠ 0 := fun hs => by rw [if_pos hs] at h; cases h
  have ht : t.length ≠ 0 := fun ht => by rw [if_neg hs, if_pos ht] at h; cases h
  rw [if_neg hs, if_neg ht] at h
  -- the text is the stripped `-` and the rest
  have hst : s = (if neg then ['-'] else []) ++ t ∧ (neg = false → t.head? ≠ some '-') := by
    subst hneg hstr
    obtain ⟨c, s', rfl⟩ := List.exists_cons_of_ne_nil (List.ne_nil_of_length_pos (Nat.pos_of_ne_zero hs))
    by_cases hc : c = '-' <;> simp [hc]
  have ht' : t ≠ [] := fun h0 => ht (by rw [h0, List.length_nil])
  split at h
  · cases h
  · next lenDecs combinedStr hparts =>
    split at h
    · cases h
    · next hlen =>
      split at h
      · cases h
      · next v hv =>
        cases h
        split at hparts
        · -- a point: digits on both sides of it
          next ip fp hsplit =>
          split_ifs at hparts with hl
          cases hparts
          have hfp : fp ≠ [] := fun h0 => hl (.inl (by rw [h0, List.length_nil]))
          have hip : ip ≠ [] := fun h0 => hl (.inr (by rw [h0, List.length_nil]))
          refine ⟨neg, t, ip, fp, v, hst.1, hst.2, ht', by rw [hsplit, if_neg hfp],
            fun _ => hip, by omega, hv, rfl⟩
        · -- no point
          next p hsplit =>
          simp only [Except.ok.injEq, Prod.mk.injEq] at hparts
          obtain ⟨rfl, rfl⟩ := hparts
          refine ⟨neg, t, p, [], v, hst.1, hst.2, ht', by rw [hsplit, if_pos rfl],
            fun h0 => absurd rfl h0, by simp, by simpa using hv, rfl⟩
        · cases hparts

/-! ## The language of `NewDecFromStr` -/

theorem eq_sign_append {sign p fp ds : List Char} (hsign : sign.length ≤ 1) (hp : p ≠ [])
    (h : p ++ fp = sign ++ ds) : ∃ ip, p = sign ++ ip ∧ ds = ip ++ fp := by
  rcases List.append_eq_append_iff.mp h with ⟨a, rfl, rfl⟩ | ⟨ip, rfl, rfl⟩
  · -- the sign would run past the piece: then it is the piece
    have hpl : p.length ≠ 0 := fun h0 => hp (List.eq_nil_of_length_eq_zero h0)
    have ha : a = [] := by
      rw [List.length_append] at hsign
      exact List.eq_nil_of_length_eq_zero (by omega)
    subst ha
    exact ⟨[], by simp, rfl⟩
  · exact ⟨ip, rfl, rfl⟩

theorem eq_of_Split_eq_parts {t p fp : List Char} (h : Split t '.' = if fp = [] then [p] else [p, fp]) :
    t = p ++ (if fp = [] then [] else '.' :: fp) := by
  split_ifs at h ⊢ with hf
  · rw [List.append_nil]
    exact (eq_of_Split_eq_singleton h).1
  · exact (eq_of_Split_eq_pair h).1

theorem decText_eq (neg : Bool) (sign ip fp : List Char) :
    decText neg sign ip fp = (if neg then ['-'] else []) ++ (sign ++ ip ++ (if fp = [] then [] else '.' :: fp)) := by
  simp only [decText, List.append_assoc]

theorem NewDecFromStr_eq_ok_iff {s : List Char} {d : Dec} :
    NewDecFromStr s = .ok d ↔ ∃ neg sign ip fp, DecTextParts neg sign ip fp ∧
      s = decText neg sign ip fp ∧ d.i = decTextValue neg sign ip fp := by
  constructor
  · intro h
    obtain ⟨neg, t, p, fp, v, rfl, hneg, ht, hsplit, hp, hlen, hv, rfl⟩ := NewDecFromStr_eq_ok h
    have ht' := eq_of_Split_eq_parts hsplit
    have hpfp : p ++ fp ≠ [] := by
      by_cases hf : fp = []
      · subst hf
        simpa [ht'] using ht
      · simp [hf]
    obtain ⟨sign, ds, hsign, heq, hdig, rfl⟩ := SetString_ten_pad hpfp hv
    have hp' : p ≠ [] := by
      by_cases hf : fp = []
      · subst hf
        simpa [ht'] using ht
      · exact hp hf
    obtain ⟨ip, rfl, rfl⟩ := eq_sign_append (by rcases hsign with rfl | rfl | rfl <;> simp) hp' heq
    have hmin : sign = ['-'] → neg = true := by
      intro hs
      subst hs
      cases neg
      · exact absurd (by rw [ht']; simp) (hneg rfl)
      · rfl
    refine ⟨neg, sign, ip, fp, ⟨?_, fun c hc => hdig c (List.mem_append_left _ hc),
      fun c hc => hdig c (List.mem_append_right _ hc), hlen, hp'⟩, by rw [ht', decText_eq], ?_⟩
    · rcases hsign with h | h | h
      · exact .inl h
      · exact .inr (.inl h)
      · exact .inr (.inr ⟨h, hmin h⟩)
    · simp [decTextValue]
  · rintro ⟨neg, sign, ip, fp, ⟨hsign, hip, hfp, hlen, hne⟩, rfl, hd⟩
    -- the pieces `Split` cuts the text into after the stripped `-`
    have hpt : '.' ∉ sign ++ ip := by
      intro hmem
      rcases List.mem_append.mp hmem with hs | hi
      · rcases hsign with rfl | rfl | ⟨rfl, -⟩ <;> simp at hs
      · exact not_isDigit_point (hip _ hi)
    have hsplit : Split (sign ++ ip ++ (if fp = [] then [] else '.' :: fp)) '.' =
        if fp = [] then [sign ++ ip] else [sign ++ ip, fp] := by
      split_ifs with hf
      · rw [List.append_nil, Split_of_not_mem hpt]
      · have hfp' : '.' ∉ fp := fun hm => not_isDigit_point (hfp _ hm)
        rw [Split_append _ hpt, Split_of_not_mem hfp']
    -- the digits `SetString` reads: the integer digits, the fraction and the padding
    have hds : ip ++ fp ++ List.replicate (Precision - fp.length) '0' ≠ [] := by
      intro h0
      have hl := congrArg List.length h0
      simp only [List.length_append, List.length_replicate, List.length_nil] at hl
      have hP : Precision = 18 := rfl
      omega
    have hdig : ∀ c ∈ ip ++ fp ++ List.replicate (Precision - fp.length) '0', IsDigit c := by
      intro c hc
      simp only [List.mem_append, List.mem_replicate] at hc
      rcases hc with (hc | hc) | ⟨-, rfl⟩
      · exact hip c hc
      · exact hfp c hc
      · exact isDigit_zero
    have hsign' : sign = [] ∨ sign = ['+'] ∨ sign = ['-'] := by
      rcases hsign with h | h | ⟨h, -⟩ <;> simp [h]
    have hnum := SetString_ten hsign' hds hdig
    rw [← List.append_assoc, ← List.append_assoc, value_digitValues_pad] at hnum
    -- without a stripped `-` the text starts with `+` or a digit
    have hneg : neg = false → (sign ++ ip ++ (if fp = [] then [] else '.' :: fp)).head? ≠ some '-' := by
      rintro rfl
      rcases hsign with rfl | rfl | ⟨-, h⟩
      · obtain ⟨c, ip', rfl⟩ := List.exists_cons_of_ne_nil (by simpa using hne)
        have hc : c ≠ '-' := fun h => not_isDigit_minus (h ▸ hip c List.mem_cons_self)
        simpa using hc
      · simp
      · cases h
    have ht : sign ++ ip ++ (if fp = [] then [] else '.' :: fp) ≠ [] :=
      fun h0 => hne (List.append_eq_nil_iff.mp h0).1
    rw [decText_eq, NewDecFromStr_of_parts hneg ht hsplit (fun _ => hne) hlen hnum]
    cases d
    simp only at hd
    simp [hd, decTextValue]

/-! ## Reading back what `Dec.String` writes -/

theorem digitValues_replicate_zero (k : ℕ) : digitValues (List.replicate k '0') = List.replicate k 0 := by
  induction k with
  | zero => rfl
  | succ k ih => rw [List.replicate_succ, digitValues, List.filterMap_cons, ← digitValues, ih]; rfl

theorem pointed_digits {bz : List Char} (hdig : ∀ c ∈ bz, IsDigit c) :
    ∃ ip fp, (∀ c ∈ ip, IsDigit c) ∧ (∀ c ∈ fp, IsDigit c) ∧ ip ≠ [] ∧ fp.length = Precision ∧
      (if bz.length ≤ Precision then '0' :: '.' :: (List.replicate (Precision - bz.length) '0' ++ bz)
        else bz.take (bz.length - Precision) ++ '.' :: bz.drop (bz.length - Precision)) =
        ip ++ '.' :: fp ∧
      value 10 (digitValues (ip ++ fp)) = value 10 (digitValues bz) := by
  split_ifs with hL
  · -- case 1, purely decimal: the zeros in front do not count
    refine ⟨['0'], List.replicate (Precision - bz.length) '0' ++ bz, by simp [isDigit_zero], ?_,
      by simp, by simp; omega, rfl, ?_⟩
    · intro c hc
      rcases List.mem_append.mp hc with hc | hc
      · rw [List.eq_of_mem_replicate hc]
        exact isDigit_zero
      · exact hdig c hc
    · rw [← List.append_assoc, List.singleton_append, ← List.replicate_succ, digitValues_append,
        digitValues_replicate_zero, value_replicate_zero_append]
  · -- the point 18 places from the right
    refine ⟨bz.take (bz.length - Precision), bz.drop (bz.length - Precision),
      fun c hc => hdig c (List.mem_of_mem_take hc), fun c hc => hdig c (List.mem_of_mem_drop hc),
      ?_, by simp; omega, rfl, by rw [List.take_append_drop]⟩
    simp only [ne_eq, List.take_eq_nil_iff, not_or]
    exact ⟨by omega, fun h => by simp [h] at hL⟩

theorem DecString_eq_decText (d : Dec) :
    ∃ ip fp, DecTextParts d.IsNegative [] ip fp ∧ DecString d = decText d.IsNegative [] ip fp ∧
      decTextValue d.IsNegative [] ip fp = d.i := by
  obtain ⟨hdig, hval⟩ := toDigits_ten d.i.natAbs
  obtain ⟨ip, fp, hip, hfp, hne, hlen, htext, hv⟩ := pointed_digits hdig
  have hfp' : fp ≠ [] := fun h => by simp [h, Precision] at hlen
  refine ⟨ip, fp, ⟨.inl rfl, hip, hfp, hlen.le, by simpa using hne⟩, ?_, ?_⟩
  · unfold DecString
    dsimp only
    rw [htext]
    cases d.IsNegative <;> simp [decText, hfp']
  · -- the sign put back on the magnitude
    simp only [decTextValue, hv, hval, hlen, Nat.sub_self, pow_zero, mul_one, List.nil_eq,
      List.cons_ne_nil, if_false]
    unfold IsNegative
    split_ifs with h <;> simp at h <;> omega

theorem NewDecFromStr_DecString (d : Dec) : NewDecFromStr (DecString d) = .ok d := by
  obtain ⟨ip, fp, hparts, htext, hv⟩ := DecString_eq_decText d
  exact NewDecFromStr_eq_ok_iff.mpr ⟨_, _, _, _, hparts, htext, hv.symm⟩

theorem UnmarshalJSON_MarshalJSON (d : Dec) : UnmarshalJSON (MarshalJSON d) = .ok d := by
  rw [UnmarshalJSON, MarshalJSON, GoJson.unmarshalString_quote]
  exact NewDecFromStr_DecString d

/-! ## The grammar `-?[0-9]+(\.[0-9]{1,18})?` -/

theorem mem_decText_unsigned {ip fp : List Char} (hip : ∀ c ∈ ip, IsDigit c)
    (hfp : ∀ c ∈ fp, IsDigit c) : ∀ c ∈ decText false [] ip fp, IsDigit c ∨ c = '.' := by
  intro c hc
  simp only [decText, Bool.false_eq_true, if_false, List.nil_append, List.mem_append] at hc
  rcases hc with hc | hc
  · exact .inl (hip c hc)
  · split_ifs at hc
    · cases hc
    · rcases List.mem_cons.mp hc with rfl | hc
      · exact .inr rfl
      · exact .inl (hfp c hc)

theorem decText_true (sign ip fp : List Char) :
    decText true sign ip fp = '-' :: decText false sign ip fp := by
  simp [decText]

/-- What `NewDecFromStr` accepts and what it returns, and that it reads back `Dec.String` and
the JSON form. The texts it accepts are those of `DecTextParts`, a `+` or a second `-` in
front included; each text of the grammar `-?[0-9]+(\.[0-9]{1,18})?` (no sign of
`SetString`'s own, integer digits) is one of them, and its value is the text's number in units
of 10⁻¹⁸. -/
theorem NewDecFromStr_spec :
    (∀ s d, NewDecFromStr s = .ok d ↔ ∃ neg sign ip fp, DecTextParts neg sign ip fp ∧
      s = decText neg sign ip fp ∧ d.i = decTextValue neg sign ip fp) ∧
    (∀ (neg : Bool) (ip fp : List Char), ip ≠ [] → (∀ c ∈ ip, IsDigit c) → (∀ c ∈ fp, IsDigit c) →
      fp.length ≤ Precision → NewDecFromStr (decText neg [] ip fp) = .ok ⟨decTextValue neg [] ip fp⟩) ∧
    (∀ d, NewDecFromStr (DecString d) = .ok d ∧ UnmarshalJSON (MarshalJSON d) = .ok d) := by
  refine ⟨fun s d => NewDecFromStr_eq_ok_iff, ?_, fun d => ⟨NewDecFromStr_DecString d,
    UnmarshalJSON_MarshalJSON d⟩⟩
  intro neg ip fp hne hip hfp hlen
  exact NewDecFromStr_eq_ok_iff.mpr ⟨neg, [], ip, fp, ⟨.inl rfl, hip, hfp, hlen, by simpa using hne⟩,
    rfl, rfl⟩

example :
    NewDecFromStr ['1', '.', '5'] = .ok ⟨decTextValue false [] ['1'] ['5']⟩ :=
  NewDecFromStr_spec.2.1 false ['1'] ['5'] (by decide)
    (by simp only [List.mem_singleton, forall_eq]; decide)
    (by simp only [List.mem_singleton, forall_eq]; decide) (by decide)

/-- `--5` and `+` are read, as 5 and 0, though neither is a text of the grammar. -/
theorem NewDecFromStr_accepts_extra_signs :
    NewDecFromStr ['-', '-', '5'] = .ok ⟨5 * precisionReuse⟩ ∧ NewDecFromStr ['+'] = .ok ⟨0⟩ ∧
      ∀ neg ip fp, (∀ c ∈ ip, IsDigit c) → (∀ c ∈ fp, IsDigit c) →
        ['-', '-', '5'] ≠ decText neg [] ip fp ∧ ['+'] ≠ decText neg [] ip fp := by
  refine ⟨by decide +kernel, by decide +kernel, fun neg ip fp hip hfp => ?_⟩
  have hmem := mem_decText_unsigned hip hfp
  -- a sign past the first `-` is neither a digit nor the point
  have hminus : '-' ∉ decText false [] ip fp := fun h => by
    rcases hmem _ h with h | h
    · exact not_isDigit_minus h
    · cases h
  have hplus : '+' ∉ decText false [] ip fp := fun h => by
    rcases hmem _ h with h | h
    · exact absurd h (by decide)
    · cases h
  cases neg
  · exact ⟨fun h => hminus (h ▸ List.mem_cons_self), fun h => hplus (h ▸ List.mem_cons_self)⟩
  · rw [decText_true]
    refine ⟨fun h => hminus ?_, fun h => by cases h⟩
    rw [← (List.cons_eq_cons.mp h).2]
    exact List.mem_cons_self

end Dec
end Dipper
