import Dipper.Lib.Digits

/-!
# JSON strings as Go's `encoding/json` writes and reads them

`json.Marshal` of a string writes it between quotes with `"`, `\`, the control characters, the
HTML characters `<`, `>`, `&` and the line and paragraph separators escaped (`quote`, after
`encodeState.string` of Go 1.13). `json.Unmarshal` into a string reads such a literal back:
the short escapes, `\u` with four hexadecimal digits, a surrogate pair as one character and a
lone surrogate as U+FFFD (`unquoteBody`, after `unquoteBytes`), around it JSON white space,
and `null` for the empty string. Reading back what was written gives the string
(`unmarshalString_quote`).
-/

namespace GoJson

open Digits

/-- A lower-case hexadecimal digit of `n`'s last four bits. -/
def hexDigit (n : ℕ) : Char := Nat.digitChar (n % 16)

/-- The last sixteen bits of a code, as four hexadecimal digits. -/
def hex4 (n : ℕ) : List Char := [hexDigit (n / 4096), hexDigit (n / 256), hexDigit (n / 16), hexDigit n]

/-- A character `json.Marshal` writes as it is: printable ASCII but `"`, `\` and the HTML
characters, and everything past ASCII but U+2028 and U+2029. -/
def IsPlain (c : Char) : Bool :=
  if c.toNat < 0x80 then
    0x20 ≤ c.toNat && c != '"' && c != '\\' && c != '<' && c != '>' && c != '&'
  else c.toNat != 0x2028 && c.toNat != 0x2029

/-- How `encodeState.string` writes one character. -/
def escape (c : Char) : List Char :=
  if IsPlain c then [c]
  else if c = '"' then ['\\', '"']
  else if c = '\\' then ['\\', '\\']
  else if c = '\n' then ['\\', 'n']
  else if c = '\r' then ['\\', 'r']
  else if c = '\t' then ['\\', 't']
  else '\\' :: 'u' :: hex4 c.toNat

/-- `json.Marshal` of a string. -/
def quote (s : List Char) : List Char := '"' :: s.flatMap escape ++ ['"']

/-- A hexadecimal digit of either case. -/
def hexValue (c : Char) : Option ℕ := (charValue c).filter (· < 16)

/-- `getu4`: four hexadecimal digits as a code. -/
def getu4 (a b c d : Char) : Option ℕ := do
  return (← hexValue a) * 4096 + (← hexValue b) * 256 + (← hexValue c) * 16 + (← hexValue d)

/-- `utf16.DecodeRune`: a high and a low surrogate as the character they encode, or U+FFFD. -/
def decodeSurrogates (r1 r2 : ℕ) : Char :=
  if 0xd800 ≤ r1 ∧ r1 < 0xdc00 ∧ 0xdc00 ≤ r2 ∧ r2 < 0xe000 then
    Char.ofNat (((r1 - 0xd800) <<< 10 ||| (r2 - 0xdc00)) + 0x10000)
  else Char.ofNat 0xfffd

/-- The body of a JSON string literal after its opening quote: the characters it stands for
and what follows its closing quote, or `none` where `json.Unmarshal` reports a syntax error
(an unknown escape, a control character, no closing quote). -/
def unquoteBody : List Char → Option (List Char × List Char)
  | [] => none
  | '"' :: rest => some ([], rest)
  | '\\' :: 'u' :: a :: b :: c :: d :: rest =>
    match getu4 a b c d with
    | none => none
    | some r =>
      if 0xd800 ≤ r ∧ r < 0xe000 then
        -- a surrogate: a valid pair is one character, anything else U+FFFD
        match _hrest : rest with
        | '\\' :: 'u' :: a' :: b' :: c' :: d' :: rest' =>
          match getu4 a' b' c' d' with
          | some r' =>
            if decodeSurrogates r r' ≠ Char.ofNat 0xfffd then
              (unquoteBody rest').map fun p => (decodeSurrogates r r' :: p.1, p.2)
            else (unquoteBody rest).map fun p => (Char.ofNat 0xfffd :: p.1, p.2)
          | none => (unquoteBody rest).map fun p => (Char.ofNat 0xfffd :: p.1, p.2)
        | _ => (unquoteBody rest).map fun p => (Char.ofNat 0xfffd :: p.1, p.2)
      else (unquoteBody rest).map fun p => (Char.ofNat r :: p.1, p.2)
  | '\\' :: c :: rest =>
    let out : Option Char :=
      if c = '"' ∨ c = '\\' ∨ c = '/' then some c
      else if c = 'b' then some (Char.ofNat 8)
      else if c = 'f' then some (Char.ofNat 12)
      else if c = 'n' then some '\n'
      else if c = 'r' then some '\r'
      else if c = 't' then some '\t'
      else none
    match out with
    | some c' => (unquoteBody rest).map fun p => (c' :: p.1, p.2)
    | none => none
  | c :: rest =>
    if c.toNat < 0x20 then none else (unquoteBody rest).map fun p => (c :: p.1, p.2)
termination_by s => s.length
decreasing_by all_goals (simp_all; try omega)

/-- JSON's white space. -/
def IsWhite (c : Char) : Bool := c = ' ' || c = '\t' || c = '\n' || c = '\r'

/-- `json.Unmarshal` into a string: one string literal or `null` (which leaves the string
empty), with white space around it. The error texts of Go's scanner are not modelled. -/
def unmarshalString (bz : List Char) : Except String (List Char) :=
  match (bz.dropWhile IsWhite).reverse.dropWhile IsWhite |>.reverse with
  | ['n', 'u', 'l', 'l'] => .ok []
  | '"' :: body =>
    match unquoteBody body with
    | some (s, []) => .ok s
    | _ => .error "json: invalid string literal"
  | _ => .error "json: cannot unmarshal into Go value of type string"

/-- `json.Marshal` of a value whose type has a `MarshalText` method and no `MarshalJSON`: its
text as a JSON string. -/
def marshalText (text : List Char) : List Char := quote text

/-- `json.Unmarshal` into a value whose type has an `UnmarshalJSON` method: the method gets
the JSON value without the white space around it. Go's scanner first checks that the input is
one JSON value; that check is not modelled. -/
def unmarshalWith {α : Type} (method : List Char → Except String α) (data : List Char) :
    Except String α :=
  method ((data.dropWhile IsWhite).reverse.dropWhile IsWhite).reverse

/-! ## Reading back what was written -/

theorem hexValue_hexDigit (n : ℕ) : hexValue (hexDigit n) = some (n % 16) := by
  rw [hexValue, hexDigit, charValue_digitChar (Nat.mod_lt _ (by decide))]
  simp [Option.filter, Nat.mod_lt _ (show 16 > 0 by decide)]

theorem getu4_hex4 {n : ℕ} (hn : n < 0x10000) :
    getu4 (hexDigit (n / 4096)) (hexDigit (n / 256)) (hexDigit (n / 16)) (hexDigit n) = some n := by
  simp only [getu4, hexValue_hexDigit]
  simp only [Option.pure_def, Option.bind_eq_bind, Option.bind_some, Option.some.injEq]
  omega

theorem isPlain_of_lt {c : Char} (h : c.toNat < 0x20) : IsPlain c = false := by
  simp [IsPlain, show c.toNat < 0x80 by omega, show ¬ 0x20 ≤ c.toNat by omega]

theorem lt_of_isPlain_eq_false {c : Char} (h : IsPlain c = false) :
    c.toNat < 0x80 ∨ c.toNat = 0x2028 ∨ c.toNat = 0x2029 := by
  unfold IsPlain at h
  split at h
  · exact .inl ‹_›
  · right
    have h' : c.toNat ≠ 0x2028 → c.toNat = 0x2029 := by simpa [Bool.and_eq_false_iff] using h
    by_cases h1 : c.toNat = 0x2028
    · exact .inl h1
    · exact .inr (h' h1)

theorem unquoteBody_escape (c : Char) (rest : List Char) :
    unquoteBody (escape c ++ rest) = (unquoteBody rest).map fun p => (c :: p.1, p.2) := by
  unfold escape
  split_ifs with hp hq hb hn hr ht
  · -- written as it is: no quote, no backslash, no control character
    have hq : c ≠ '"' := fun h => by subst h; simp [IsPlain] at hp
    have hb : c ≠ '\\' := fun h => by subst h; simp [IsPlain] at hp
    have hc : ¬ c.toNat < 0x20 := fun h => by simp [isPlain_of_lt h] at hp
    rw [List.singleton_append, unquoteBody.eq_5 c rest hq (fun _ _ _ _ _ h _ => hb h)
      (fun _ _ h _ => hb h), if_neg hc]
  · subst hq
    rw [List.cons_append, List.cons_append, List.nil_append, unquoteBody.eq_4 _ _ (by simp)]
    simp
  · subst hb
    rw [List.cons_append, List.cons_append, List.nil_append, unquoteBody.eq_4 _ _ (by simp)]
    simp
  · subst hn
    rw [List.cons_append, List.cons_append, List.nil_append, unquoteBody.eq_4 _ _ (by simp)]
    simp
  · subst hr
    rw [List.cons_append, List.cons_append, List.nil_append, unquoteBody.eq_4 _ _ (by simp)]
    simp
  · subst ht
    rw [List.cons_append, List.cons_append, List.nil_append, unquoteBody.eq_4 _ _ (by simp)]
    simp
  · -- a code below U+2030 and outside the surrogates
    have hlt := lt_of_isPlain_eq_false (Bool.eq_false_iff.mpr hp)
    have hcode : getu4 (hexDigit (c.toNat / 4096)) (hexDigit (c.toNat / 256))
        (hexDigit (c.toNat / 16)) (hexDigit c.toNat) = some c.toNat := getu4_hex4 (by omega)
    have hsur : ¬ (0xd800 ≤ c.toNat ∧ c.toNat < 0xe000) := by omega
    rw [hex4, List.cons_append, List.cons_append, List.cons_append, List.cons_append,
      List.cons_append, List.cons_append, List.nil_append, unquoteBody.eq_3]
    simp only [hcode, if_neg hsur, Char.ofNat_toNat]

theorem unquoteBody_flatMap_escape (s rest : List Char) :
    unquoteBody (s.flatMap escape ++ rest) = (unquoteBody rest).map fun p => (s ++ p.1, p.2) := by
  induction s with
  | nil => simp
  | cons c s ih =>
    rw [List.flatMap_cons, List.append_assoc, unquoteBody_escape, ih, Option.map_map]
    rfl

theorem trimWhite_quote (s : List Char) :
    (((quote s).dropWhile IsWhite).reverse.dropWhile IsWhite).reverse = quote s := by
  have hq : ∀ l : List Char, (('"' :: l).dropWhile IsWhite) = '"' :: l := fun l => by
    simp [IsWhite]
  rw [quote, List.cons_append, hq, List.reverse_cons, List.reverse_append,
    List.reverse_singleton, List.singleton_append, List.cons_append, hq]
  simp

theorem unmarshalString_quote (s : List Char) : unmarshalString (quote s) = .ok s := by
  have hbody : unquoteBody (s.flatMap escape ++ ['"']) = some (s, []) := by
    rw [unquoteBody_flatMap_escape, unquoteBody.eq_2]
    simp
  rw [unmarshalString, trimWhite_quote, quote]
  simp [hbody]

theorem unmarshalWith_quote {α : Type} (method : List Char → Except String α) (s : List Char) :
    unmarshalWith method (quote s) = method (quote s) := by
  rw [unmarshalWith, trimWhite_quote]

theorem isPlain_of_charValue {c : Char} {d : ℕ} (h : charValue c = some d) : IsPlain c = true := by
  have hle : ∀ a b : Char, a ≤ b ↔ a.toNat ≤ b.toNat := fun a b => Iff.rfl
  have hrange : 48 ≤ c.toNat ∧ c.toNat ≤ 122 := by
    unfold charValue at h
    simp only [hle, Char.reduceToNat] at h
    split_ifs at h <;> cases h <;> omega
  have hne : ∀ x : Char, charValue x = none → c ≠ x := fun x hx hcx => by
    rw [hcx, hx] at h
    cases h
  simp [IsPlain, show c.toNat < 0x80 by omega, show 0x20 ≤ c.toNat by omega,
    hne '"' (by decide), hne '\\' (by decide), hne '<' (by decide), hne '>' (by decide),
    hne '&' (by decide)]

theorem quote_of_isPlain {s : List Char} (h : ∀ c ∈ s, IsPlain c = true) :
    quote s = '"' :: s ++ ['"'] := by
  have hflat : s.flatMap escape = s := by
    induction s with
    | nil => rfl
    | cons c s ih =>
      rw [List.flatMap_cons, escape, if_pos (h c List.mem_cons_self),
        ih fun c' hc' => h c' (List.mem_cons_of_mem _ hc'), List.singleton_append]
  rw [quote, hflat]

end GoJson
