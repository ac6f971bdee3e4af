import Dipper.Lib.Digits

/-!
# Text functions of Go's standard library

The functions of Go's standard library that the model calls on text, over strings as lists of
characters, that is of the runes Go decodes them to: `strings.Split` with a one-character
separator, `strings.TrimSpace`, `strings.ToLower`, and `big.Int.SetString`, which is `math/big`'s
`scanSign`, then `nat.scan` without fractions, then the check that nothing is left unread. Each
comes with what it does on the inputs the model gives it.
-/

namespace GoText

open Digits

/-! ## `strings.Split` -/

/-- The loop of `Split`, with the piece being read kept reversed. -/
def splitAux (sep : Char) : List Char → List Char → List (List Char)
  | [], cur => [cur.reverse]
  | c :: s, cur => if c = sep then cur.reverse :: splitAux sep s [] else splitAux sep s (c :: cur)

/-- `strings.Split(s, sep)` for a one-character separator: the pieces between separators,
one more than there are separators. -/
def Split (s : List Char) (sep : Char) : List (List Char) := splitAux sep s []

theorem splitAux_ne_nil (sep : Char) : ∀ (s cur : List Char), splitAux sep s cur ≠ []
  | [], _ => List.cons_ne_nil _ _
  | c :: s, cur => by
    rw [splitAux]
    split
    · exact List.cons_ne_nil _ _
    · exact splitAux_ne_nil sep s _

theorem intercalate_splitAux (sep : Char) :
    ∀ (s cur : List Char), [sep].intercalate (splitAux sep s cur) = cur.reverse ++ s
  | [], cur => by rw [splitAux, List.intercalate_singleton, List.append_nil]
  | c :: s, cur => by
    rw [splitAux]
    split
    · next h =>
      obtain ⟨p, ps, hps⟩ := List.exists_cons_of_ne_nil (splitAux_ne_nil sep s [])
      rw [hps, List.intercalate_cons_cons, ← hps, intercalate_splitAux sep s [], h]
      simp
    · rw [intercalate_splitAux sep s (c :: cur), List.reverse_cons, List.append_assoc,
        List.singleton_append]

theorem not_mem_of_mem_splitAux (sep : Char) :
    ∀ (s cur : List Char), sep ∉ cur → ∀ p ∈ splitAux sep s cur, sep ∉ p
  | [], cur, hcur, p, hp => by
    rw [splitAux, List.mem_singleton] at hp
    rw [hp, List.mem_reverse]
    exact hcur
  | c :: s, cur, hcur, p, hp => by
    rw [splitAux] at hp
    split at hp
    · rcases List.mem_cons.mp hp with rfl | hp
      · rw [List.mem_reverse]
        exact hcur
      · exact not_mem_of_mem_splitAux sep s [] List.not_mem_nil p hp
    · next h =>
      refine not_mem_of_mem_splitAux sep s (c :: cur) ?_ p hp
      rw [List.mem_cons, not_or]
      exact ⟨Ne.symm h, hcur⟩

theorem Split_intercalate (s : List Char) (sep : Char) : [sep].intercalate (Split s sep) = s :=
  intercalate_splitAux sep s []

theorem not_mem_of_mem_Split {s p : List Char} {sep : Char} (hp : p ∈ Split s sep) : sep ∉ p :=
  not_mem_of_mem_splitAux sep s [] List.not_mem_nil p hp

theorem splitAux_of_not_mem (sep : Char) :
    ∀ (s cur : List Char), sep ∉ s → splitAux sep s cur = [cur.reverse ++ s]
  | [], cur, _ => by rw [splitAux, List.append_nil]
  | c :: s, cur, h => by
    rw [List.mem_cons, not_or] at h
    rw [splitAux, if_neg (Ne.symm h.1), splitAux_of_not_mem sep s _ h.2, List.reverse_cons,
      List.append_assoc, List.singleton_append]

theorem splitAux_append (sep : Char) :
    ∀ (a b cur : List Char), sep ∉ a →
      splitAux sep (a ++ sep :: b) cur = (cur.reverse ++ a) :: splitAux sep b []
  | [], b, cur, _ => by rw [List.nil_append, splitAux, if_pos rfl, List.append_nil]
  | c :: a, b, cur, h => by
    rw [List.mem_cons, not_or] at h
    rw [List.cons_append, splitAux, if_neg (Ne.symm h.1), splitAux_append sep a b _ h.2,
      List.reverse_cons, List.append_assoc, List.singleton_append]

theorem Split_of_not_mem {s : List Char} {sep : Char} (h : sep ∉ s) : Split s sep = [s] :=
  splitAux_of_not_mem sep s [] h

theorem Split_append {a : List Char} (b : List Char) {sep : Char} (h : sep ∉ a) :
    Split (a ++ sep :: b) sep = a :: Split b sep :=
  splitAux_append sep a b [] h

theorem eq_of_Split_eq_singleton {s p : List Char} {sep : Char} (h : Split s sep = [p]) :
    s = p ∧ sep ∉ p := by
  have hs := Split_intercalate s sep
  rw [h, List.intercalate_singleton] at hs
  exact ⟨hs.symm, not_mem_of_mem_Split (h ▸ List.mem_singleton_self p)⟩

theorem eq_of_Split_eq_pair {s p q : List Char} {sep : Char} (h : Split s sep = [p, q]) :
    s = p ++ sep :: q ∧ sep ∉ p ∧ sep ∉ q := by
  have hs := Split_intercalate s sep
  rw [h, List.intercalate_cons_cons, List.intercalate_singleton, List.append_assoc,
    List.singleton_append] at hs
  exact ⟨hs.symm, not_mem_of_mem_Split (h ▸ List.mem_cons_self),
    not_mem_of_mem_Split (h ▸ List.mem_cons_of_mem _ (List.mem_singleton_self q))⟩

theorem Split_intercalate_of_forall {sep : Char} :
    ∀ {ps : List (List Char)}, ps ≠ [] → (∀ p ∈ ps, sep ∉ p) → Split ([sep].intercalate ps) sep = ps
  | [], h, _ => absurd rfl h
  | [p], _, hp => by
    rw [List.intercalate_singleton, Split_of_not_mem (hp p List.mem_cons_self)]
  | p :: q :: ps, _, hp => by
    rw [List.intercalate_cons_cons, List.append_assoc, List.singleton_append,
      Split_append _ (hp p List.mem_cons_self),
      Split_intercalate_of_forall (List.cons_ne_nil q ps) fun r hr => hp r (List.mem_cons_of_mem _ hr)]

theorem mem_intercalate_singleton {sep ch : Char} :
    ∀ {ps : List (List Char)}, ch ∈ [sep].intercalate ps → ch = sep ∨ ∃ p ∈ ps, ch ∈ p
  | [], h => absurd h List.not_mem_nil
  | [p], h => .inr ⟨p, List.mem_cons_self, by rwa [List.intercalate_singleton] at h⟩
  | p :: q :: ps, h => by
    rw [List.intercalate_cons_cons, List.mem_append, List.mem_append, List.mem_singleton] at h
    rcases h with (h | h) | h
    · exact .inr ⟨p, List.mem_cons_self, h⟩
    · exact .inl h
    · rcases mem_intercalate_singleton h with h | ⟨r, hr, h⟩
      · exact .inl h
      · exact .inr ⟨r, List.mem_cons_of_mem _ hr, h⟩

theorem intercalate_ne_nil {sep : Char} {p : List Char} (ps : List (List Char)) (hp : p ≠ []) :
    [sep].intercalate (p :: ps) ≠ [] := by
  cases ps with
  | nil => rwa [List.intercalate_singleton]
  | cons q ps => simp [List.intercalate_cons_cons, hp]

theorem foldl_join {sep : Char} {xs : List (List Char)} (hne : xs ≠ []) :
    let out := xs.foldl (fun out x => out ++ x ++ [sep]) []
    out.take (out.length - 1) = [sep].intercalate xs := by
  have hfold : ∀ (xs : List (List Char)) (acc : List Char), xs ≠ [] →
      xs.foldl (fun out x => out ++ x ++ [sep]) acc = acc ++ [sep].intercalate xs ++ [sep] := by
    intro xs
    induction xs with
    | nil => intro _ h; exact absurd rfl h
    | cons x xs ih =>
      intro acc _
      cases xs with
      | nil => simp
      | cons y ys =>
        rw [List.foldl_cons, ih _ (List.cons_ne_nil y ys), List.intercalate_cons_cons]
        simp only [List.append_assoc]
  simp only [hfold xs [] hne, List.nil_append, List.length_append, List.length_singleton,
    Nat.add_sub_cancel, List.take_left']

/-! ## `strings.TrimSpace` -/

/-- `unicode.IsSpace`: the Latin-1 spaces, and the other white space of Unicode. -/
def IsSpace (c : Char) : Bool :=
  c = '\t' || c = '\n' || c.toNat = 0x0b || c.toNat = 0x0c || c = '\r' || c = ' ' ||
    c.toNat = 0x85 || c.toNat = 0xa0 || c.toNat = 0x1680 ||
    (0x2000 ≤ c.toNat && c.toNat ≤ 0x200a) || c.toNat = 0x2028 || c.toNat = 0x2029 ||
    c.toNat = 0x202f || c.toNat = 0x205f || c.toNat = 0x3000

/-- `strings.TrimSpace`: the leading and trailing spaces cut off. -/
def TrimSpace (s : List Char) : List Char :=
  ((s.dropWhile IsSpace).reverse.dropWhile IsSpace).reverse

theorem TrimSpace_of_forall {s : List Char} (h : ∀ c ∈ s, IsSpace c = false) : TrimSpace s = s := by
  have hd : ∀ l : List Char, (∀ c ∈ l, IsSpace c = false) → l.dropWhile IsSpace = l := by
    intro l hl
    rw [List.dropWhile_eq_self_iff]
    intro hlen
    rw [hl _ (List.getElem_mem hlen)]
    exact Bool.false_ne_true
  rw [TrimSpace, hd s h, hd s.reverse fun c hc => h c (List.mem_reverse.mp hc), List.reverse_reverse]

theorem isSpace_of_lt {c : Char} (h1 : 0x20 < c.toNat) (h2 : c.toNat < 0x85) : IsSpace c = false := by
  have hc : ∀ x : Char, x.toNat ≤ 0x20 → c ≠ x := fun x hx hcx => by rw [hcx] at h1; omega
  simp [IsSpace, hc '\t' (by decide), hc '\n' (by decide), hc '\r' (by decide), hc ' ' (by decide),
    show c.toNat ≠ 0x0b by omega, show c.toNat ≠ 0x0c by omega, show c.toNat ≠ 0x85 by omega,
    show c.toNat ≠ 0xa0 by omega, show c.toNat ≠ 0x1680 by omega, show ¬ 0x2000 ≤ c.toNat by omega,
    show c.toNat ≠ 0x2028 by omega, show c.toNat ≠ 0x2029 by omega, show c.toNat ≠ 0x202f by omega,
    show c.toNat ≠ 0x205f by omega, show c.toNat ≠ 0x3000 by omega]

/-! ## `strings.ToLower` -/

/-- A row of `unicode.CaseRanges` as the lower case reads it: the runes `Lo … Hi` map to
themselves plus `Delta`, or, in an upper-lower sequence (`Delta = none`, Go's `UpperLower`), the
runes at even offsets from `Lo` map to the next one and the others to themselves. -/
structure CaseRange where
  Lo : Nat
  Hi : Nat
  Delta : Option Int
  deriving DecidableEq, Repr

/-- The rows of `unicode.CaseRanges` above ASCII whose lower-case delta is not zero, from the
simple case mappings of the Unicode Character Database 14.0.0 (Go's own table follows the Unicode
version of the toolchain). -/
def LowerCaseRanges : List CaseRange :=
  [⟨0xC0, 0xD6, some 32⟩, ⟨0xD8, 0xDE, some 32⟩, ⟨0x100, 0x12E, none⟩, ⟨0x130, 0x130, some (-199)⟩,
   ⟨0x132, 0x136, none⟩, ⟨0x139, 0x147, none⟩, ⟨0x14A, 0x176, none⟩, ⟨0x178, 0x178, some (-121)⟩,
   ⟨0x179, 0x17D, none⟩, ⟨0x181, 0x181, some 210⟩, ⟨0x182, 0x184, none⟩, ⟨0x186, 0x186, some 206⟩,
   ⟨0x187, 0x187, some 1⟩, ⟨0x189, 0x18A, some 205⟩, ⟨0x18B, 0x18B, some 1⟩, ⟨0x18E, 0x18E, some 79⟩,
   ⟨0x18F, 0x18F, some 202⟩, ⟨0x190, 0x190, some 203⟩, ⟨0x191, 0x191, some 1⟩, ⟨0x193, 0x193, some 205⟩,
   ⟨0x194, 0x194, some 207⟩, ⟨0x196, 0x196, some 211⟩, ⟨0x197, 0x197, some 209⟩, ⟨0x198, 0x198, some 1⟩,
   ⟨0x19C, 0x19C, some 211⟩, ⟨0x19D, 0x19D, some 213⟩, ⟨0x19F, 0x19F, some 214⟩, ⟨0x1A0, 0x1A4, none⟩,
   ⟨0x1A6, 0x1A6, some 218⟩, ⟨0x1A7, 0x1A7, some 1⟩, ⟨0x1A9, 0x1A9, some 218⟩, ⟨0x1AC, 0x1AC, some 1⟩,
   ⟨0x1AE, 0x1AE, some 218⟩, ⟨0x1AF, 0x1AF, some 1⟩, ⟨0x1B1, 0x1B2, some 217⟩, ⟨0x1B3, 0x1B5, none⟩,
   ⟨0x1B7, 0x1B7, some 219⟩, ⟨0x1B8, 0x1B8, some 1⟩, ⟨0x1BC, 0x1BC, some 1⟩, ⟨0x1C4, 0x1C4, some 2⟩,
   ⟨0x1C5, 0x1C5, some 1⟩, ⟨0x1C7, 0x1C7, some 2⟩, ⟨0x1C8, 0x1C8, some 1⟩, ⟨0x1CA, 0x1CA, some 2⟩,
   ⟨0x1CB, 0x1DB, none⟩, ⟨0x1DE, 0x1EE, none⟩, ⟨0x1F1, 0x1F1, some 2⟩, ⟨0x1F2, 0x1F4, none⟩,
   ⟨0x1F6, 0x1F6, some (-97)⟩, ⟨0x1F7, 0x1F7, some (-56)⟩, ⟨0x1F8, 0x21E, none⟩, ⟨0x220, 0x220, some (-130)⟩,
   ⟨0x222, 0x232, none⟩, ⟨0x23A, 0x23A, some 10795⟩, ⟨0x23B, 0x23B, some 1⟩, ⟨0x23D, 0x23D, some (-163)⟩,
   ⟨0x23E, 0x23E, some 10792⟩, ⟨0x241, 0x241, some 1⟩, ⟨0x243, 0x243, some (-195)⟩, ⟨0x244, 0x244, some 69⟩,
   ⟨0x245, 0x245, some 71⟩, ⟨0x246, 0x24E, none⟩, ⟨0x370, 0x372, none⟩, ⟨0x376, 0x376, some 1⟩,
   ⟨0x37F, 0x37F, some 116⟩, ⟨0x386, 0x386, some 38⟩, ⟨0x388, 0x38A, some 37⟩, ⟨0x38C, 0x38C, some 64⟩,
   ⟨0x38E, 0x38F, some 63⟩, ⟨0x391, 0x3A1, some 32⟩, ⟨0x3A3, 0x3AB, some 32⟩, ⟨0x3CF, 0x3CF, some 8⟩,
   ⟨0x3D8, 0x3EE, none⟩, ⟨0x3F4, 0x3F4, some (-60)⟩, ⟨0x3F7, 0x3F7, some 1⟩, ⟨0x3F9, 0x3F9, some (-7)⟩,
   ⟨0x3FA, 0x3FA, some 1⟩, ⟨0x3FD, 0x3FF, some (-130)⟩, ⟨0x400, 0x40F, some 80⟩, ⟨0x410, 0x42F, some 32⟩,
   ⟨0x460, 0x480, none⟩, ⟨0x48A, 0x4BE, none⟩, ⟨0x4C0, 0x4C0, some 15⟩, ⟨0x4C1, 0x4CD, none⟩,
   ⟨0x4D0, 0x52E, none⟩, ⟨0x531, 0x556, some 48⟩, ⟨0x10A0, 0x10C5, some 7264⟩, ⟨0x10C7, 0x10C7, some 7264⟩,
   ⟨0x10CD, 0x10CD, some 7264⟩, ⟨0x13A0, 0x13EF, some 38864⟩, ⟨0x13F0, 0x13F5, some 8⟩, ⟨0x1C90, 0x1CBA, some (-3008)⟩,
   ⟨0x1CBD, 0x1CBF, some (-3008)⟩, ⟨0x1E00, 0x1E94, none⟩, ⟨0x1E9E, 0x1E9E, some (-7615)⟩, ⟨0x1EA0, 0x1EFE, none⟩,
   ⟨0x1F08, 0x1F0F, some (-8)⟩, ⟨0x1F18, 0x1F1D, some (-8)⟩, ⟨0x1F28, 0x1F2F, some (-8)⟩, ⟨0x1F38, 0x1F3F, some (-8)⟩,
   ⟨0x1F48, 0x1F4D, some (-8)⟩, ⟨0x1F59, 0x1F59, some (-8)⟩, ⟨0x1F5B, 0x1F5B, some (-8)⟩, ⟨0x1F5D, 0x1F5D, some (-8)⟩,
   ⟨0x1F5F, 0x1F5F, some (-8)⟩, ⟨0x1F68, 0x1F6F, some (-8)⟩, ⟨0x1F88, 0x1F8F, some (-8)⟩, ⟨0x1F98, 0x1F9F, some (-8)⟩,
   ⟨0x1FA8, 0x1FAF, some (-8)⟩, ⟨0x1FB8, 0x1FB9, some (-8)⟩, ⟨0x1FBA, 0x1FBB, some (-74)⟩, ⟨0x1FBC, 0x1FBC, some (-9)⟩,
   ⟨0x1FC8, 0x1FCB, some (-86)⟩, ⟨0x1FCC, 0x1FCC, some (-9)⟩, ⟨0x1FD8, 0x1FD9, some (-8)⟩, ⟨0x1FDA, 0x1FDB, some (-100)⟩,
   ⟨0x1FE8, 0x1FE9, some (-8)⟩, ⟨0x1FEA, 0x1FEB, some (-112)⟩, ⟨0x1FEC, 0x1FEC, some (-7)⟩, ⟨0x1FF8, 0x1FF9, some (-128)⟩,
   ⟨0x1FFA, 0x1FFB, some (-126)⟩, ⟨0x1FFC, 0x1FFC, some (-9)⟩, ⟨0x2126, 0x2126, some (-7517)⟩, ⟨0x212A, 0x212A, some (-8383)⟩,
   ⟨0x212B, 0x212B, some (-8262)⟩, ⟨0x2132, 0x2132, some 28⟩, ⟨0x2160, 0x216F, some 16⟩, ⟨0x2183, 0x2183, some 1⟩,
   ⟨0x24B6, 0x24CF, some 26⟩, ⟨0x2C00, 0x2C2F, some 48⟩, ⟨0x2C60, 0x2C60, some 1⟩, ⟨0x2C62, 0x2C62, some (-10743)⟩,
   ⟨0x2C63, 0x2C63, some (-3814)⟩, ⟨0x2C64, 0x2C64, some (-10727)⟩, ⟨0x2C67, 0x2C6B, none⟩, ⟨0x2C6D, 0x2C6D, some (-10780)⟩,
   ⟨0x2C6E, 0x2C6E, some (-10749)⟩, ⟨0x2C6F, 0x2C6F, some (-10783)⟩, ⟨0x2C70, 0x2C70, some (-10782)⟩, ⟨0x2C72, 0x2C72, some 1⟩,
   ⟨0x2C75, 0x2C75, some 1⟩, ⟨0x2C7E, 0x2C7F, some (-10815)⟩, ⟨0x2C80, 0x2CE2, none⟩, ⟨0x2CEB, 0x2CED, none⟩,
   ⟨0x2CF2, 0x2CF2, some 1⟩, ⟨0xA640, 0xA66C, none⟩, ⟨0xA680, 0xA69A, none⟩, ⟨0xA722, 0xA72E, none⟩,
   ⟨0xA732, 0xA76E, none⟩, ⟨0xA779, 0xA77B, none⟩, ⟨0xA77D, 0xA77D, some (-35332)⟩, ⟨0xA77E, 0xA786, none⟩,
   ⟨0xA78B, 0xA78B, some 1⟩, ⟨0xA78D, 0xA78D, some (-42280)⟩, ⟨0xA790, 0xA792, none⟩, ⟨0xA796, 0xA7A8, none⟩,
   ⟨0xA7AA, 0xA7AA, some (-42308)⟩, ⟨0xA7AB, 0xA7AB, some (-42319)⟩, ⟨0xA7AC, 0xA7AC, some (-42315)⟩, ⟨0xA7AD, 0xA7AD, some (-42305)⟩,
   ⟨0xA7AE, 0xA7AE, some (-42308)⟩, ⟨0xA7B0, 0xA7B0, some (-42258)⟩, ⟨0xA7B1, 0xA7B1, some (-42282)⟩, ⟨0xA7B2, 0xA7B2, some (-42261)⟩,
   ⟨0xA7B3, 0xA7B3, some 928⟩, ⟨0xA7B4, 0xA7C2, none⟩, ⟨0xA7C4, 0xA7C4, some (-48)⟩, ⟨0xA7C5, 0xA7C5, some (-42307)⟩,
   ⟨0xA7C6, 0xA7C6, some (-35384)⟩, ⟨0xA7C7, 0xA7C9, none⟩, ⟨0xA7D0, 0xA7D0, some 1⟩, ⟨0xA7D6, 0xA7D8, none⟩,
   ⟨0xA7F5, 0xA7F5, some 1⟩, ⟨0xFF21, 0xFF3A, some 32⟩, ⟨0x10400, 0x10427, some 40⟩, ⟨0x104B0, 0x104D3, some 40⟩,
   ⟨0x10570, 0x1057A, some 39⟩, ⟨0x1057C, 0x1058A, some 39⟩, ⟨0x1058C, 0x10592, some 39⟩, ⟨0x10594, 0x10595, some 39⟩,
   ⟨0x10C80, 0x10CB2, some 64⟩, ⟨0x118A0, 0x118BF, some 32⟩, ⟨0x16E40, 0x16E5F, some 32⟩, ⟨0x1E900, 0x1E921, some 34⟩]

/-- `unicode.ToLower`: ASCII letters directly, every other rune through the case ranges (the
binary search of Go's `to` finds the one row that holds the rune). -/
def ToLowerRune (r : Char) : Char :=
  if r.toNat ≤ 0x7f then
    if 'A' ≤ r ∧ r ≤ 'Z' then Char.ofNat (r.toNat + 32) else r
  else
    match LowerCaseRanges.find? fun cr => cr.Lo ≤ r.toNat ∧ r.toNat ≤ cr.Hi with
    | none => r
    | some ⟨_, _, some delta⟩ => Char.ofNat (r.toNat + delta).toNat
    | some ⟨lo, _, none⟩ => Char.ofNat (lo + ((r.toNat - lo) / 2 * 2 + 1))

/-- `strings.ToLower`: an ASCII text without an upper-case letter is returned as it is, an ASCII
text has its letters lowered, and any other text is mapped rune by rune. -/
def ToLower (s : List Char) : List Char :=
  if s.all (·.toNat < 0x80) then
    if !s.any (fun c => 'A' ≤ c ∧ c ≤ 'Z') then s
    else s.map fun c => if 'A' ≤ c ∧ c ≤ 'Z' then Char.ofNat (c.toNat + 32) else c
  else s.map ToLowerRune

example : ToLower ['a', 'B', '1'] = ['a', 'b', '1'] ∧ ToLower ['x', 'Ä'] = ['x', 'ä'] ∧
    ToLower ['Σ', 'ǅ'] = ['σ', 'ǆ'] := by
  decide +kernel

theorem ToLower_of_forall {s : List Char} (h : ∀ c ∈ s, c.toNat < 0x80 ∧ ¬ ('A' ≤ c ∧ c ≤ 'Z')) :
    ToLower s = s := by
  have hascii : s.all (·.toNat < 0x80) = true := List.all_eq_true.mpr fun c hc => decide_eq_true (h c hc).1
  have hupper : s.any (fun c => 'A' ≤ c ∧ c ≤ 'Z') = false :=
    List.any_eq_false.mpr fun c hc => by simpa using (h c hc).2
  unfold ToLower
  rw [if_pos hascii, hupper]
  rfl

/-! ## `big.Int.SetString` -/

/-- `scanSign`: one optional sign character. -/
def scanSign : List Char → Bool × List Char
  | '-' :: s => (true, s)
  | '+' :: s => (false, s)
  | s => (false, s)

/-- The state of the digit loop of `nat.scan`: the value read, the digits counted, the last
thing read (`'0'` a digit, `'_'` a separator, `'.'` anything else) and whether a separator
stood where it may not. -/
structure ScanState where
  value : ℕ
  count : ℕ
  prev : Char
  invalSep : Bool

/-- The digit loop of `nat.scan` in base `b`, which reads separators only when the caller's
base is 0 (`sep`). It stops before the first character that is neither. -/
def scanDigits (b : ℕ) (sep : Bool) : ScanState → List Char → ScanState × List Char
  | st, [] => (st, [])
  | st, ch :: rest =>
    if ch = '_' ∧ sep = true then
      scanDigits b sep ⟨st.value, st.count, '_', st.invalSep || st.prev != '0'⟩ rest
    else
      match charValue ch with
      | some d =>
        if d < b then scanDigits b sep ⟨st.value * b + d, st.count + 1, '0', st.invalSep⟩ rest
        else (st, ch :: rest)
      | none => (st, ch :: rest)

/-- The base `nat.scan` reads in and the state it starts its digit loop from. Base 0 picks
the base from a prefix: `0b`, `0o` and `0x`, or a bare `0` for octal (whose digits are not
counted, so that a lone prefix reads as zero); a lone `0` is a decimal digit. -/
def scanPrefix (base : ℕ) (s : List Char) : ℕ × Bool × ScanState × List Char :=
  if base = 0 then
    match s with
    | '0' :: c :: rest =>
      if c = 'b' ∨ c = 'B' then (2, false, ⟨0, 0, '0', false⟩, rest)
      else if c = 'o' ∨ c = 'O' then (8, false, ⟨0, 0, '0', false⟩, rest)
      else if c = 'x' ∨ c = 'X' then (16, false, ⟨0, 0, '0', false⟩, rest)
      else (8, true, ⟨0, 0, '0', false⟩, c :: rest)
    | ['0'] => (10, false, ⟨0, 1, '0', false⟩, [])
    | s => (10, false, ⟨0, 0, '.', false⟩, s)
  else (base, false, ⟨0, 0, '.', false⟩, s)

/-- `nat.scan` without fractions: the value and what is left unread, or `none` for an error
(a misplaced separator, or no digit after anything but the octal prefix). -/
def natScan (base : ℕ) (s : List Char) : Option (ℕ × List Char) :=
  let (b, octal, st, rest) := scanPrefix base s
  let (st, rest) := scanDigits b (base = 0) st rest
  if st.invalSep || st.prev = '_' then none
  else if st.count = 0 then (if octal then some (0, rest) else none)
  else some (st.value, rest)

/-- `big.Int.SetString(s, base)` for base 0 or 2 to 36, `none` where Go's result is not ok:
a sign, the number, and nothing after it. -/
def SetString (s : List Char) (base : ℕ) : Option ℤ :=
  match natScan base (scanSign s).2 with
  | some (n, []) => some (if (scanSign s).1 then -(n : ℤ) else n)
  | _ => none

/-- A character that is a digit of base `b`. -/
def IsDigitOf (b : ℕ) (c : Char) : Prop := ∃ d < b, charValue c = some d

instance instDecidablePredIsDigitOf (b : ℕ) : DecidablePred (IsDigitOf b) := fun c =>
  decidable_of_iff ((charValue c).any (· < b) = true) (by
    unfold IsDigitOf
    cases charValue c <;> simp)

/-- The digits a list of digit characters stands for. -/
def digitValues (cs : List Char) : List ℕ := cs.filterMap charValue

theorem digitValues_append (cs cs' : List Char) :
    digitValues (cs ++ cs') = digitValues cs ++ digitValues cs' := List.filterMap_append

theorem length_digitValues {b : ℕ} :
    ∀ {cs : List Char}, (∀ c ∈ cs, IsDigitOf b c) → (digitValues cs).length = cs.length
  | [], _ => rfl
  | c :: cs, h => by
    obtain ⟨d, -, hd⟩ := h c List.mem_cons_self
    rw [digitValues, List.filterMap_cons, hd, List.length_cons, ← digitValues,
      length_digitValues fun c' hc' => h c' (List.mem_cons_of_mem _ hc'), List.length_cons]

theorem horner_digitValues_cons {b d : ℕ} {c : Char} (hc : charValue c = some d)
    {rest : List Char} (hrest : ∀ c ∈ rest, IsDigitOf b c) (n : ℕ) :
    n * b ^ (c :: rest).length + value b (digitValues (c :: rest)) =
      (n * b + d) * b ^ rest.length + value b (digitValues rest) := by
  rw [digitValues, List.filterMap_cons, hc, ← digitValues, value_cons, length_digitValues hrest,
    List.length_cons, pow_succ]
  ring

theorem scanDigits_append {b : ℕ} {sep : Bool} :
    ∀ (cs rest : List Char) (st : ScanState), (∀ c ∈ cs, IsDigitOf b c) →
      scanDigits b sep st (cs ++ rest) =
        scanDigits b sep ⟨st.value * b ^ cs.length + value b (digitValues cs),
          st.count + cs.length, if cs = [] then st.prev else '0', st.invalSep⟩ rest
  | [], rest, st, _ => by simp [value, digitValues]
  | c :: cs, rest, st, h => by
    obtain ⟨d, hdb, hd⟩ := h c List.mem_cons_self
    have hc : ¬ (c = '_' ∧ sep = true) := fun hc => by
      rw [hc.1] at hd
      cases hd
    have hcs : ∀ c' ∈ cs, IsDigitOf b c' := fun c' hc' => h c' (List.mem_cons_of_mem _ hc')
    have hv : value b (digitValues (c :: cs)) = d * b ^ cs.length + value b (digitValues cs) := by
      rw [digitValues, List.filterMap_cons, hd, ← digitValues, value_cons, length_digitValues hcs]
    rw [List.cons_append, scanDigits, if_neg hc, hd]
    dsimp only
    rw [if_pos hdb, scanDigits_append cs rest _ hcs, hv, if_neg (List.cons_ne_nil c cs)]
    -- the value, the count and the last character agree
    congr 1
    simp only [ScanState.mk.injEq, List.length_cons, ite_self, and_true]
    constructor
    · ring
    · omega

theorem scanDigits_stop {b : ℕ} {sep : Bool} (st : ScanState) {c : Char} (rest : List Char)
    (hc : ¬ IsDigitOf b c) (hsep : ¬ (c = '_' ∧ sep = true)) :
    scanDigits b sep st (c :: rest) = (st, c :: rest) := by
  rw [scanDigits, if_neg hsep]
  cases hv : charValue c with
  | none => rfl
  | some d =>
    dsimp only
    rw [if_neg fun hd => hc ⟨d, hd, hv⟩]

theorem forall_isDigitOf_of_scanDigits {b : ℕ} :
    ∀ (cs : List Char) (st : ScanState), (scanDigits b false st cs).2 = [] → ∀ c ∈ cs, IsDigitOf b c
  | [], _, _ => fun _ hc => absurd hc List.not_mem_nil
  | c :: cs, st, h => by
    by_cases hc : IsDigitOf b c
    · obtain ⟨d, hdb, hd⟩ := hc
      have hsep : ¬ (c = '_' ∧ false = true) := fun h => Bool.false_ne_true h.2
      rw [scanDigits, if_neg hsep, hd] at h
      dsimp only at h
      rw [if_pos hdb] at h
      intro c' hc'
      rcases List.mem_cons.mp hc' with rfl | hc'
      · exact ⟨d, hdb, hd⟩
      · exact forall_isDigitOf_of_scanDigits cs _ h c' hc'
    · rw [scanDigits_stop st cs hc fun h => Bool.false_ne_true h.2] at h
      cases h

/-! ### Decimal digits -/

theorem isDigitOf_ten_iff {c : Char} : IsDigitOf 10 c ↔ IsDigit c := isDigit_iff.symm

theorem scanSign_of_isDigit {c : Char} (hc : IsDigit c) (cs : List Char) :
    scanSign (c :: cs) = (false, c :: cs) := by
  have hm : c ≠ '-' := fun h => absurd (h ▸ hc) (by decide)
  have hp : c ≠ '+' := fun h => absurd (h ▸ hc) (by decide)
  unfold scanSign
  split
  · next s heq => exact absurd (List.cons.inj heq).1 hm
  · next s heq => exact absurd (List.cons.inj heq).1 hp
  · rfl

theorem digitValues_map_digitChar {ds : List ℕ} (h : ∀ d ∈ ds, d < 16) :
    digitValues (ds.map Nat.digitChar) = ds := by
  induction ds with
  | nil => rfl
  | cons d ds ih =>
    have hd : charValue (Nat.digitChar d) = some d := charValue_digitChar (h d List.mem_cons_self)
    rw [List.map_cons, digitValues, List.filterMap_cons, hd, ← digitValues,
      ih fun d' hd' => h d' (List.mem_cons_of_mem _ hd')]

/-- What `Nat.toDigits` writes in a base up to sixteen is digits of the base, and reads back
as the number. -/
theorem toDigits_spec {b : ℕ} (hb : 1 < b) (hb16 : b ≤ 16) (n : ℕ) :
    (∀ c ∈ Nat.toDigits b n, IsDigitOf b c) ∧ value b (digitValues (Nat.toDigits b n)) = n := by
  have hlt := digitsBE_lt hb n
  have hlt16 : ∀ d ∈ digitsBE b n, d < 16 := fun d hd => Nat.lt_of_lt_of_le (hlt d hd) hb16
  rw [toDigits_eq hb]
  refine ⟨fun c hc => ?_, by rw [digitValues_map_digitChar hlt16, value_digitsBE]⟩
  obtain ⟨d, hd, rfl⟩ := List.mem_map.mp hc
  exact ⟨d, hlt d hd, charValue_digitChar (hlt16 d hd)⟩

theorem toDigits_ten (n : ℕ) :
    (∀ c ∈ Nat.toDigits 10 n, IsDigit c) ∧ value 10 (digitValues (Nat.toDigits 10 n)) = n := by
  obtain ⟨hdig, hval⟩ := toDigits_spec (show 1 < 10 by decide) (by decide) n
  exact ⟨fun c hc => isDigitOf_ten_iff.mp (hdig c hc), hval⟩

theorem natScan_ten {ds : List Char} (hds : ds ≠ []) (hdig : ∀ c ∈ ds, IsDigit c) :
    natScan 10 ds = some (value 10 (digitValues ds), []) := by
  have hdig' : ∀ c ∈ ds, IsDigitOf 10 c := fun c hc => isDigitOf_ten_iff.mpr (hdig c hc)
  have h : scanDigits 10 false ⟨0, 0, '.', false⟩ (ds ++ []) = _ := scanDigits_append ds [] _ hdig'
  have hlen : ds.length ≠ 0 := fun h => hds (List.eq_nil_of_length_eq_zero h)
  rw [List.append_nil] at h
  have hD : scanDigits 10 false ⟨0, 0, '.', false⟩ ds =
      (⟨value 10 (digitValues ds), ds.length, '0', false⟩, []) := by
    rw [h, scanDigits, zero_mul, zero_add, zero_add, if_neg hds]
  simp only [natScan, scanPrefix, if_neg (show (10 : ℕ) ≠ 0 by decide),
    show decide ((10 : ℕ) = 0) = false from rfl]
  rw [hD]
  simp [hlen]

theorem SetString_ten {sign ds : List Char} (hsign : sign = [] ∨ sign = ['+'] ∨ sign = ['-'])
    (hds : ds ≠ []) (hdig : ∀ c ∈ ds, IsDigit c) :
    SetString (sign ++ ds) 10 =
      some (if sign = ['-'] then -(value 10 (digitValues ds) : ℤ) else value 10 (digitValues ds)) := by
  have hscan := natScan_ten hds hdig
  rcases hsign with rfl | rfl | rfl
  · obtain ⟨c, cs, rfl⟩ := List.exists_cons_of_ne_nil hds
    simp [SetString, scanSign_of_isDigit (hdig c List.mem_cons_self), hscan]
  · simp [SetString, scanSign, hscan]
  · simp [SetString, scanSign, hscan]

theorem scanSign_spec (s : List Char) :
    ∃ sign, s = sign ++ (scanSign s).2 ∧ (sign = [] ∧ (scanSign s).1 = false ∨
      sign = ['+'] ∧ (scanSign s).1 = false ∨ sign = ['-'] ∧ (scanSign s).1 = true) := by
  unfold scanSign
  split
  · next t => exact ⟨['-'], rfl, .inr (.inr ⟨rfl, rfl⟩)⟩
  · next t => exact ⟨['+'], rfl, .inr (.inl ⟨rfl, rfl⟩)⟩
  · exact ⟨[], rfl, .inl ⟨rfl, rfl⟩⟩

theorem natScan_ten_eq_some {t : List Char} {n : ℕ} (h : natScan 10 t = some (n, [])) :
    t ≠ [] ∧ (∀ c ∈ t, IsDigit c) ∧ n = value 10 (digitValues t) := by
  simp only [natScan, scanPrefix, if_neg (show (10 : ℕ) ≠ 0 by decide),
    show decide ((10 : ℕ) = 0) = false from rfl] at h
  generalize hD : scanDigits 10 false ⟨0, 0, '.', false⟩ t = r at h
  obtain ⟨st, rest⟩ := r
  simp only [Bool.false_eq_true, if_false] at h
  split_ifs at h with h1 h2
  obtain ⟨rfl, rfl⟩ := Prod.mk.inj (Option.some.inj h)
  -- all of `t` was read, so all of it is digits, and the state is that of reading them
  have hall := forall_isDigitOf_of_scanDigits t _ (by rw [hD])
  have hstep : scanDigits 10 false ⟨0, 0, '.', false⟩ (t ++ []) = _ := scanDigits_append t [] _ hall
  rw [List.append_nil, hD, scanDigits] at hstep
  obtain ⟨rfl, -⟩ := Prod.mk.inj hstep
  refine ⟨fun ht => h2 (by simp [ht]), fun c hc => isDigitOf_ten_iff.mp (hall c hc), by simp⟩

theorem SetString_ten_eq_some {s : List Char} {v : ℤ} (h : SetString s 10 = some v) :
    ∃ sign ds, (sign = [] ∨ sign = ['+'] ∨ sign = ['-']) ∧ s = sign ++ ds ∧ ds ≠ [] ∧
      (∀ c ∈ ds, IsDigit c) ∧
      v = if sign = ['-'] then -(value 10 (digitValues ds) : ℤ) else value 10 (digitValues ds) := by
  obtain ⟨sign, hs, hsign⟩ := scanSign_spec s
  unfold SetString at h
  split at h
  · next n hn =>
    obtain ⟨hne, hdig, rfl⟩ := natScan_ten_eq_some hn
    refine ⟨sign, _, ?_, hs, hne, hdig, ?_⟩
    · rcases hsign with ⟨rfl, -⟩ | ⟨rfl, -⟩ | ⟨rfl, -⟩ <;> simp
    · rw [← Option.some.inj h]
      rcases hsign with ⟨rfl, h1⟩ | ⟨rfl, h1⟩ | ⟨rfl, h1⟩ <;> simp [h1]
  · cases h

theorem SetString_nonneg {c : Char} {cs : List Char} {b : ℕ} {v : ℤ} (hc : IsDigit c)
    (h : SetString (c :: cs) b = some v) : 0 ≤ v := by
  unfold SetString at h
  rw [scanSign_of_isDigit hc] at h
  split at h
  · cases h
    simp
  · cases h

/-! ### Base 0 over decimal digits -/

theorem scanDigits_all {b : ℕ} {sep : Bool} {cs : List Char} (st : ScanState)
    (h : ∀ c ∈ cs, IsDigitOf b c) :
    scanDigits b sep st cs = (⟨st.value * b ^ cs.length + value b (digitValues cs),
      st.count + cs.length, if cs = [] then st.prev else '0', st.invalSep⟩, []) := by
  have h' := @scanDigits_append b sep cs [] st h
  rw [List.append_nil] at h'
  rw [h', scanDigits]

theorem SetString_zero_decimal {c : Char} {cs : List Char} (hdig : ∀ d ∈ c :: cs, IsDigit d)
    (h0 : c ≠ '0' ∨ cs = []) :
    SetString (c :: cs) 0 = some ((value 10 (digitValues (c :: cs)) : ℕ) : ℤ) := by
  have hdig' : ∀ d ∈ c :: cs, IsDigitOf 10 d := fun d hd => isDigitOf_ten_iff.mpr (hdig d hd)
  by_cases hz : c = '0' ∧ cs = []
  · obtain ⟨rfl, rfl⟩ := hz
    decide
  have hpre : scanPrefix 0 (c :: cs) = (10, false, ⟨0, 0, '.', false⟩, c :: cs) := by
    -- the fallback case of the prefix match: no leading `0` before more digits
    rw [scanPrefix, if_pos rfl]
    · intro c' rest h
      simp only [List.cons.injEq] at h
      rcases h0 with h0 | h0 <;> simp_all
    · intro h
      simp only [List.cons.injEq] at h
      exact hz h
  rw [SetString, scanSign_of_isDigit (hdig c List.mem_cons_self)]
  simp only [natScan, hpre, scanDigits_all _ hdig']
  simp

theorem SetString_zero_octal {d : Char} {ds : List Char} (hdig : ∀ c ∈ d :: ds, IsDigit c) :
    SetString ('0' :: d :: ds) 0 =
      if ∀ c ∈ d :: ds, IsDigitOf 8 c then some ((value 8 (digitValues (d :: ds)) : ℕ) : ℤ)
      else none := by
  have hd := hdig d List.mem_cons_self
  -- a digit is none of the letters of the other prefixes
  have hletter : ∀ x : Char, ¬ IsDigit x → d ≠ x := fun x hx h => hx (h ▸ hd)
  have hpre : scanPrefix 0 ('0' :: d :: ds) = (8, true, ⟨0, 0, '0', false⟩, d :: ds) := by
    simp only [scanPrefix, hletter 'b' (by decide), hletter 'B' (by decide),
      hletter 'o' (by decide), hletter 'O' (by decide), hletter 'x' (by decide),
      hletter 'X' (by decide), or_self, if_false, if_true]
  rw [SetString, scanSign_of_isDigit (by decide : IsDigit '0')]
  by_cases hoct : ∀ c ∈ d :: ds, IsDigitOf 8 c
  · rw [if_pos hoct]
    simp only [natScan, hpre, scanDigits_all _ hoct]
    simp
  · -- the loop stops at the first `8` or `9` and leaves it unread
    set p : Char → Bool := fun c => decide (IsDigitOf 8 c) with hp
    have hne : (d :: ds).dropWhile p ≠ [] := fun h => hoct fun c hc => by
      simpa [hp] using List.dropWhile_eq_nil_iff.mp h c hc
    obtain ⟨c, post, hcp⟩ := List.exists_cons_of_ne_nil hne
    have hc : ¬ IsDigitOf 8 c := by
      have h1 := List.head_dropWhile_not p (l := d :: ds) (by simp [hcp])
      have h2 : p c = false := by simpa only [hcp, List.head_cons] using h1
      simpa [hp] using h2
    have htake : ∀ x ∈ (d :: ds).takeWhile p, IsDigitOf 8 x := fun x hx => by
      simpa [hp] using List.mem_takeWhile_imp hx
    have hsplit : d :: ds = (d :: ds).takeWhile p ++ c :: post := by
      rw [← hcp, List.takeWhile_append_dropWhile]
    -- it is a decimal digit, so no separator
    have hcu : c ≠ '_' := fun h => by
      have := hdig c (hsplit ▸ List.mem_append_right _ List.mem_cons_self)
      rw [h] at this
      exact absurd this (by decide)
    rw [if_neg hoct]
    simp only [natScan, hpre]
    rw [hsplit, scanDigits_append _ _ _ htake, scanDigits_stop _ _ hc fun h => hcu h.1]
    split_ifs <;> simp

end GoText
