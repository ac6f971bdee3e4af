import Dipper.Lib.GoText
import Dipper.Lib.StateExcept
import Dipper.Types.BigInt
import Dipper.Types.Coins

/-!
# Coin strings

`Coin.String`, `Coins.String` and the parsers `ParseCoin` and `ParseCoins` (`types/coin.go`).
An item is what `reCoin` matches, digits, white space and a denom, after `strings.TrimSpace`.
The digits go to `NewIntFromString`, which is `big.Int.SetString` in base 0: a leading `0` makes
the rest octal, so `010` is 8 and `09` is refused. `ParseCoins` sorts the coins it read and
checks them with `Coins.IsValid`. It reads back what `Coins.String` writes when every denom
matches the denom pattern, which `Coins.IsValid` asks of the first denom only.
-/

namespace Dipper

open GoText Digits KeyedList

/-- `Int.String`: the decimal digits of `big.Int.String`, `-` in front of a negative value. -/
def IntString (i : Int) : List Char :=
  (if i < 0 then ['-'] else []) ++ Nat.toDigits 10 i.natAbs

/-- `Coin.String`: the amount, then the denom. -/
def CoinString (coin : Coin) : List Char := IntString coin.amount ++ coin.denom.toList

/-- `Coins.String`: each coin's string and a comma, the last comma cut off. -/
def CoinsString (coins : Coins) : List Char :=
  if coins.length = 0 then []
  else
    let out := coins.foldl (fun out coin => out ++ CoinString coin ++ [',']) []
    out.take (out.length - 1)

/-- `[[:space:]]` of Go's regular expressions: ASCII white space. -/
def IsRegexSpace (c : Char) : Bool :=
  c = '\t' || c = '\n' || c.toNat = 0x0b || c.toNat = 0x0c || c = '\r' || c = ' '

/-- `reCoin.FindStringSubmatch`, for `^([[:digit:]]+)[[:space:]]*([a-z][a-z0-9]{2,15})$`: the
amount group and the denom group. No digit is white space or starts a denom, so the amount is
all the digits in front and the denom what follows the white space after them. -/
def reCoinMatch (s : List Char) : Option (List Char × List Char) :=
  let amountStr := s.takeWhile fun c => decide (IsDigit c)
  let denomStr := (s.dropWhile fun c => decide (IsDigit c)).dropWhile IsRegexSpace
  if amountStr ≠ [] ∧ ValidateDenom (String.ofList denomStr) = true then some (amountStr, denomStr)
  else none

/-- `NewIntFromString`: `big.Int.SetString` in base 0, refused past 255 bits. -/
def NewIntFromString (s : List Char) : Option Int :=
  match SetString s 0 with
  | none => none
  | some i => if BitLen i > 255 then none else some i

def ParseCoin (coinStr : List Char) : Except String Coin :=
  let coinStr := TrimSpace coinStr
  match reCoinMatch coinStr with
  | none => .error ("invalid coin expression: " ++ String.ofList coinStr)
  | some (amountStr, denomStr) =>
    match NewIntFromString amountStr with
    | none => .error ("failed to parse coin amount: " ++ String.ofList amountStr)
    | some amount =>
      if !ValidateDenom (String.ofList denomStr) then
        .error ("invalid denom cannot contain upper case characters or spaces: invalid denom: " ++
          String.ofList denomStr)
      else NewCoin (String.ofList denomStr) amount

/-- `Coins.Sort`: by denom. Go's `sort.Sort` may order two coins of one denom the other way,
which `ParseCoins` then refuses all the same. -/
def Coins.Sort (coins : Coins) : Coins := coins.insertionSort fun a b => a.denom ≤ b.denom

/-- `ParseCoins`. The error of an invalid result prints the coins with `%#v`, pointers
included, and is kept here without them. -/
def ParseCoins (coinsStr : List Char) : Except String Coins :=
  let coinsStr := TrimSpace coinsStr
  if coinsStr.length = 0 then .ok [] else
  match (Split coinsStr ',').mapM ParseCoin with
  | .error e => .error e
  | .ok coins =>
    let coins := Coins.Sort coins
    if !Coins.IsValid coins then .error "parseCoins invalid" else .ok coins

/-! ## The regular expression -/

theorem isRegexSpace_of_isDigit {c : Char} (h : IsDigit c) : IsRegexSpace c = false := by
  have h1 : 48 ≤ c.toNat := h.1
  have h2 : c.toNat ≤ 57 := h.2
  have hc : ∀ x : Char, x.toNat < 48 → c ≠ x := fun x hx hcx => by rw [hcx] at h1; omega
  simp [IsRegexSpace, hc '\t' (by decide), hc '\n' (by decide), hc '\r' (by decide),
    hc ' ' (by decide), show c.toNat ≠ 0x0b by omega, show c.toNat ≠ 0x0c by omega]

theorem exists_cons_of_ValidateDenom {d : List Char} (h : ValidateDenom (String.ofList d) = true) :
    ∃ c cs, d = c :: cs ∧ c.isLower = true := by
  unfold ValidateDenom at h
  rw [String.toList_ofList] at h
  split at h
  · cases h
  · next c cs =>
    simp only [Bool.and_eq_true] at h
    exact ⟨c, cs, rfl, h.1.1.1⟩

theorem not_isDigit_of_isLower {c : Char} (h : c.isLower = true) : ¬ IsDigit c := by
  simp only [Char.isLower, Bool.and_eq_true, decide_eq_true_eq] at h
  intro hd
  have h1 : c.toNat ≤ 57 := hd.2
  have h2 : 97 ≤ c.toNat := h.1
  omega

theorem isRegexSpace_of_isLower {c : Char} (h : c.isLower = true) : IsRegexSpace c = false := by
  simp only [Char.isLower, Bool.and_eq_true, decide_eq_true_eq] at h
  have h2 : 97 ≤ c.toNat := h.1
  have hc : ∀ x : Char, x.toNat < 97 → c ≠ x := fun x hx hcx => by rw [hcx] at h2; omega
  simp [IsRegexSpace, hc '\t' (by decide), hc '\n' (by decide), hc '\r' (by decide),
    hc ' ' (by decide), show c.toNat ≠ 0x0b by omega, show c.toNat ≠ 0x0c by omega]

theorem reCoinMatch_eq_some_iff {s a d : List Char} :
    reCoinMatch s = some (a, d) ↔ ∃ sp, s = a ++ sp ++ d ∧ a ≠ [] ∧ (∀ c ∈ a, IsDigit c) ∧
      (∀ c ∈ sp, IsRegexSpace c = true) ∧ ValidateDenom (String.ofList d) = true := by
  constructor
  · intro h
    unfold reCoinMatch at h
    dsimp only at h
    split_ifs at h with hm
    obtain ⟨rfl, rfl⟩ := Prod.mk.inj (Option.some.inj h)
    refine ⟨(s.dropWhile fun c => decide (IsDigit c)).takeWhile IsRegexSpace, ?_, hm.1,
      fun c hc => by simpa using List.mem_takeWhile_imp hc, fun c hc => List.mem_takeWhile_imp hc, hm.2⟩
    rw [List.append_assoc, List.takeWhile_append_dropWhile, List.takeWhile_append_dropWhile]
  · rintro ⟨sp, rfl, ha, hdig, hsp, hd⟩
    obtain ⟨c, cs, rfl, hc⟩ := exists_cons_of_ValidateDenom hd
    -- the white space and the denom start with no digit, the denom with no white space
    obtain ⟨x, rest, hx⟩ := List.exists_cons_of_ne_nil (show sp ++ c :: cs ≠ [] by simp)
    have hxd : ¬ IsDigit x := by
      cases sp with
      | nil =>
        obtain ⟨rfl, -⟩ := List.cons.inj hx
        exact not_isDigit_of_isLower hc
      | cons y sp =>
        obtain ⟨rfl, -⟩ := List.cons.inj hx
        intro hy
        simp [isRegexSpace_of_isDigit hy] at hsp
    have hdig' : ∀ y ∈ a, decide (IsDigit y) = true := by simpa using hdig
    have htake : ((a ++ sp ++ c :: cs).takeWhile fun c => decide (IsDigit c)) = a := by
      rw [List.append_assoc, List.takeWhile_append_of_pos hdig', hx,
        List.takeWhile_cons_of_neg (by simpa using hxd), List.append_nil]
    have hdrop : ((a ++ sp ++ c :: cs).dropWhile fun c => decide (IsDigit c)).dropWhile IsRegexSpace =
        c :: cs := by
      rw [List.append_assoc, List.dropWhile_append_of_pos hdig', hx,
        List.dropWhile_cons_of_neg (by simpa using hxd), ← hx, List.dropWhile_append_of_pos hsp,
        List.dropWhile_cons_of_neg (by simp [isRegexSpace_of_isLower hc])]
    simp only [reCoinMatch, htake, hdrop, hd]
    simpa using ha

/-! ## Items -/

theorem NewIntFromString_eq_some_iff {s : List Char} {v : ℤ} :
    NewIntFromString s = some v ↔ SetString s 0 = some v ∧ v.natAbs < 2 ^ 255 := by
  unfold NewIntFromString
  cases SetString s 0 with
  | none => simp
  | some i =>
    dsimp only
    by_cases h : BitLen i > 255
    · have hb := (BitLen_gt_iff i 255).mp h
      rw [if_pos h]
      simp only [reduceCtorEq, false_iff, not_and, Option.some.injEq]
      rintro rfl
      omega
    · have hb := (BitLen_le_iff i 255).mp (not_lt.mp h)
      rw [if_neg h, Option.some.injEq]
      constructor
      · rintro rfl
        exact ⟨rfl, hb⟩
      · rintro ⟨rfl, -⟩
        rfl

theorem NewIntFromString_decimal {c : Char} {cs : List Char} (hdig : ∀ d ∈ c :: cs, IsDigit d)
    (h0 : c ≠ '0' ∨ cs = []) :
    NewIntFromString (c :: cs) =
      if value 10 (digitValues (c :: cs)) < 2 ^ 255 then
        some ((value 10 (digitValues (c :: cs)) : ℕ) : ℤ)
      else none := by
  rw [NewIntFromString, SetString_zero_decimal hdig h0]
  simp only [gt_iff_lt, ← not_le, BitLen_le_iff, Int.natAbs_natCast, not_not]
  rw [ite_not]

theorem NewIntFromString_octal {d : Char} {ds : List Char} (hdig : ∀ c ∈ d :: ds, IsDigit c) :
    NewIntFromString ('0' :: d :: ds) =
      if (∀ c ∈ d :: ds, IsDigitOf 8 c) ∧ value 8 (digitValues (d :: ds)) < 2 ^ 255 then
        some ((value 8 (digitValues (d :: ds)) : ℕ) : ℤ)
      else none := by
  rw [NewIntFromString, SetString_zero_octal hdig]
  by_cases hoct : ∀ c ∈ d :: ds, IsDigitOf 8 c
  · simp only [if_pos hoct, gt_iff_lt, ← not_le, BitLen_le_iff, Int.natAbs_natCast, not_not,
      and_iff_right hoct]
    rw [ite_not]
  · rw [if_neg hoct, if_neg fun h => hoct h.1]

theorem NewIntFromString_nonneg {a : List Char} {v : ℤ} (ha : a ≠ []) (hdig : ∀ c ∈ a, IsDigit c)
    (h : NewIntFromString a = some v) : 0 ≤ v := by
  obtain ⟨c, cs, rfl⟩ := List.exists_cons_of_ne_nil ha
  exact SetString_nonneg (hdig c List.mem_cons_self) (NewIntFromString_eq_some_iff.mp h).1

/-- What `ParseCoin` accepts: after trimming, digits, white space and a denom of the pattern,
with the digits read by `NewIntFromString`. -/
theorem ParseCoin_eq_ok_iff {item : List Char} {coin : Coin} :
    ParseCoin item = .ok coin ↔ ∃ a sp d, TrimSpace item = a ++ sp ++ d ∧ a ≠ [] ∧
      (∀ c ∈ a, IsDigit c) ∧ (∀ c ∈ sp, IsRegexSpace c = true) ∧
      ValidateDenom (String.ofList d) = true ∧ NewIntFromString a = some coin.amount ∧
      coin.denom = String.ofList d := by
  constructor
  · intro h
    unfold ParseCoin at h
    dsimp only at h
    split at h
    · cases h
    · next a d hm =>
      obtain ⟨sp, htrim, ha, hdig, hsp, hd⟩ := reCoinMatch_eq_some_iff.mp hm
      split at h
      · cases h
      · next amount hamt =>
        have hnn := NewIntFromString_nonneg ha hdig hamt
        simp only [hd, Bool.not_true, NewCoin, if_false, show ¬ amount < 0 by omega] at h
        cases h
        exact ⟨a, sp, d, htrim, ha, hdig, hsp, hd, hamt, rfl⟩
  · rintro ⟨a, sp, d, htrim, ha, hdig, hsp, hd, hamt, hden⟩
    have hm : reCoinMatch (TrimSpace item) = some (a, d) :=
      reCoinMatch_eq_some_iff.mpr ⟨sp, htrim, ha, hdig, hsp, hd⟩
    have hnn := NewIntFromString_nonneg ha hdig hamt
    simp only [ParseCoin, hm, hamt, hd, Bool.not_true, NewCoin, show ¬ coin.amount < 0 by omega]
    rw [← hden]
    rfl

/-! ## Lists of items -/

/-- `Coins.IsValid` of sorted coins whose denoms all match the pattern: distinct denoms and
positive amounts. -/
theorem IsValid_Sort_iff {coins : Coins} (hden : ∀ c ∈ coins, ValidateDenom c.denom = true) :
    Coins.IsValid (Coins.Sort coins) = true ↔
      (coins.map Coin.denom).Nodup ∧ ∀ c ∈ coins, 0 < c.amount := by
  have hperm := List.perm_insertionSort (fun a b : Coin => a.denom ≤ b.denom) coins
  rw [IsValid_iff, Coins.Sort]
  constructor
  · rintro ⟨hs, hpos, -⟩
    exact ⟨(hperm.map Coin.denom).nodup_iff.mp hs.nodup_keys,
      fun c hc => (hpos c (hperm.mem_iff.mpr hc)).2⟩
  · rintro ⟨hnd, hpos⟩
    refine ⟨strict_insertionSort hnd, fun c hc => ?_, fun c hc => ?_⟩
    · have hc' := hperm.mem_iff.mp hc
      exact ⟨ValidateDenom_lower (hden c hc'), hpos c hc'⟩
    · exact hden c (hperm.mem_iff.mp (List.mem_of_mem_head? hc))

theorem ValidateDenom_of_forall₂ {items : List (List Char)} {parsed : Coins}
    (h : List.Forall₂ (fun item c => ParseCoin item = .ok c) items parsed) :
    ∀ c ∈ parsed, ValidateDenom c.denom = true := by
  induction h with
  | nil => simp
  | cons hitem _ ih =>
    intro c hc
    rcases List.mem_cons.mp hc with rfl | hc
    · obtain ⟨a, sp, d, -, -, -, -, hd, -, hc⟩ := ParseCoin_eq_ok_iff.mp hitem
      rwa [hc]
    · exact ih c hc

/-- What `ParseCoins` accepts: blank text, read as no coins, or comma-separated items that
`ParseCoin` reads, of distinct denoms and positive amounts, returned sorted by denom. -/
theorem ParseCoins_eq_ok_iff {s : List Char} {coins : Coins} :
    ParseCoins s = .ok coins ↔ (TrimSpace s = [] ∧ coins = []) ∨
      (TrimSpace s ≠ [] ∧ ∃ parsed, List.Forall₂ (fun item c => ParseCoin item = .ok c)
        (Split (TrimSpace s) ',') parsed ∧ (parsed.map Coin.denom).Nodup ∧
        (∀ c ∈ parsed, 0 < c.amount) ∧ coins = Coins.Sort parsed) := by
  unfold ParseCoins
  dsimp only
  by_cases hs : TrimSpace s = []
  · simp [hs, eq_comm]
  rw [if_neg (by simpa using hs)]
  cases hm : (Split (TrimSpace s) ',').mapM ParseCoin with
  | error e =>
    simp only [reduceCtorEq, hs, false_and, false_or, ne_eq, not_false_eq_true, true_and, false_iff]
    rintro ⟨parsed, hall, -⟩
    rw [StateExcept.mapM_eq_ok_iff.mpr hall] at hm
    cases hm
  | ok parsed =>
    have hall := StateExcept.mapM_eq_ok_iff.mp hm
    have hden := ValidateDenom_of_forall₂ hall
    simp only [hs, false_and, false_or, ne_eq, not_false_eq_true, true_and]
    constructor
    · intro h
      split_ifs at h with hv
      cases h
      obtain ⟨hnd, hpos⟩ := (IsValid_Sort_iff hden).mp (by simpa using hv)
      exact ⟨parsed, hall, hnd, hpos, rfl⟩
    · rintro ⟨parsed', hall', hnd, hpos, rfl⟩
      -- the items are read one way only
      have hp : parsed' = parsed := by
        have h' := StateExcept.mapM_eq_ok_iff.mpr hall'
        rw [hm] at h'
        exact (Except.ok.inj h').symm
      subst hp
      rw [if_neg (by simpa using (IsValid_Sort_iff hden).mpr ⟨hnd, hpos⟩)]

/-! ## Reading back `Coins.String` -/

theorem CoinsString_eq (coins : Coins) : CoinsString coins = [','].intercalate (coins.map CoinString) := by
  unfold CoinsString
  split_ifs with h
  · rw [List.eq_nil_of_length_eq_zero h]
    rfl
  · have hne : coins.map CoinString ≠ [] := by
      simpa using fun h' => h (by rw [h', List.length_nil])
    have hj := @foldl_join ',' _ hne
    rw [List.foldl_map] at hj
    exact hj

theorem mem_of_ValidateDenom {denom : String} (h : ValidateDenom denom = true) :
    ∀ ch ∈ denom.toList, ch.isLower = true ∨ ch.isDigit = true := by
  unfold ValidateDenom at h
  split at h
  · cases h
  · next c cs hcs =>
    simp only [Bool.and_eq_true, List.all_eq_true, Bool.or_eq_true] at h
    rw [hcs]
    intro ch hch
    rcases List.mem_cons.mp hch with rfl | hch
    · exact .inl h.1.1.1
    · exact h.1.1.2 ch hch

/-- A coin's string, for a denom of the pattern and an amount not below zero, is digits and
lower-case letters: no space, and no comma. -/
theorem mem_CoinString {c : Coin} (hd : ValidateDenom c.denom = true) (hpos : 0 ≤ c.amount) :
    ∀ ch ∈ CoinString c, 0x2c < ch.toNat ∧ ch.toNat < 0x85 := by
  intro ch hch
  simp only [CoinString, IntString, not_lt.mpr hpos, if_false, List.nil_append, List.mem_append] at hch
  rcases hch with hch | hch
  · have h := (toDigits_ten c.amount.natAbs).1 ch hch
    have h1 : 48 ≤ ch.toNat := h.1
    have h2 : ch.toNat ≤ 57 := h.2
    omega
  · rcases mem_of_ValidateDenom hd ch hch with h | h
    · simp only [Char.isLower, Bool.and_eq_true, decide_eq_true_eq] at h
      have h1 : 97 ≤ ch.toNat := h.1
      have h2 : ch.toNat ≤ 122 := h.2
      omega
    · simp only [Char.isDigit, Bool.and_eq_true, decide_eq_true_eq] at h
      have h1 : 48 ≤ ch.toNat := h.1
      have h2 : ch.toNat ≤ 57 := h.2
      omega

/-- The string of a coin with a denom of the pattern and a positive amount within 255 bits
reads back as the coin. -/
theorem ParseCoin_CoinString {c : Coin} (hd : ValidateDenom c.denom = true) (hpos : 0 < c.amount)
    (hlt : c.amount < 2 ^ 255) : ParseCoin (CoinString c) = .ok c := by
  obtain ⟨hdig, hval⟩ := toDigits_ten c.amount.natAbs
  have hstr : CoinString c = Nat.toDigits 10 c.amount.natAbs ++ c.denom.toList := by
    simp [CoinString, IntString, not_lt.mpr hpos.le]
  -- the amount's first digit is no 0, so it is read in base 10
  obtain ⟨d, ds, hds, hd0⟩ := head_digitsBE_ne_zero 10 (show c.amount.natAbs ≠ 0 by omega)
  have htd : Nat.toDigits 10 c.amount.natAbs = Nat.digitChar d :: ds.map Nat.digitChar := by
    rw [toDigits_eq (by decide), hds, List.map_cons]
  have hd10 : d < 10 := digitsBE_lt (by decide) _ d (by rw [hds]; exact List.mem_cons_self)
  have hc0 : Nat.digitChar d ≠ '0' := fun h => hd0 (by
    have hv := charValue_digitChar (show d < 16 by omega)
    rw [h] at hv
    exact (Option.some.inj hv).symm)
  have hnum : NewIntFromString (Nat.toDigits 10 c.amount.natAbs) = some c.amount := by
    rw [htd, NewIntFromString_decimal (htd ▸ hdig) (.inl hc0), ← htd, hval, if_pos (by omega)]
    rw [Int.natAbs_of_nonneg hpos.le]
  have htrim : TrimSpace (CoinString c) = CoinString c := TrimSpace_of_forall fun ch hch =>
    isSpace_of_lt (by have := mem_CoinString hd hpos.le ch hch; omega) (mem_CoinString hd hpos.le ch hch).2
  refine ParseCoin_eq_ok_iff.mpr ⟨Nat.toDigits 10 c.amount.natAbs, [], c.denom.toList, ?_, ?_, hdig,
    by simp, by rwa [String.ofList_toList], hnum, by rw [String.ofList_toList]⟩
  · rw [htrim, hstr, List.append_nil]
  · rw [htd]
    exact List.cons_ne_nil _ _

/-- `ParseCoins` reads back what `Coins.String` writes, for valid coins whose denoms all match
the pattern and whose amounts are within 255 bits. -/
theorem ParseCoins_CoinsString {coins : Coins} (hv : Coins.IsValid coins = true)
    (hden : ∀ c ∈ coins, ValidateDenom c.denom = true) (hlt : ∀ c ∈ coins, c.amount < 2 ^ 255) :
    ParseCoins (CoinsString coins) = .ok coins := by
  obtain ⟨hs, hpos, -⟩ := IsValid_iff.mp hv
  cases coins with
  | nil => rfl
  | cons c rest =>
    have hchars := fun c hc => mem_CoinString (hden c hc) (hpos c hc).2.le
    -- no space and no comma in a coin's string
    have htrim : TrimSpace (CoinsString (c :: rest)) = CoinsString (c :: rest) := by
      refine TrimSpace_of_forall fun ch hch => ?_
      rw [CoinsString_eq] at hch
      rcases mem_intercalate_singleton hch with rfl | ⟨p, hp, hch⟩
      · rfl
      · obtain ⟨c', hc', rfl⟩ := List.mem_map.mp hp
        exact isSpace_of_lt (by have := hchars c' hc' ch hch; omega) (hchars c' hc' ch hch).2
    have hsplit : Split (CoinsString (c :: rest)) ',' = (c :: rest).map CoinString := by
      rw [CoinsString_eq]
      refine Split_intercalate_of_forall (by simp) fun p hp hcomma => ?_
      obtain ⟨c', hc', rfl⟩ := List.mem_map.mp hp
      have := (hchars c' hc' ',' hcomma).1
      exact absurd this (by decide)
    have hne : TrimSpace (CoinsString (c :: rest)) ≠ [] := by
      rw [htrim, CoinsString_eq, List.map_cons]
      refine intercalate_ne_nil _ ?_
      simp [CoinString, IntString]
    have hall : List.Forall₂ (fun item c => ParseCoin item = .ok c) ((c :: rest).map CoinString) (c :: rest) :=
      List.forall₂_map_left_iff.mpr (List.forall₂_same.mpr fun c hc =>
        ParseCoin_CoinString (hden c hc) (hpos c hc).2 (hlt c hc))
    refine ParseCoins_eq_ok_iff.mpr (.inr ⟨hne, c :: rest, by rw [htrim, hsplit]; exact hall,
      hs.nodup_keys, fun c hc => (hpos c hc).2, ?_⟩)
    rw [Coins.Sort, hs.insertionSort_eq]

/-- What `ParseCoins` accepts and what it returns. -/
theorem ParseCoins_spec :
    (∀ s coins, ParseCoins s = .ok coins ↔ (TrimSpace s = [] ∧ coins = []) ∨
      (TrimSpace s ≠ [] ∧ ∃ parsed, List.Forall₂ (fun item c => ParseCoin item = .ok c)
        (Split (TrimSpace s) ',') parsed ∧ (parsed.map Coin.denom).Nodup ∧
        (∀ c ∈ parsed, 0 < c.amount) ∧ coins = Coins.Sort parsed)) ∧
    (∀ item coin, ParseCoin item = .ok coin ↔ ∃ a sp d, TrimSpace item = a ++ sp ++ d ∧ a ≠ [] ∧
      (∀ c ∈ a, IsDigit c) ∧ (∀ c ∈ sp, IsRegexSpace c = true) ∧
      ValidateDenom (String.ofList d) = true ∧ NewIntFromString a = some coin.amount ∧
      coin.denom = String.ofList d) ∧
    (∀ c cs, (∀ d ∈ c :: cs, IsDigit d) → (c ≠ '0' ∨ cs = []) →
      NewIntFromString (c :: cs) =
        if value 10 (digitValues (c :: cs)) < 2 ^ 255 then
          some ((value 10 (digitValues (c :: cs)) : ℕ) : ℤ)
        else none) ∧
    (∀ d ds, (∀ c ∈ d :: ds, IsDigit c) →
      NewIntFromString ('0' :: d :: ds) =
        if (∀ c ∈ d :: ds, IsDigitOf 8 c) ∧ value 8 (digitValues (d :: ds)) < 2 ^ 255 then
          some ((value 8 (digitValues (d :: ds)) : ℕ) : ℤ)
        else none) ∧
    (∀ coins, Coins.IsValid coins = true → (∀ c ∈ coins, ValidateDenom c.denom = true) →
      (∀ c ∈ coins, c.amount < 2 ^ 255) → ParseCoins (CoinsString coins) = .ok coins) :=
  ⟨fun _ _ => ParseCoins_eq_ok_iff, fun _ _ => ParseCoin_eq_ok_iff,
    fun _ _ hdig h0 => NewIntFromString_decimal hdig h0, fun _ _ hdig => NewIntFromString_octal hdig,
    fun _ hv hden hlt => ParseCoins_CoinsString hv hden hlt⟩

theorem ParseCoins_spec_atom :
    ParseCoins (CoinsString [⟨"atom", 15⟩, ⟨"btom", 2⟩]) = .ok [⟨"atom", 15⟩, ⟨"btom", 2⟩] ∧
      ParseCoins ['2', 'b', 't', 'o', 'm', ',', ' ', '1', '5', 'a', 't', 'o', 'm'] =
        .ok [⟨"atom", 15⟩, ⟨"btom", 2⟩] :=
  ⟨ParseCoins_spec.2.2.2.2 [⟨"atom", 15⟩, ⟨"btom", 2⟩] (by decide) (by decide) (by decide),
    (ParseCoins_spec.1 _ _).mpr (.inr ⟨by decide, [⟨"btom", 2⟩, ⟨"atom", 15⟩], by decide +kernel,
      by decide, by decide, by decide +kernel⟩)⟩

/-- `010abc` is read as 8 of `abc`, `09abc` is refused, and the valid coins `1abc,5x` do not
read back, `x` not matching the denom pattern. -/
theorem ParseCoins_octal_and_short_denom :
    ParseCoins ['0', '1', '0', 'a', 'b', 'c'] = .ok [⟨"abc", 8⟩] ∧
      ParseCoins ['0', '9', 'a', 'b', 'c'] = .error "failed to parse coin amount: 09" ∧
      Coins.IsValid [⟨"abc", 1⟩, ⟨"x", 5⟩] = true ∧
      ParseCoins (CoinsString [⟨"abc", 1⟩, ⟨"x", 5⟩]) = .error "invalid coin expression: 5x" := by
  refine ⟨by decide +kernel, by decide +kernel, by decide +kernel, by decide +kernel⟩

end Dipper
