import Dipper.Types.Coins
import Dipper.Types.Dec

/-!
# Decimal coins

`sdk.DecCoin` and `sdk.DecCoins` of `types/dec_coin.go`: the same sorted lists as
`Coins` with `Dec` amounts, and the same two-pointer `safeAdd`. Adding two valid
lists of either kind gives a valid list whose amount under every denom is the sum
of the two; the addition is then commutative and associative with the empty list
as its identity.
-/

namespace Dipper

open Dec KeyedList

structure DecCoin where
  denom : String
  amount : Dec
  deriving DecidableEq, Repr

abbrev DecCoins := List DecCoin

namespace DecCoin

def IsZero (coin : DecCoin) : Bool := coin.amount.IsZero

def IsPositive (coin : DecCoin) : Bool := coin.amount.IsPositive

/-- `DecCoin.IsNegative`: `Sign() == -1`. -/
def IsNegative (coin : DecCoin) : Bool := coin.amount.IsNegative

/-- `DecCoin.Add`: coins of two denominations panic, and `Dec.Add` panics past
`255 + DecimalPrecisionBits` bits. -/
def Add (coin coinB : DecCoin) : Except String DecCoin :=
  if coin.denom ≠ coinB.denom then .error ("coin denom different: " ++ coin.denom ++ " " ++ coinB.denom ++ "\n")
  else
    let res := coin.amount.Add coinB.amount
    if BitLen res.i > 255 + DecimalPrecisionBits then .error "Int overflow" else .ok ⟨coin.denom, res⟩

/-- `DecCoin.TruncateDecimal`: the truncated amount as a `Coin` and the rest as the change.
`TruncateInt` panics past 255 bits, and `NewCoin` on a denom outside the pattern or a negative
truncation; the change is under one unit, within `Sub`'s bound. -/
def TruncateDecimal (coin : DecCoin) : Except String (Coin × DecCoin) := do
  let truncated ← NewIntFromBigInt coin.amount.TruncateInt
  let change := coin.amount.Sub (NewDec truncated)
  let c ← NewCoin coin.denom truncated
  pure (c, ⟨coin.denom, change⟩)

theorem Add_of_denom_eq {a b : DecCoin} (h : a.denom = b.denom) :
    ((a.amount.i + b.amount.i).natAbs < 2 ^ 315 → a.Add b = .ok ⟨a.denom, a.amount.Add b.amount⟩) ∧
      (¬ (a.amount.i + b.amount.i).natAbs < 2 ^ 315 → a.Add b = .error "Int overflow") := by
  unfold DecCoin.Add
  rw [if_neg (not_not.mpr h)]
  have hgt := BitLen_gt_iff (a.amount.i + b.amount.i) 315
  dsimp only
  rw [Add_i]
  exact ⟨fun hf => if_neg fun h => absurd (hgt.mp h) (not_le.mpr hf), fun hf => if_pos (hgt.mpr (not_lt.mp hf))⟩

/-- A non-negative amount whose whole part fits 255 bits, under a denom of the pattern, splits
into its whole units and the remainder. -/
theorem TruncateDecimal_eq {coin : DecCoin} (hd : ValidateDenom coin.denom = true)
    (hpos : 0 ≤ coin.amount.i) (hfit : coin.amount.TruncateInt.natAbs < 2 ^ 255) :
    coin.TruncateDecimal = .ok (⟨coin.denom, coin.amount.i / precisionReuse⟩,
      ⟨coin.denom, ⟨coin.amount.i % precisionReuse⟩⟩) := by
  have htrunc : coin.amount.TruncateInt = coin.amount.i / precisionReuse := by
    rw [TruncateInt, chopPrecisionAndTruncate, Int.tdiv_eq_ediv_of_nonneg hpos]
  have hq : 0 ≤ coin.amount.i / precisionReuse := Int.ediv_nonneg hpos precisionReuse_pos.le
  have hr : coin.amount.i - coin.amount.i / precisionReuse * precisionReuse =
      coin.amount.i % precisionReuse := by
    rw [Int.emod_def, mul_comm]
  rw [htrunc] at hfit
  simp [TruncateDecimal, htrunc, (NewIntFromBigInt_spec _).1 hfit, Dec.Sub, NewDec, NewCoin, hd, not_lt.mpr hq, hr,
    bind, Except.bind, pure, Except.pure]

theorem TruncateDecimal_error {coin : DecCoin} (hd : ValidateDenom coin.denom = false)
    (hfit : coin.amount.TruncateInt.natAbs < 2 ^ 255) :
    coin.TruncateDecimal = .error ("invalid denom: " ++ coin.denom) := by
  simp [TruncateDecimal, (NewIntFromBigInt_spec _).1 hfit, NewCoin, hd, bind, Except.bind]

theorem TruncateDecimal_overflow {coin : DecCoin} (h : 2 ^ 255 ≤ coin.amount.TruncateInt.natAbs) :
    coin.TruncateDecimal = .error "NewIntFromBigInt() out of bound" := by
  simp [TruncateDecimal, (NewIntFromBigInt_spec _).2 h, bind, Except.bind]

end DecCoin

def removeZeroDecCoins (coins : DecCoins) : DecCoins := coins.filter (fun c => !c.IsZero)

namespace DecCoins

/-- The loop of `DecCoins.safeAdd`, with the step count as fuel. The two coins of one
denom are added as `DecCoin.Add` adds them, without its panic. -/
def safeAddAux : Nat → DecCoins → DecCoins → DecCoins
  | 0, _, _ => []
  | _+1, [], bs => removeZeroDecCoins bs
  | _+1, as, [] => removeZeroDecCoins as
  | k+1, a :: as, b :: bs =>
    match compare a.denom b.denom with
    | .lt => (if a.IsZero then [] else [a]) ++ safeAddAux k as (b :: bs)
    | .eq =>
      let res : DecCoin := ⟨a.denom, a.amount.Add b.amount⟩
      (if res.IsZero then [] else [res]) ++ safeAddAux k as bs
    | .gt => (if b.IsZero then [] else [b]) ++ safeAddAux k (a :: as) bs

/-- `DecCoins.safeAdd` with `Dec.Add` unbounded; `DecCoins.Add` keeps its panic, and is this
sum wherever every denom's sum fits 315 bits (`DecCoins.Add_spec`). -/
def safeAdd (a b : DecCoins) : DecCoins := safeAddAux (a.length + b.length + 1) a b

/-- `DecCoins.Add`, that is `DecCoins.safeAdd`: the merge of `safeAddAux` with the coins of one
denom added by `DecCoin.Add`. -/
def Add (coins coinsB : DecCoins) : Except String DecCoins :=
  KeyedList.mergeAddChecked DecCoin.denom DecCoin.IsZero DecCoin.Add (coins.length + coinsB.length + 1) coins coinsB

def negative (coins : DecCoins) : DecCoins := coins.map fun c => ⟨c.denom, c.amount.Neg⟩

def IsAnyNegative (coins : DecCoins) : Bool := coins.any DecCoin.IsNegative

def SafeSub (a b : DecCoins) : DecCoins × Bool :=
  let diff := safeAdd a (negative b)
  (diff, IsAnyNegative diff)

/-- `DecCoins.TruncateDecimal`: each coin split in turn, its non-zero parts added to the
truncated coins and to the change. -/
def TruncateDecimal (coins : DecCoins) : Except String (Coins × DecCoins) :=
  coins.foldlM step ([], [])
where
  /-- One pass of the loop. -/
  step (acc : Coins × DecCoins) (coin : DecCoin) : Except String (Coins × DecCoins) := do
    let (truncated, change) ← coin.TruncateDecimal
    let truncatedCoins ← (if !truncated.IsZero then Coins.Add acc.1 [truncated] else pure acc.1)
    let changeCoins ← (if !change.IsZero then Add acc.2 [change] else pure acc.2)
    pure (truncatedCoins, changeCoins)

/-- The loop of `DecCoins.IsValid` after the first coin. -/
def validAfter (lowDenom : String) : DecCoins → Bool
  | [] => true
  | c :: rest =>
    decide (GoText.ToLower c.denom.toList = c.denom.toList) && decide (lowDenom < c.denom) &&
      c.IsPositive && validAfter c.denom rest

def IsValid : DecCoins → Bool
  | [] => true
  | c :: rest => ValidateDenom c.denom && c.IsPositive && validAfter c.denom rest

/-- The amount under a denom, as the raw integer of its `Dec`: that of the coin of the
denom, zero if there is none. -/
abbrev denomAmount (coins : DecCoins) (denom : String) : Int :=
  KeyedList.amountOf DecCoin.denom (fun c => c.amount.i) coins denom

@[simp] theorem denomAmount_nil (denom : String) : denomAmount [] denom = 0 := rfl

theorem denomAmount_cons (c : DecCoin) (coins : DecCoins) (denom : String) :
    denomAmount (c :: coins) denom = if c.denom = denom then c.amount.i else denomAmount coins denom :=
  amountOf_cons _ _ _

theorem validAfter_iff {lowDenom : String} {coins : DecCoins} :
    validAfter lowDenom coins = true ↔ (∀ c ∈ coins, lowDenom < c.denom) ∧ Strict DecCoin.denom coins ∧
      ∀ c ∈ coins, GoText.ToLower c.denom.toList = c.denom.toList ∧ 0 < c.amount.i := by
  induction coins generalizing lowDenom with
  | nil => simp [validAfter]
  | cons c coins ih =>
    simp only [validAfter, DecCoin.IsPositive, IsPositive_iff, Bool.and_eq_true, decide_eq_true_eq, ih,
      strict_cons, List.mem_cons, forall_eq_or_imp]
    constructor
    · rintro ⟨⟨⟨hlow, hc⟩, hpos⟩, hlt, hs, hl⟩
      exact ⟨⟨hc, fun y hy => hc.trans (hlt y hy)⟩, ⟨hlt, hs⟩, ⟨hlow, hpos⟩, hl⟩
    · rintro ⟨⟨hc, -⟩, ⟨hlt, hs⟩, ⟨hlow, hpos⟩, hl⟩
      exact ⟨⟨⟨hlow, hc⟩, hpos⟩, hlt, hs, hl⟩

theorem IsValid_iff {coins : DecCoins} :
    IsValid coins = true ↔ Strict DecCoin.denom coins ∧
      (∀ c ∈ coins, GoText.ToLower c.denom.toList = c.denom.toList ∧ 0 < c.amount.i) ∧
      ∀ c ∈ coins.head?, ValidateDenom c.denom = true := by
  cases coins with
  | nil => simp [IsValid]
  | cons c coins =>
    simp only [IsValid, DecCoin.IsPositive, IsPositive_iff, Bool.and_eq_true, validAfter_iff, strict_cons,
      List.mem_cons, forall_eq_or_imp, List.head?_cons, Option.mem_def, Option.some.injEq, forall_eq']
    constructor
    · rintro ⟨⟨hd, hpos⟩, hlt, hs, hl⟩
      exact ⟨⟨hlt, hs⟩, ⟨⟨ValidateDenom_lower hd, hpos⟩, hl⟩, hd⟩
    · rintro ⟨⟨hlt, hs⟩, ⟨⟨-, hpos⟩, hl⟩, hd⟩
      exact ⟨⟨hd, hpos⟩, hlt, hs, hl⟩

theorem safeAddAux_lt (k : Nat) (a : DecCoin) (as : DecCoins) (b : DecCoin) (bs : DecCoins)
    (h : a.denom < b.denom) :
    safeAddAux (k + 1) (a :: as) (b :: bs) = (if a.IsZero then [] else [a]) ++ safeAddAux k as (b :: bs) := by
  rw [safeAddAux, compare_lt_iff_lt.mpr h]

theorem safeAddAux_eq (k : Nat) (a : DecCoin) (as : DecCoins) (b : DecCoin) (bs : DecCoins)
    (h : a.denom = b.denom) :
    safeAddAux (k + 1) (a :: as) (b :: bs) =
      (if DecCoin.IsZero ⟨a.denom, a.amount.Add b.amount⟩ then [] else [⟨a.denom, a.amount.Add b.amount⟩]) ++
        safeAddAux k as bs := by
  rw [safeAddAux, compare_eq_iff_eq.mpr h]

theorem safeAddAux_gt (k : Nat) (a : DecCoin) (as : DecCoins) (b : DecCoin) (bs : DecCoins)
    (h : b.denom < a.denom) :
    safeAddAux (k + 1) (a :: as) (b :: bs) = (if b.IsZero then [] else [b]) ++ safeAddAux k (a :: as) bs := by
  rw [safeAddAux, compare_gt_iff_gt.mpr h]

theorem safeAdd_mergeAdd (a b : DecCoins) :
    MergeAdd DecCoin.denom (fun a b => ⟨a.denom, a.amount.Add b.amount⟩) DecCoin.IsZero a b (safeAdd a b) :=
  MergeAdd.of_fuel safeAddAux (fun _ _ => rfl) (fun _ _ _ => rfl) safeAddAux_lt safeAddAux_eq safeAddAux_gt
    _ a b (Nat.lt_succ_self _)

theorem safeAdd_IsValid {a b : DecCoins} (ha : IsValid a = true) (hb : IsValid b = true) :
    IsValid (safeAdd a b) = true := by
  rw [IsValid_iff] at ha hb ⊢
  refine (safeAdd_mergeAdd a b).valid
    (P := fun c : DecCoin => GoText.ToLower c.denom.toList = c.denom.toList ∧ 0 < c.amount.i)
    (H := fun c : DecCoin => ValidateDenom c.denom = true) (fun _ _ => rfl) (fun x y _ hx hy => ⟨hx.1, ?_⟩)
    (fun _ _ h => h) (fun x hx => ?_) ha hb
  · -- a sum of positive amounts is positive
    exact add_pos hx.2 hy.2
  · simp [DecCoin.IsZero, Dec.IsZero, hx.2.ne']

theorem amountOf_safeAdd {a b : DecCoins} (ha : IsValid a = true) (hb : IsValid b = true) (denom : String) :
    denomAmount (safeAdd a b) denom = denomAmount a denom + denomAmount b denom :=
  (safeAdd_mergeAdd a b).amountOf_out (fun _ _ => by rfl) (fun _ _ => by rfl)
    (fun c h => by simpa [DecCoin.IsZero] using h) (IsValid_iff.mp ha).1 (IsValid_iff.mp hb).1 denom

theorem eq_of_amountOf {a b : DecCoins} (ha : IsValid a = true) (hb : IsValid b = true)
    (h : ∀ denom, denomAmount a denom = denomAmount b denom) : a = b := by
  rw [IsValid_iff] at ha hb
  refine eq_of_amountOf_eq (fun x y hd ha => ?_) ha.1 hb.1 (fun x hx => (ha.2.1 x hx).2.ne')
    (fun x hx => (hb.2.1 x hx).2.ne') h
  obtain ⟨xd, ⟨xi⟩⟩ := x
  obtain ⟨yd, ⟨yi⟩⟩ := y
  simp_all

theorem safeAdd_comm {a b : DecCoins} (ha : IsValid a = true) (hb : IsValid b = true) :
    safeAdd a b = safeAdd b a :=
  eq_of_amountOf (safeAdd_IsValid ha hb) (safeAdd_IsValid hb ha) fun denom => by
    rw [amountOf_safeAdd ha hb, amountOf_safeAdd hb ha, add_comm]

theorem safeAdd_assoc {a b c : DecCoins} (ha : IsValid a = true) (hb : IsValid b = true)
    (hc : IsValid c = true) : safeAdd (safeAdd a b) c = safeAdd a (safeAdd b c) := by
  have hab := safeAdd_IsValid ha hb
  have hbc := safeAdd_IsValid hb hc
  refine eq_of_amountOf (safeAdd_IsValid hab hc) (safeAdd_IsValid ha hbc) fun denom => ?_
  rw [amountOf_safeAdd hab hc, amountOf_safeAdd ha hb, amountOf_safeAdd ha hbc, amountOf_safeAdd hb hc,
    add_assoc]

theorem safeAdd_nil_left {a : DecCoins} (ha : IsValid a = true) : safeAdd [] a = a :=
  eq_of_amountOf (safeAdd_IsValid rfl ha) ha fun denom => by
    rw [amountOf_safeAdd rfl ha]
    exact zero_add _

theorem safeAdd_nil_right {a : DecCoins} (ha : IsValid a = true) : safeAdd a [] = a :=
  eq_of_amountOf (safeAdd_IsValid ha rfl) ha fun denom => by
    rw [amountOf_safeAdd ha rfl]
    exact add_zero _

theorem Add_of_disjoint {a b : DecCoins} (h : ∀ x ∈ a, ∀ y ∈ b, x.denom ≠ y.denom) :
    Add a b = .ok (safeAdd a b) := by
  obtain ⟨out, hout, hm⟩ := mergeAddChecked_of_disjoint (Nat.lt_succ_self (a.length + b.length)) h
  rw [Add, hout, (hm _).unique (safeAdd_mergeAdd a b)]

/-- `DecCoins.Add` of valid lists returns their `safeAdd` when the two amounts of every denom
sum within 315 bits; over amounts within 315 bits it panics as `Dec.Add` does when the sum of
some denom does not. -/
theorem Add_spec {a b : DecCoins} (ha : IsValid a = true) (hb : IsValid b = true) :
    ((∀ denom, (denomAmount a denom + denomAmount b denom).natAbs < 2 ^ 315) → Add a b = .ok (safeAdd a b)) ∧
    ((∀ c ∈ a ++ b, c.amount.i.natAbs < 2 ^ 315) →
      (∃ denom, 2 ^ 315 ≤ (denomAmount a denom + denomAmount b denom).natAbs) → Add a b = .error "Int overflow") := by
  have has := (IsValid_iff.mp ha).1
  have hbs := (IsValid_iff.mp hb).1
  refine ⟨fun hfit => ?_, fun hentry hover => ?_⟩
  · obtain ⟨out, hout, hm⟩ := mergeAddChecked_of_fits (fun c : DecCoin => c.amount.i)
      (fun v : Int => v.natAbs < 2 ^ 315) (fun _ _ h => DecCoin.Add_of_denom_eq h) (Nat.lt_succ_self _) has hbs hfit
    rw [Add, hout, hm.unique (safeAdd_mergeAdd a b)]
  · obtain ⟨denom, hd⟩ := hover
    exact mergeAddChecked_of_not_fits (fun c : DecCoin => c.amount.i) (fun v : Int => v.natAbs < 2 ^ 315)
      (fun _ _ h => DecCoin.Add_of_denom_eq h) (pow_pos two_pos 315) (Nat.lt_succ_self _) has hbs hentry
      ⟨denom, not_lt.mpr hd⟩

/-! ### Subtracting valid decimal coins

The argument of `Coins.SafeSub`, through the same lemmas of `KeyedList`. -/

theorem IsZero_iff (c : DecCoin) : c.IsZero = true ↔ c.amount.i = 0 := by
  simp [DecCoin.IsZero]

theorem strict_negative {coins : DecCoins} (h : Strict DecCoin.denom coins) :
    Strict DecCoin.denom (negative coins) :=
  h.map fun _ => rfl

section Sub

variable {a b : DecCoins} (ha : IsValid a = true) (hb : IsValid b = true)
include ha hb

theorem amountOf_SafeSub (denom : String) :
    denomAmount (SafeSub a b).1 denom = denomAmount a denom - denomAmount b denom :=
  (safeAdd_mergeAdd a (negative b)).amountOf_sub (fun _ _ => by rfl) (fun _ _ => by rfl)
    (fun c h => (IsZero_iff c).mp h) (fun _ => by rfl) (fun _ => by rfl) (IsValid_iff.mp ha).1
    (IsValid_iff.mp hb).1 denom

theorem strict_SafeSub : Strict DecCoin.denom (SafeSub a b).1 :=
  (safeAdd_mergeAdd a (negative b)).strict (fun _ _ => by rfl) (IsValid_iff.mp ha).1
    (strict_negative (IsValid_iff.mp hb).1)

theorem SafeSub_hasNeg_iff :
    (SafeSub a b).2 = true ↔ ∃ denom, denomAmount a denom < denomAmount b denom := by
  simp only [SafeSub, IsAnyNegative, List.any_eq_true, DecCoin.IsNegative, IsNegative_iff]
  exact (safeAdd_mergeAdd a (negative b)).exists_neg_iff (fun _ _ => by rfl) (fun _ _ => by rfl)
    IsZero_iff (fun _ => by rfl) (fun _ => by rfl) (IsValid_iff.mp ha).1 (IsValid_iff.mp hb).1

theorem SafeSub_coins (h : (SafeSub a b).2 = false) :
    ∀ c ∈ (SafeSub a b).1, 0 < c.amount.i ∧ ∃ c' ∈ a, c'.denom = c.denom := by
  simp only [SafeSub, IsAnyNegative, List.any_eq_false, DecCoin.IsNegative, IsNegative_iff] at h ⊢
  exact (safeAdd_mergeAdd a (negative b)).pos_of_not_neg (fun _ _ => by rfl) (fun _ _ => by rfl)
    IsZero_iff (fun _ => by rfl) (fun _ => by rfl) (IsValid_iff.mp ha).1 (IsValid_iff.mp hb).1
    (fun x hx => ((IsValid_iff.mp hb).2.1 x hx).2) h

theorem SafeSub_IsValid (h : (SafeSub a b).2 = false)
    (hden : ∀ c ∈ a, ValidateDenom c.denom = true) : IsValid (SafeSub a b).1 = true := by
  have hcoin : ∀ c ∈ (SafeSub a b).1, ∃ c' ∈ a, c'.denom = c.denom ∧
      GoText.ToLower c.denom.toList = c.denom.toList ∧ 0 < c.amount.i := fun c hc => by
    obtain ⟨hpos, c', hc', hd⟩ := SafeSub_coins ha hb h c hc
    exact ⟨c', hc', hd, hd ▸ ((IsValid_iff.mp ha).2.1 c' hc').1, hpos⟩
  refine IsValid_iff.mpr ⟨strict_SafeSub ha hb, fun c hc => ?_, fun c hc => ?_⟩
  · obtain ⟨-, -, -, hl, hpos⟩ := hcoin c hc
    exact ⟨hl, hpos⟩
  · obtain ⟨c', hc', hd, -⟩ := hcoin c (List.mem_of_mem_head? hc)
    exact hd ▸ hden c' hc'

end Sub

/-! ### Truncating decimal coins

`TruncateDecimal` adds one coin at a time to each accumulator. Over a valid list whose denoms
all match the pattern and whose whole parts fit 255 bits, every pass adds the whole units of a
denom not yet read to the coins and the remainder to the change (`TruncateDecimal.step_spec`),
so the sums never add two coins; the loop then keeps, denom by denom, coins times 10¹⁸ plus
change equal to what it has read, with the change under one unit. -/

theorem addTruncated_spec {t : Coins} (ht : Coins.IsValid t = true) {c : Coin}
    (hd : ValidateDenom c.denom = true) (hc : 0 ≤ c.amount) (ht0 : amountOf Coin.denom Coin.amount t c.denom = 0) :
    (if !c.IsZero then Coins.Add t [c] else pure t) = .ok (if !c.IsZero then Dipper.safeAdd t [c] else t) ∧
      Coins.IsValid (if !c.IsZero then Dipper.safeAdd t [c] else t) = true ∧
      ∀ denom, amountOf Coin.denom Coin.amount (if !c.IsZero then Dipper.safeAdd t [c] else t) denom =
        amountOf Coin.denom Coin.amount t denom + if c.denom = denom then c.amount else 0 := by
  by_cases h0 : c.amount = 0
  · have hz : c.IsZero = true := by simp [Coin.IsZero, h0]
    rw [hz, Bool.not_true, if_neg Bool.false_ne_true, if_neg Bool.false_ne_true]
    exact ⟨rfl, ht, fun denom => by split_ifs <;> simp [h0]⟩
  · have hz : c.IsZero = false := by simp [Coin.IsZero, h0]
    have hs : Coins.IsValid [c] = true := by
      simp [Coins.IsValid, Dipper.validAfter, hd, lt_of_le_of_ne hc (Ne.symm h0)]
    -- a coin of `t` under `c`'s denom would hold a positive amount there
    have hdisj : ∀ x ∈ t, ∀ y ∈ [c], x.denom ≠ y.denom := fun x hx y hy hxy => by
      rw [List.mem_singleton.mp hy] at hxy
      have hx0 : amountOf Coin.denom Coin.amount t x.denom = x.amount := (Dipper.IsValid_iff.mp ht).1.amountOf_of_mem hx
      rw [hxy, ht0] at hx0
      exact ((Dipper.IsValid_iff.mp ht).2.1 x hx).2.ne hx0
    rw [hz, Bool.not_false, if_pos rfl, if_pos rfl]
    refine ⟨Coins.Add_of_disjoint hdisj, Dipper.safeAdd_IsValid ht hs, fun denom => ?_⟩
    rw [Dipper.amountOf_safeAdd ht hs, amountOf_cons, amountOf_nil]

/-- Adding a decimal coin of a denom the change lacks, unless it is zero, to valid decimal
coins. -/
theorem addChange_spec {ch : DecCoins} (hch : IsValid ch = true) {c : DecCoin}
    (hd : ValidateDenom c.denom = true) (hc : 0 ≤ c.amount.i) (hch0 : denomAmount ch c.denom = 0) :
    (if !c.IsZero then Add ch [c] else pure ch) = .ok (if !c.IsZero then safeAdd ch [c] else ch) ∧
      IsValid (if !c.IsZero then safeAdd ch [c] else ch) = true ∧
      ∀ denom, denomAmount (if !c.IsZero then safeAdd ch [c] else ch) denom =
        denomAmount ch denom + if c.denom = denom then c.amount.i else 0 := by
  by_cases h0 : c.amount.i = 0
  · have hz : c.IsZero = true := (IsZero_iff c).mpr h0
    rw [hz, Bool.not_true, if_neg Bool.false_ne_true, if_neg Bool.false_ne_true]
    exact ⟨rfl, hch, fun denom => by split_ifs <;> simp [h0]⟩
  · have hz : c.IsZero = false := Bool.eq_false_iff.mpr fun h => h0 ((IsZero_iff c).mp h)
    have hs : IsValid [c] = true := by
      simp [IsValid, validAfter, DecCoin.IsPositive, hd, lt_of_le_of_ne hc (Ne.symm h0)]
    have hdisj : ∀ x ∈ ch, ∀ y ∈ [c], x.denom ≠ y.denom := fun x hx y hy hxy => by
      rw [List.mem_singleton.mp hy] at hxy
      have hx0 : denomAmount ch x.denom = x.amount.i := (IsValid_iff.mp hch).1.amountOf_of_mem hx
      rw [hxy, hch0] at hx0
      exact ((IsValid_iff.mp hch).2.1 x hx).2.ne hx0
    rw [hz, Bool.not_false, if_pos rfl, if_pos rfl]
    refine ⟨Add_of_disjoint hdisj, safeAdd_IsValid hch hs, fun denom => ?_⟩
    rw [amountOf_safeAdd hch hs, denomAmount_cons, denomAmount_nil]

theorem TruncateDecimal.step_eq {acc : Coins × DecCoins} {x : DecCoin} {tc : Coin} {cc : DecCoin}
    {t' : Coins} {ch' : DecCoins} (hx : x.TruncateDecimal = .ok (tc, cc))
    (ht : (if !tc.IsZero then Coins.Add acc.1 [tc] else pure acc.1) = .ok t')
    (hch : (if !cc.IsZero then Add acc.2 [cc] else pure acc.2) = .ok ch') :
    TruncateDecimal.step acc x = .ok (t', ch') := by
  rw [TruncateDecimal.step, hx]
  show ((if !tc.IsZero then Coins.Add acc.1 [tc] else pure acc.1) >>= fun truncatedCoins =>
    (if !cc.IsZero then Add acc.2 [cc] else pure acc.2) >>= fun changeCoins =>
      pure (truncatedCoins, changeCoins)) = _
  rw [ht, hch]
  rfl

/-- One pass over a coin of a denom not yet read, of the pattern, with a positive amount whose
whole part fits: its whole units go to the coins and its remainder to the change. -/
theorem TruncateDecimal.step_spec {t : Coins} {ch : DecCoins} {x : DecCoin}
    (ht : Coins.IsValid t = true) (hch : IsValid ch = true) (hd : ValidateDenom x.denom = true)
    (hpos : 0 < x.amount.i) (hfit : x.amount.TruncateInt.natAbs < 2 ^ 255)
    (ht0 : amountOf Coin.denom Coin.amount t x.denom = 0) (hch0 : denomAmount ch x.denom = 0) :
    ∃ t' ch', TruncateDecimal.step (t, ch) x = .ok (t', ch') ∧ Coins.IsValid t' = true ∧
      IsValid ch' = true ∧ ∀ denom,
        amountOf Coin.denom Coin.amount t' denom = amountOf Coin.denom Coin.amount t denom +
            (if x.denom = denom then x.amount.i / precisionReuse else 0) ∧
          denomAmount ch' denom =
            denomAmount ch denom + if x.denom = denom then x.amount.i % precisionReuse else 0 := by
  have hq : 0 ≤ x.amount.i / precisionReuse := Int.ediv_nonneg hpos.le precisionReuse_pos.le
  have hr : 0 ≤ x.amount.i % precisionReuse := Int.emod_nonneg _ precisionReuse_pos.ne'
  obtain ⟨hadd, ht', htamt⟩ := addTruncated_spec ht (c := ⟨x.denom, x.amount.i / precisionReuse⟩) hd hq ht0
  obtain ⟨hadd', hch', hchamt⟩ := addChange_spec hch (c := ⟨x.denom, ⟨x.amount.i % precisionReuse⟩⟩) hd hr hch0
  exact ⟨_, _, TruncateDecimal.step_eq (DecCoin.TruncateDecimal_eq hd hpos.le hfit) hadd hadd', ht', hch',
    fun denom => ⟨htamt denom, hchamt denom⟩⟩

/-- The loop from valid accumulators whose change is under one unit, and that lack the denoms
still to read. -/
theorem TruncateDecimal.foldlM_ok : ∀ {l : DecCoins} {t : Coins} {ch : DecCoins},
    Coins.IsValid t = true → IsValid ch = true → Strict DecCoin.denom l →
    (∀ x ∈ l, ValidateDenom x.denom = true ∧ 0 < x.amount.i ∧ x.amount.TruncateInt.natAbs < 2 ^ 255) →
    (∀ x ∈ l, amountOf Coin.denom Coin.amount t x.denom = 0 ∧ denomAmount ch x.denom = 0) →
    (∀ denom, denomAmount ch denom < precisionReuse) →
    ∃ t' ch', l.foldlM TruncateDecimal.step (t, ch) = .ok (t', ch') ∧
      Coins.IsValid t' = true ∧ IsValid ch' = true ∧ ∀ denom,
        amountOf Coin.denom Coin.amount t' denom * precisionReuse + denomAmount ch' denom =
            amountOf Coin.denom Coin.amount t denom * precisionReuse + denomAmount ch denom +
              denomAmount l denom ∧
          denomAmount ch' denom < precisionReuse
  | [], t, ch, ht, hch, _, _, _, hlt =>
    ⟨t, ch, rfl, ht, hch, fun denom => ⟨by rw [denomAmount_nil, add_zero], hlt denom⟩⟩
  | x :: l, t, ch, ht, hch, hs, hl, hz, hlt => by
    obtain ⟨hd, hpos, hfit⟩ := hl x List.mem_cons_self
    obtain ⟨ht0, hch0⟩ := hz x List.mem_cons_self
    obtain ⟨t1, ch1, hstep, ht1, hch1, hamt⟩ := TruncateDecimal.step_spec ht hch hd hpos hfit ht0 hch0
    have hfresh : ∀ y ∈ l, x.denom ≠ y.denom := fun y hy => ((strict_cons.mp hs).1 y hy).ne
    -- the change at `x`'s denom was zero, so the remainder keeps it under one unit
    have hlt1 : ∀ denom, denomAmount ch1 denom < precisionReuse := fun denom => by
      rw [(hamt denom).2]
      by_cases hxd : x.denom = denom
      · subst hxd
        rw [if_pos rfl, hch0, zero_add]
        exact Int.emod_lt_of_pos _ precisionReuse_pos
      · rw [if_neg hxd, add_zero]
        exact hlt denom
    have hz1 : ∀ y ∈ l, amountOf Coin.denom Coin.amount t1 y.denom = 0 ∧ denomAmount ch1 y.denom = 0 :=
      fun y hy => by
        obtain ⟨hty, hchy⟩ := hz y (List.mem_cons_of_mem _ hy)
        rw [(hamt y.denom).1, (hamt y.denom).2, if_neg (hfresh y hy), if_neg (hfresh y hy), hty, hchy]
        exact ⟨rfl, rfl⟩
    obtain ⟨t', ch', hrun, ht', hch', hsum⟩ := TruncateDecimal.foldlM_ok ht1 hch1
      (strict_cons.mp hs).2 (fun y hy => hl y (List.mem_cons_of_mem _ hy)) hz1 hlt1
    refine ⟨t', ch', by rw [List.foldlM_cons, hstep]; exact hrun, ht', hch',
      fun denom => ⟨?_, (hsum denom).2⟩⟩
    rw [(hsum denom).1, (hamt denom).1, (hamt denom).2, denomAmount_cons]
    by_cases hxd : x.denom = denom
    · -- the whole units and the remainder make up `x`'s amount
      subst hxd
      have hsplit := Int.ediv_mul_add_emod x.amount.i precisionReuse
      have hl0 : denomAmount l x.denom = 0 := amountOf_eq_zero fun y hy => (hfresh y hy).symm
      rw [if_pos rfl, if_pos rfl, if_pos rfl, hl0]
      linear_combination hsplit
    · rw [if_neg hxd, if_neg hxd, if_neg hxd]
      ring

/-- A coin outside the pattern or whose whole part does not fit 255 bits makes its
truncation panic. -/
theorem DecCoin.TruncateDecimal_panics {x : DecCoin}
    (h : ValidateDenom x.denom = false ∨ 2 ^ 255 ≤ x.amount.TruncateInt.natAbs) :
    ∃ e, x.TruncateDecimal = .error e := by
  by_cases hfit : x.amount.TruncateInt.natAbs < 2 ^ 255
  · exact ⟨_, DecCoin.TruncateDecimal_error (h.resolve_right (not_le.mpr hfit)) hfit⟩
  · exact ⟨_, DecCoin.TruncateDecimal_overflow (not_lt.mp hfit)⟩

theorem TruncateDecimal.foldlM_error : ∀ {l : DecCoins} (acc : Coins × DecCoins),
    (∃ x ∈ l, ValidateDenom x.denom = false ∨ 2 ^ 255 ≤ x.amount.TruncateInt.natAbs) →
      ∃ e, l.foldlM TruncateDecimal.step acc = .error e
  | [], _, ⟨_, hx, _⟩ => absurd hx List.not_mem_nil
  | y :: l, acc, ⟨x, hx, hxd⟩ => by
    rw [List.foldlM_cons]
    cases hs : TruncateDecimal.step acc y with
    | error e => exact ⟨e, rfl⟩
    | ok acc' =>
      rcases List.mem_cons.mp hx with rfl | hx
      · obtain ⟨e, he⟩ := DecCoin.TruncateDecimal_panics hxd
        simp [TruncateDecimal.step, he, bind, Except.bind] at hs
      · exact TruncateDecimal.foldlM_error acc' ⟨x, hx, hxd⟩

section Truncate

variable {c : DecCoins} (hc : IsValid c = true)
include hc

/-- Over a valid list of denoms of the pattern and whole parts within 255 bits,
`TruncateDecimal` returns valid coins and a valid change that add up to the list denom by denom,
the change under one unit. -/
theorem TruncateDecimal_ok (hden : ∀ x ∈ c, ValidateDenom x.denom = true ∧ x.amount.TruncateInt.natAbs < 2 ^ 255) :
    ∃ t ch, c.TruncateDecimal = .ok (t, ch) ∧ Coins.IsValid t = true ∧ IsValid ch = true ∧
      ∀ denom, amountOf Coin.denom Coin.amount t denom * precisionReuse + denomAmount ch denom =
          denomAmount c denom ∧ 0 ≤ denomAmount ch denom ∧ denomAmount ch denom < precisionReuse := by
  obtain ⟨hs, hpos, -⟩ := IsValid_iff.mp hc
  obtain ⟨t, ch, hrun, ht, hch, hsum⟩ := @TruncateDecimal.foldlM_ok c [] []
    rfl rfl hs (fun x hx => ⟨(hden x hx).1, (hpos x hx).2, (hden x hx).2⟩) (fun _ _ => ⟨rfl, rfl⟩)
    (fun _ => precisionReuse_pos)
  refine ⟨t, ch, hrun, ht, hch, fun denom => ⟨?_, ?_, (hsum denom).2⟩⟩
  · simpa using (hsum denom).1
  · exact amountOf_nonneg (fun x hx => ((IsValid_iff.mp hch).2.1 x hx).2) denom

/-- A valid list makes `TruncateDecimal` panic exactly when one of its denoms is outside the
pattern or the whole part of one of its coins does not fit 255 bits: `IsValid` checks the
pattern on the first denom only, `NewCoin` on every one, and `TruncateInt` bounds each whole
part. -/
theorem TruncateDecimal_error_iff :
    (∃ e, c.TruncateDecimal = .error e) ↔
      ∃ x ∈ c, ValidateDenom x.denom = false ∨ 2 ^ 255 ≤ x.amount.TruncateInt.natAbs := by
  constructor
  · rintro ⟨e, he⟩
    by_contra hall
    have hden : ∀ x ∈ c, ValidateDenom x.denom = true ∧ x.amount.TruncateInt.natAbs < 2 ^ 255 :=
      fun x hx => by
        by_contra hx'
        refine hall ⟨x, hx, ?_⟩
        by_cases hd : ValidateDenom x.denom = true
        · exact .inr (not_lt.mp fun hlt => hx' ⟨hd, hlt⟩)
        · exact .inl (by simpa using hd)
    obtain ⟨t, ch, hok, -⟩ := TruncateDecimal_ok hc hden
    rw [hok] at he
    cases he
  · exact TruncateDecimal.foldlM_error _

end Truncate

end DecCoins

/-- `Coins.Add` of valid lists returns when the two amounts of every denom sum within `Int.Add`'s
255 bits, and gives then a valid list with the sum of the amounts under every denom; over amounts
that are `sdk.Int` values it panics when the sum of some denom does not fit. `DecCoins.Add` is
the same with `Dec.Add`'s 315 bits. The sums they return, `safeAdd` of the lists, are
commutative and associative on valid lists, with the empty list as identity. -/
theorem Add_valid_and_additive :
    (∀ a b : Coins, Coins.IsValid a = true → Coins.IsValid b = true →
      ((∀ denom, (amountOf Coin.denom Coin.amount a denom + amountOf Coin.denom Coin.amount b denom).natAbs <
          2 ^ 255) →
        Coins.Add a b = .ok (safeAdd a b) ∧ Coins.IsValid (safeAdd a b) = true ∧
        ∀ denom, amountOf Coin.denom Coin.amount (safeAdd a b) denom =
          amountOf Coin.denom Coin.amount a denom + amountOf Coin.denom Coin.amount b denom) ∧
      ((∀ c ∈ a ++ b, c.amount.natAbs < 2 ^ 255) →
        (∃ denom, 2 ^ 255 ≤ (amountOf Coin.denom Coin.amount a denom + amountOf Coin.denom Coin.amount b denom).natAbs) →
        Coins.Add a b = .error "Int overflow")) ∧
    (∀ a b c : Coins, Coins.IsValid a = true → Coins.IsValid b = true → Coins.IsValid c = true →
      safeAdd a b = safeAdd b a ∧ safeAdd (safeAdd a b) c = safeAdd a (safeAdd b c) ∧
      safeAdd [] a = a ∧ safeAdd a [] = a) ∧
    (∀ a b : DecCoins, DecCoins.IsValid a = true → DecCoins.IsValid b = true →
      ((∀ denom, (DecCoins.denomAmount a denom + DecCoins.denomAmount b denom).natAbs < 2 ^ 315) →
        DecCoins.Add a b = .ok (DecCoins.safeAdd a b) ∧ DecCoins.IsValid (DecCoins.safeAdd a b) = true ∧
        ∀ denom, DecCoins.denomAmount (DecCoins.safeAdd a b) denom =
          DecCoins.denomAmount a denom + DecCoins.denomAmount b denom) ∧
      ((∀ c ∈ a ++ b, c.amount.i.natAbs < 2 ^ 315) →
        (∃ denom, 2 ^ 315 ≤ (DecCoins.denomAmount a denom + DecCoins.denomAmount b denom).natAbs) →
        DecCoins.Add a b = .error "Int overflow")) ∧
    (∀ a b c : DecCoins, DecCoins.IsValid a = true → DecCoins.IsValid b = true → DecCoins.IsValid c = true →
      DecCoins.safeAdd a b = DecCoins.safeAdd b a ∧
      DecCoins.safeAdd (DecCoins.safeAdd a b) c = DecCoins.safeAdd a (DecCoins.safeAdd b c) ∧
      DecCoins.safeAdd [] a = a ∧ DecCoins.safeAdd a [] = a) := by
  refine ⟨fun a b ha hb => ⟨fun hfit => ⟨(Coins.Add_spec ha hb).1 hfit, safeAdd_IsValid ha hb,
      amountOf_safeAdd ha hb⟩, (Coins.Add_spec ha hb).2⟩,
    fun a b c ha hb hc => ⟨safeAdd_comm ha hb, safeAdd_assoc ha hb hc, safeAdd_nil_left ha, safeAdd_nil_right ha⟩,
    fun a b ha hb => ⟨fun hfit => ⟨(DecCoins.Add_spec ha hb).1 hfit, DecCoins.safeAdd_IsValid ha hb,
      DecCoins.amountOf_safeAdd ha hb⟩, (DecCoins.Add_spec ha hb).2⟩,
    fun a b c ha hb hc => ⟨DecCoins.safeAdd_comm ha hb, DecCoins.safeAdd_assoc ha hb hc,
      DecCoins.safeAdd_nil_left ha, DecCoins.safeAdd_nil_right ha⟩⟩

theorem Add_valid_and_additive_atom :
    Coins.Add [⟨"atom", 1⟩, ⟨"btom", 2⟩] [⟨"btom", 3⟩] = .ok (safeAdd [⟨"atom", 1⟩, ⟨"btom", 2⟩] [⟨"btom", 3⟩]) ∧
    Coins.Add [⟨"atom", 2 ^ 255 - 1⟩] [⟨"atom", 1⟩] = .error "Int overflow" ∧
    safeAdd (safeAdd [⟨"atom", 1⟩, ⟨"btom", 2⟩] [⟨"btom", 3⟩]) [⟨"ctom", 4⟩] =
      safeAdd [⟨"atom", 1⟩, ⟨"btom", 2⟩] (safeAdd [⟨"btom", 3⟩] [⟨"ctom", 4⟩]) ∧
    DecCoins.safeAdd [⟨"atom", ⟨1⟩⟩, ⟨"btom", ⟨2⟩⟩] [⟨"btom", ⟨3⟩⟩] =
      DecCoins.safeAdd [⟨"btom", ⟨3⟩⟩] [⟨"atom", ⟨1⟩⟩, ⟨"btom", ⟨2⟩⟩] := by
  -- the amounts of the small lists, denom by denom, are far within the bound
  have hsmall : ∀ denom, (amountOf Coin.denom Coin.amount [⟨"atom", 1⟩, ⟨"btom", 2⟩] denom +
      amountOf Coin.denom Coin.amount [⟨"btom", 3⟩] denom).natAbs < 2 ^ 255 := fun denom => by
    simp only [KeyedList.amountOf_cons, KeyedList.amountOf_nil]
    split_ifs <;> decide
  exact ⟨((Add_valid_and_additive.1 _ _ (by decide) (by decide)).1 hsmall).1,
    (Add_valid_and_additive.1 _ _ (by decide) (by decide)).2 (by decide) ⟨"atom", by decide⟩,
    (Add_valid_and_additive.2.1 _ _ _ (by decide) (by decide) (by decide)).2.1,
    (Add_valid_and_additive.2.2.2 _ _ [⟨"ctom", ⟨4⟩⟩] (by decide) (by decide) (by decide)).1⟩

/-- Two valid lists whose amounts of one denom sum past 255 bits: `Int.Add` panics. -/
theorem Add_overflows_Int :
    Coins.IsValid [⟨"atom", 2 ^ 255 - 1⟩] = true ∧ Coins.IsValid [⟨"atom", 1⟩] = true ∧
      Coins.Add [⟨"atom", 2 ^ 255 - 1⟩] [⟨"atom", 1⟩] = .error "Int overflow" :=
  ⟨by decide, by decide, by decide⟩

theorem SafeSub_per_denom :
    (∀ a b : Coins, Coins.IsValid a = true → Coins.IsValid b = true →
      (∀ denom, amountOf Coin.denom Coin.amount (SafeSub a b).1 denom =
        amountOf Coin.denom Coin.amount a denom - amountOf Coin.denom Coin.amount b denom) ∧
      ((SafeSub a b).2 = true ↔ ∃ denom,
        amountOf Coin.denom Coin.amount a denom < amountOf Coin.denom Coin.amount b denom) ∧
      ((SafeSub a b).2 = false → Strict Coin.denom (SafeSub a b).1 ∧
        (∀ c ∈ (SafeSub a b).1, 0 < c.amount ∧ ∃ c' ∈ a, c'.denom = c.denom) ∧
        ((∀ c ∈ a, ValidateDenom c.denom = true) → Coins.IsValid (SafeSub a b).1 = true)) ∧
      (∀ r, IsAllGTE a b = .ok r → r = !(SafeSub a b).2) ∧
      ((∀ c ∈ b, ValidateDenom c.denom = true) → IsAllGTE a b = .ok !(SafeSub a b).2)) ∧
    (∀ a b : DecCoins, DecCoins.IsValid a = true → DecCoins.IsValid b = true →
      (∀ denom, DecCoins.denomAmount (DecCoins.SafeSub a b).1 denom =
        DecCoins.denomAmount a denom - DecCoins.denomAmount b denom) ∧
      ((DecCoins.SafeSub a b).2 = true ↔
        ∃ denom, DecCoins.denomAmount a denom < DecCoins.denomAmount b denom) ∧
      ((DecCoins.SafeSub a b).2 = false → Strict DecCoin.denom (DecCoins.SafeSub a b).1 ∧
        (∀ c ∈ (DecCoins.SafeSub a b).1, 0 < c.amount.i ∧ ∃ c' ∈ a, c'.denom = c.denom) ∧
        ((∀ c ∈ a, ValidateDenom c.denom = true) →
          DecCoins.IsValid (DecCoins.SafeSub a b).1 = true))) := by
  refine ⟨fun a b ha hb => ⟨amountOf_SafeSub ha hb, SafeSub_hasNeg_iff ha hb, fun h => ?_,
    fun r => IsAllGTE_ok ha hb, IsAllGTE_eq ha hb⟩, fun a b ha hb => ⟨DecCoins.amountOf_SafeSub ha hb,
    DecCoins.SafeSub_hasNeg_iff ha hb, fun h => ?_⟩⟩
  · exact ⟨strict_SafeSub ha hb, SafeSub_coins ha hb h, SafeSub_IsValid ha hb h⟩
  · exact ⟨DecCoins.strict_SafeSub ha hb, DecCoins.SafeSub_coins ha hb h,
      DecCoins.SafeSub_IsValid ha hb h⟩

example :
    Coins.IsValid [⟨"atom", 3⟩] = true ∧ Coins.IsValid [⟨"atom", 1⟩] = true ∧
      IsAllGTE [⟨"atom", 3⟩] [⟨"atom", 1⟩] = .ok !(SafeSub [⟨"atom", 3⟩] [⟨"atom", 1⟩]).2 ∧
      DecCoins.IsValid [⟨"atom", ⟨3⟩⟩] = true ∧ DecCoins.IsValid [⟨"atom", ⟨1⟩⟩] = true ∧
      ((DecCoins.SafeSub [⟨"atom", ⟨3⟩⟩] [⟨"atom", ⟨1⟩⟩]).2 = true ↔
        ∃ denom, DecCoins.denomAmount [⟨"atom", ⟨3⟩⟩] denom <
          DecCoins.denomAmount [⟨"atom", ⟨1⟩⟩] denom) :=
  ⟨by decide, by decide, (SafeSub_per_denom.1 _ _ (by decide) (by decide)).2.2.2.2 (by decide),
    by decide, by decide, (SafeSub_per_denom.2 _ _ (by decide) (by decide)).2.1⟩

/-- A valid list minus a valid list with no negative coin that is not valid: only the first
denom of a valid list must match the denom pattern, and the subtraction removes it. On the
same kind of denom `IsAllGTE` panics. -/
theorem SafeSub_leaves_invalid_coins :
    Coins.IsValid [⟨"abc", 1⟩, ⟨"x", 5⟩] = true ∧ Coins.IsValid [⟨"abc", 1⟩] = true ∧
      SafeSub [⟨"abc", 1⟩, ⟨"x", 5⟩] [⟨"abc", 1⟩] = ([⟨"x", 5⟩], false) ∧
      Coins.IsValid [⟨"x", 5⟩] = false ∧
      IsAllGTE [⟨"abc", 1⟩] [⟨"abc", 1⟩, ⟨"x", 5⟩] = .error "invalid denom: x" ∧
      DecCoins.SafeSub [⟨"abc", ⟨1⟩⟩, ⟨"x", ⟨5⟩⟩] [⟨"abc", ⟨1⟩⟩] = ([⟨"x", ⟨5⟩⟩], false) ∧
      DecCoins.IsValid [⟨"x", ⟨5⟩⟩] = false :=
  ⟨by decide, by decide, by decide, by decide, rfl, by decide, by decide⟩

/-- `DecCoins.TruncateDecimal` of a valid list panics exactly when a denom of the list is
outside the denom pattern or the whole part of one of its coins does not fit 255 bits.
Otherwise it returns valid coins and a valid change that add up to the list denom by denom, with
the change in `[0, 1)`. -/
theorem TruncateDecimal_conserves (c : DecCoins) (hc : DecCoins.IsValid c = true) :
    ((∃ e, c.TruncateDecimal = .error e) ↔
        ∃ x ∈ c, ValidateDenom x.denom = false ∨ 2 ^ 255 ≤ x.amount.TruncateInt.natAbs) ∧
      ((∀ x ∈ c, ValidateDenom x.denom = true ∧ x.amount.TruncateInt.natAbs < 2 ^ 255) →
        ∃ t ch, c.TruncateDecimal = .ok (t, ch) ∧ Coins.IsValid t = true ∧
          DecCoins.IsValid ch = true ∧ ∀ denom,
            amountOf Coin.denom Coin.amount t denom * precisionReuse +
                DecCoins.denomAmount ch denom = DecCoins.denomAmount c denom ∧
              0 ≤ DecCoins.denomAmount ch denom ∧ DecCoins.denomAmount ch denom < precisionReuse) :=
  ⟨DecCoins.TruncateDecimal_error_iff hc, DecCoins.TruncateDecimal_ok hc⟩

theorem TruncateDecimal_conserves_atom :
    DecCoins.IsValid [⟨"atom", ⟨1500000000000000000⟩⟩] = true ∧
      ∃ t ch, DecCoins.TruncateDecimal [⟨"atom", ⟨1500000000000000000⟩⟩] = .ok (t, ch) ∧
        Coins.IsValid t = true ∧ DecCoins.IsValid ch = true ∧ ∀ denom,
          amountOf Coin.denom Coin.amount t denom * precisionReuse + DecCoins.denomAmount ch denom =
              DecCoins.denomAmount [⟨"atom", ⟨1500000000000000000⟩⟩] denom ∧
            0 ≤ DecCoins.denomAmount ch denom ∧ DecCoins.denomAmount ch denom < precisionReuse :=
  ⟨by decide, (TruncateDecimal_conserves _ (by decide)).2 (by decide)⟩

/-- A valid list whose second denom is outside the pattern: `IsValid` does not look at it,
and `NewCoin` panics on it. -/
theorem TruncateDecimal_panics_on_later_denom :
    DecCoins.IsValid [⟨"abc", ⟨1000000000000000000⟩⟩, ⟨"x", ⟨1000000000000000000⟩⟩] = true ∧
      DecCoins.TruncateDecimal [⟨"abc", ⟨1000000000000000000⟩⟩, ⟨"x", ⟨1000000000000000000⟩⟩] =
        .error "invalid denom: x" :=
  ⟨by decide, by decide⟩

end Dipper
