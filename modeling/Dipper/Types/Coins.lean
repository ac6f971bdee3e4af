import Dipper.Types.BigInt
import Dipper.Lib.KeyedList
import Dipper.Lib.GoText

/-!
# Coins

`sdk.Coin` and the sorted coin lists `sdk.Coins` with the operations the
account balance code uses: `safeAdd` (the merge of two sorted lists that drops
zero coins), `Sub` through `negative`, and the binary search `AmountOf`.
Amounts are `sdk.Int` values, kept as `Int`.
-/

namespace Dipper

structure Coin where
  denom : String
  amount : Int
  deriving DecidableEq, Repr

abbrev Coins := List Coin

def NativeTokenName : String := "pdip"

namespace Coin

def IsZero (c : Coin) : Bool := c.amount == 0

def IsNegative (c : Coin) : Bool := decide (c.amount < 0)

end Coin

/-- `sdk.ValidateDenom`: `[a-z][a-z0-9]{2,15}`. -/
def ValidateDenom (denom : String) : Bool :=
  match denom.toList with
  | [] => false
  | c :: cs => c.isLower && cs.all (fun d => d.isLower || d.isDigit) && 2 ≤ cs.length && cs.length ≤ 15

/-- `Coin.IsValid`: a valid denom and a non-negative amount. -/
def Coin.IsValid (c : Coin) : Bool := ValidateDenom c.denom && decide (0 ≤ c.amount)

/-- `NewCoin`: an invalid denom or a negative amount panics. -/
def NewCoin (denom : String) (amount : Int) : Except String Coin :=
  if !ValidateDenom denom then .error ("invalid denom: " ++ denom)
  else if amount < 0 then .error ("negative coin amount: " ++ toString amount)
  else .ok ⟨denom, amount⟩

def removeZeroCoins (coins : Coins) : Coins := coins.filter (fun c => !c.IsZero)

/-- The loop of `Coins.safeAdd`, with the step count as fuel; each step consumes one
coin of either list, so `length a + length b` steps always suffice. -/
def safeAddAux : Nat → Coins → Coins → Coins
  | 0, _, _ => []
  | _+1, [], bs => removeZeroCoins bs
  | _+1, as, [] => removeZeroCoins as
  | k+1, a :: as, b :: bs =>
    match compare a.denom b.denom with
    | .lt => (if a.IsZero then [] else [a]) ++ safeAddAux k as (b :: bs)
    | .eq =>
      let res : Coin := ⟨a.denom, a.amount + b.amount⟩
      (if res.IsZero then [] else [res]) ++ safeAddAux k as bs
    | .gt => (if b.IsZero then [] else [b]) ++ safeAddAux k (a :: as) bs

/-- `Coins.safeAdd` with `Int.Add` unbounded; `Coins.Add` keeps its panic, and is this sum
wherever every denom's sum fits 255 bits (`Coins.Add_spec`). -/
def safeAdd (a b : Coins) : Coins := safeAddAux (a.length + b.length + 1) a b

/-- `Coin.Add`: coins of two denominations panic, and the amounts are added by `Int.Add`. -/
def Coin.Add (coin coinB : Coin) : Except String Coin :=
  if coin.denom ≠ coinB.denom then .error ("invalid coin denominations; " ++ coin.denom ++ ", " ++ coinB.denom)
  else (IntAdd coin.amount coinB.amount).map fun amount => ⟨coin.denom, amount⟩

/-- `Coins.Add`, that is `Coins.safeAdd`: the merge of `safeAddAux` with the coins of one denom
added by `Coin.Add`. -/
def Coins.Add (coins coinsB : Coins) : Except String Coins :=
  KeyedList.mergeAddChecked Coin.denom Coin.IsZero Coin.Add (coins.length + coinsB.length + 1) coins coinsB

def negative (coins : Coins) : Coins := coins.map (fun c => ⟨c.denom, -c.amount⟩)

def IsAnyNegative (coins : Coins) : Bool := coins.any Coin.IsNegative

def SafeSub (a b : Coins) : Coins × Bool :=
  let diff := safeAdd a (negative b)
  (diff, IsAnyNegative diff)

/-- `Coins.Sub`: panics on a negative result. -/
def CoinsSub (a b : Coins) : Except String Coins :=
  let (diff, hasNeg) := SafeSub a b
  if hasNeg then .error "negative coin amount" else .ok diff

/-- The binary search of `Coins.AmountOf`, with the list length as fuel. -/
def amountOfAux : Nat → Coins → String → Int
  | 0, _, _ => 0
  | k+1, coins, denom =>
    match coins with
    | [] => 0
    | [c] => if c.denom = denom then c.amount else 0
    | coins =>
      let midIdx := coins.length / 2
      let coin := coins.getD midIdx ⟨"", 0⟩
      if denom < coin.denom then amountOfAux k (coins.take midIdx) denom
      else if denom = coin.denom then coin.amount
      else amountOfAux k (coins.drop (midIdx+1)) denom

/-- The search of `Coins.AmountOf`, which is all of it for a denom that `mustValidateDenom`
accepts, as the constant denoms of its callers here are; `Coins.AmountOf` has the check. -/
def AmountOf (coins : Coins) (denom : String) : Int := amountOfAux coins.length coins denom

/-- `mustValidateDenom`: a denom outside the denom pattern panics. -/
def mustValidateDenom (denom : String) : Except String Unit :=
  if ValidateDenom denom then pure () else throw ("invalid denom: " ++ denom)

/-- `Coins.AmountOf`: `mustValidateDenom`, then the search. -/
def Coins.AmountOf (coins : Coins) (denom : String) : Except String Int := do
  mustValidateDenom denom
  pure (Dipper.AmountOf coins denom)

/-- The loop of `Coins.IsValid` after the first coin: lower case, denoms strictly
increasing, amounts positive. -/
def validAfter (lowDenom : String) : Coins → Bool
  | [] => true
  | c :: rest =>
    decide (GoText.ToLower c.denom.toList = c.denom.toList) && decide (lowDenom < c.denom) &&
      decide (0 < c.amount) && validAfter c.denom rest

/-- `Coins.IsValid`: only the first denom is matched against the denom pattern. -/
def Coins.IsValid : Coins → Bool
  | [] => true
  | c :: rest => ValidateDenom c.denom && decide (0 < c.amount) && validAfter c.denom rest

def Coins.IsZero (coins : Coins) : Bool := coins.all Coin.IsZero

/-- `Coins.IsAllGTE`: false at the first coin of `coinsB` above its amount in `coins`. -/
def IsAllGTE (coins coinsB : Coins) : Except String Bool :=
  if coinsB.isEmpty then pure true
  else if coins.isEmpty then pure false
  else loop coinsB
where
  /-- The loop over `coinsB`, whose `AmountOf` panics on a denom outside the pattern. -/
  loop : Coins → Except String Bool
    | [] => pure true
    | coinB :: rest => do
      if coinB.amount > (← Coins.AmountOf coins coinB.denom) then pure false else loop rest

/-! ### Adding valid coins

`safeAdd` takes the steps of `KeyedList.MergeAdd` with coins keyed by denom, so a
valid `Coins` is a sorted keyed list of positive amounts and adding two of them
adds their amounts denom by denom. -/

section Add

open KeyedList

theorem ascii_of_isLower_or_isDigit {c : Char} (h : c.isLower = true ∨ c.isDigit = true) :
    c.toNat < 0x80 ∧ ¬ ('A' ≤ c ∧ c ≤ 'Z') := by
  have hA : 'A' ≤ c ↔ 65 ≤ c.val.toNat := Char.le_def
  have hZ : c ≤ 'Z' ↔ c.val.toNat ≤ 90 := Char.le_def
  have hbounds : ('a'.val.toNat = 97 ∧ 'z'.val.toNat = 122) ∧ '0'.val.toNat = 48 ∧ '9'.val.toNat = 57 :=
    ⟨⟨rfl, rfl⟩, rfl, rfl⟩
  show c.val.toNat < 0x80 ∧ _
  rw [hA, hZ]
  rcases h with h | h <;>
    simp only [Char.isLower, Char.isDigit, Bool.and_eq_true, decide_eq_true_eq, ge_iff_le,
      UInt32.le_iff_toNat_le] at h <;>
    omega

theorem ValidateDenom_lower {denom : String} (h : ValidateDenom denom = true) :
    GoText.ToLower denom.toList = denom.toList := by
  unfold ValidateDenom at h
  split at h
  · cases h
  · rename_i c cs hcs
    simp only [Bool.and_eq_true, decide_eq_true_eq, List.all_eq_true, Bool.or_eq_true] at h
    obtain ⟨⟨⟨hc, hcs'⟩, -⟩, -⟩ := h
    refine GoText.ToLower_of_forall fun d hd => ascii_of_isLower_or_isDigit ?_
    rw [hcs, List.mem_cons] at hd
    rcases hd with rfl | hd
    · exact .inl hc
    · exact hcs' d hd

theorem validAfter_iff {lowDenom : String} {coins : Coins} :
    validAfter lowDenom coins = true ↔ (∀ c ∈ coins, lowDenom < c.denom) ∧ Strict Coin.denom coins ∧
      ∀ c ∈ coins, GoText.ToLower c.denom.toList = c.denom.toList ∧ 0 < c.amount := by
  induction coins generalizing lowDenom with
  | nil => simp [validAfter]
  | cons c coins ih =>
    simp only [validAfter, Bool.and_eq_true, decide_eq_true_eq, ih, strict_cons, List.mem_cons,
      forall_eq_or_imp]
    constructor
    · rintro ⟨⟨⟨hlow, hc⟩, hpos⟩, hlt, hs, hl⟩
      exact ⟨⟨hc, fun y hy => hc.trans (hlt y hy)⟩, ⟨hlt, hs⟩, ⟨hlow, hpos⟩, hl⟩
    · rintro ⟨⟨hc, -⟩, ⟨hlt, hs⟩, ⟨hlow, hpos⟩, hl⟩
      exact ⟨⟨⟨hlow, hc⟩, hpos⟩, hlt, hs, hl⟩

/-- `Coins.IsValid` as a sorted keyed list of positive, lower-case coins whose first
denom matches the denom pattern. -/
theorem IsValid_iff {coins : Coins} :
    Coins.IsValid coins = true ↔ Strict Coin.denom coins ∧
      (∀ c ∈ coins, GoText.ToLower c.denom.toList = c.denom.toList ∧ 0 < c.amount) ∧
      ∀ c ∈ coins.head?, ValidateDenom c.denom = true := by
  cases coins with
  | nil => simp [Coins.IsValid]
  | cons c coins =>
    simp only [Coins.IsValid, Bool.and_eq_true, decide_eq_true_eq, validAfter_iff, strict_cons,
      List.mem_cons, forall_eq_or_imp, List.head?_cons, Option.mem_def, Option.some.injEq, forall_eq']
    constructor
    · rintro ⟨⟨hd, hpos⟩, hlt, hs, hl⟩
      exact ⟨⟨hlt, hs⟩, ⟨⟨ValidateDenom_lower hd, hpos⟩, hl⟩, hd⟩
    · rintro ⟨⟨hlt, hs⟩, ⟨⟨-, hpos⟩, hl⟩, hd⟩
      exact ⟨⟨hd, hpos⟩, hlt, hs, hl⟩

theorem safeAddAux_lt (k : Nat) (a : Coin) (as : Coins) (b : Coin) (bs : Coins) (h : a.denom < b.denom) :
    safeAddAux (k + 1) (a :: as) (b :: bs) = (if a.IsZero then [] else [a]) ++ safeAddAux k as (b :: bs) := by
  rw [safeAddAux, compare_lt_iff_lt.mpr h]

theorem safeAddAux_eq (k : Nat) (a : Coin) (as : Coins) (b : Coin) (bs : Coins) (h : a.denom = b.denom) :
    safeAddAux (k + 1) (a :: as) (b :: bs) =
      (if Coin.IsZero ⟨a.denom, a.amount + b.amount⟩ then [] else [⟨a.denom, a.amount + b.amount⟩]) ++
        safeAddAux k as bs := by
  rw [safeAddAux, compare_eq_iff_eq.mpr h]

theorem safeAddAux_gt (k : Nat) (a : Coin) (as : Coins) (b : Coin) (bs : Coins) (h : b.denom < a.denom) :
    safeAddAux (k + 1) (a :: as) (b :: bs) = (if b.IsZero then [] else [b]) ++ safeAddAux k (a :: as) bs := by
  rw [safeAddAux, compare_gt_iff_gt.mpr h]

theorem safeAdd_mergeAdd (a b : Coins) :
    MergeAdd Coin.denom (fun a b => ⟨a.denom, a.amount + b.amount⟩) Coin.IsZero a b (safeAdd a b) :=
  MergeAdd.of_fuel safeAddAux (fun _ _ => rfl) (fun _ _ _ => rfl) safeAddAux_lt safeAddAux_eq safeAddAux_gt
    _ a b (Nat.lt_succ_self _)

theorem Coin.amount_of_IsZero (c : Coin) (h : c.IsZero = true) : c.amount = 0 := by
  simpa [Coin.IsZero] using h

theorem Coin.IsZero_iff (c : Coin) : c.IsZero = true ↔ c.amount = 0 := by
  simp [Coin.IsZero]

theorem safeAdd_IsValid {a b : Coins} (ha : Coins.IsValid a = true) (hb : Coins.IsValid b = true) :
    Coins.IsValid (safeAdd a b) = true := by
  rw [IsValid_iff] at ha hb ⊢
  refine (safeAdd_mergeAdd a b).valid
    (P := fun c : Coin => GoText.ToLower c.denom.toList = c.denom.toList ∧ 0 < c.amount)
    (H := fun c : Coin => ValidateDenom c.denom = true) (fun _ _ => rfl) (fun x y _ hx hy => ⟨hx.1, ?_⟩)
    (fun _ _ h => h) (fun x hx => ?_) ha hb
  · -- a sum of positive amounts is positive
    exact add_pos hx.2 hy.2
  · simpa [Coin.IsZero] using hx.2.ne'

theorem amountOf_safeAdd {a b : Coins} (ha : Coins.IsValid a = true) (hb : Coins.IsValid b = true)
    (denom : String) :
    amountOf Coin.denom Coin.amount (safeAdd a b) denom =
      amountOf Coin.denom Coin.amount a denom + amountOf Coin.denom Coin.amount b denom :=
  (safeAdd_mergeAdd a b).amountOf_out (fun _ _ => by rfl) (fun _ _ => by rfl) Coin.amount_of_IsZero
    (IsValid_iff.mp ha).1 (IsValid_iff.mp hb).1 denom

theorem Coins.eq_of_amountOf {a b : Coins} (ha : Coins.IsValid a = true) (hb : Coins.IsValid b = true)
    (h : ∀ denom, amountOf Coin.denom Coin.amount a denom = amountOf Coin.denom Coin.amount b denom) : a = b := by
  rw [IsValid_iff] at ha hb
  refine eq_of_amountOf_eq (fun x y hd ha => ?_) ha.1 hb.1 (fun x hx => (ha.2.1 x hx).2.ne')
    (fun x hx => (hb.2.1 x hx).2.ne') h
  cases x
  cases y
  simp_all

theorem safeAdd_comm {a b : Coins} (ha : Coins.IsValid a = true) (hb : Coins.IsValid b = true) :
    safeAdd a b = safeAdd b a :=
  Coins.eq_of_amountOf (safeAdd_IsValid ha hb) (safeAdd_IsValid hb ha) fun denom => by
    rw [amountOf_safeAdd ha hb, amountOf_safeAdd hb ha, add_comm]

theorem safeAdd_assoc {a b c : Coins} (ha : Coins.IsValid a = true) (hb : Coins.IsValid b = true)
    (hc : Coins.IsValid c = true) : safeAdd (safeAdd a b) c = safeAdd a (safeAdd b c) := by
  have hab := safeAdd_IsValid ha hb
  have hbc := safeAdd_IsValid hb hc
  refine Coins.eq_of_amountOf (safeAdd_IsValid hab hc) (safeAdd_IsValid ha hbc) fun denom => ?_
  rw [amountOf_safeAdd hab hc, amountOf_safeAdd ha hb, amountOf_safeAdd ha hbc, amountOf_safeAdd hb hc,
    add_assoc]

theorem safeAdd_nil_left {a : Coins} (ha : Coins.IsValid a = true) : safeAdd [] a = a :=
  Coins.eq_of_amountOf (safeAdd_IsValid rfl ha) ha fun denom => by
    rw [amountOf_safeAdd rfl ha, amountOf_nil, zero_add]

theorem safeAdd_nil_right {a : Coins} (ha : Coins.IsValid a = true) : safeAdd a [] = a :=
  Coins.eq_of_amountOf (safeAdd_IsValid ha rfl) ha fun denom => by
    rw [amountOf_safeAdd ha rfl, amountOf_nil, add_zero]

theorem Coin.Add_of_denom_eq {a b : Coin} (h : a.denom = b.denom) :
    ((a.amount + b.amount).natAbs < 2 ^ 255 → a.Add b = .ok ⟨a.denom, a.amount + b.amount⟩) ∧
      (¬ (a.amount + b.amount).natAbs < 2 ^ 255 → a.Add b = .error "Int overflow") := by
  unfold Coin.Add
  rw [if_neg (not_not.mpr h)]
  obtain ⟨hok, herr⟩ := IntAdd_spec a.amount b.amount
  exact ⟨fun hf => by rw [hok hf]; rfl, fun hf => by rw [herr (not_lt.mp hf)]; rfl⟩

theorem Coins.Add_of_disjoint {a b : Coins} (h : ∀ x ∈ a, ∀ y ∈ b, x.denom ≠ y.denom) :
    Coins.Add a b = .ok (safeAdd a b) := by
  obtain ⟨out, hout, hm⟩ := mergeAddChecked_of_disjoint (Nat.lt_succ_self (a.length + b.length)) h
  rw [Coins.Add, hout, (hm _).unique (safeAdd_mergeAdd a b)]

/-- `Coins.Add` of valid lists returns their `safeAdd` when the two amounts of every denom sum
within 255 bits; over amounts that are `sdk.Int` values it panics as `Int.Add` does when the sum
of some denom does not. -/
theorem Coins.Add_spec {a b : Coins} (ha : Coins.IsValid a = true) (hb : Coins.IsValid b = true) :
    ((∀ denom, (amountOf Coin.denom Coin.amount a denom + amountOf Coin.denom Coin.amount b denom).natAbs <
        2 ^ 255) → Coins.Add a b = .ok (safeAdd a b)) ∧
    ((∀ c ∈ a ++ b, c.amount.natAbs < 2 ^ 255) →
      (∃ denom, 2 ^ 255 ≤ (amountOf Coin.denom Coin.amount a denom + amountOf Coin.denom Coin.amount b denom).natAbs) →
        Coins.Add a b = .error "Int overflow") := by
  have has := (IsValid_iff.mp ha).1
  have hbs := (IsValid_iff.mp hb).1
  refine ⟨fun hfit => ?_, fun hentry hover => ?_⟩
  · obtain ⟨out, hout, hm⟩ := mergeAddChecked_of_fits Coin.amount (fun v : Int => v.natAbs < 2 ^ 255)
      (fun _ _ h => Coin.Add_of_denom_eq h) (Nat.lt_succ_self _) has hbs hfit
    rw [Coins.Add, hout, hm.unique (safeAdd_mergeAdd a b)]
  · obtain ⟨denom, hd⟩ := hover
    exact mergeAddChecked_of_not_fits Coin.amount (fun v : Int => v.natAbs < 2 ^ 255)
      (fun _ _ h => Coin.Add_of_denom_eq h) (pow_pos two_pos 255) (Nat.lt_succ_self _) has hbs hentry
      ⟨denom, not_lt.mpr hd⟩

end Add

/-! ### Subtracting valid coins

`SafeSub` adds the negated coins, so the amount of the difference under every denom is the
difference of the amounts, and a negative coin comes out exactly where the second list has
more. The coins it leaves are positive and carry denoms of the first list; `IsValid` then
holds when the first of them matches the denom pattern, which only the first coin of a
valid list must. `IsAllGTE` looks the amounts up by binary search, which on a sorted list
finds them, and answers as `SafeSub` when its `AmountOf` does not panic. -/

section Sub

open KeyedList

theorem amountOfAux_eq : ∀ (fuel : Nat) (coins : Coins) (denom : String),
    coins.length ≤ fuel → Strict Coin.denom coins →
      amountOfAux fuel coins denom = amountOf Coin.denom Coin.amount coins denom
  | 0, [], _, _, _ => rfl
  | fuel + 1, [], _, _, _ => rfl
  | fuel + 1, [c], denom, _, _ => by
    rw [amountOfAux, KeyedList.amountOf_cons, amountOf_nil]
  | fuel + 1, c :: c' :: rest, denom, hlen, hs => by
    simp only [amountOfAux]
    -- the middle coin splits the list in two sorted halves around it
    generalize hcoins : c :: c' :: rest = coins at hlen hs ⊢
    have hmid : coins.length / 2 < coins.length := by subst hcoins; simp; omega
    have hsplit : coins = coins.take (coins.length / 2) ++
        coins[coins.length / 2] :: coins.drop (coins.length / 2 + 1) := by
      rw [← List.drop_eq_getElem_cons hmid, List.take_append_drop]
    rw [List.getD_eq_getElem _ _ hmid]
    have hs' := hs
    rw [hsplit, Strict, List.pairwise_append, List.pairwise_cons] at hs'
    obtain ⟨hleft, ⟨hmidr, hright⟩, hcross⟩ := hs'
    set m := coins[coins.length / 2] with hm
    split
    · -- below the middle coin: the left half
      next hlt =>
      rw [amountOfAux_eq fuel _ denom (by simp; omega) hleft]
      have hne : ∀ x ∈ m :: coins.drop (coins.length / 2 + 1), x.denom ≠ denom := by
        intro x hx
        rcases List.mem_cons.mp hx with rfl | hx
        · exact hlt.ne'
        · exact (hlt.trans (hmidr x hx)).ne'
      conv_rhs => rw [hsplit]
      exact (amountOf_append_right _ hne).symm
    · split
      · next heq =>
        rw [heq, hs.amountOf_of_mem (List.getElem_mem hmid)]
      · -- above the middle coin: the right half
        next hlt heq =>
        have hgt : m.denom < denom := lt_of_le_of_ne (not_lt.mp hlt) (Ne.symm heq)
        rw [amountOfAux_eq fuel _ denom (by simp; omega) hright]
        conv_rhs => rw [hsplit]
        rw [amountOf_append_left _ fun x hx => (lt_trans (hcross x hx m List.mem_cons_self) hgt).ne,
          KeyedList.amountOf_cons, if_neg hgt.ne]


theorem AmountOf_eq {coins : Coins} (h : Strict Coin.denom coins) (denom : String) :
    AmountOf coins denom = amountOf Coin.denom Coin.amount coins denom :=
  amountOfAux_eq _ coins denom le_rfl h

theorem strict_negative {coins : Coins} (h : Strict Coin.denom coins) :
    Strict Coin.denom (negative coins) :=
  h.map fun _ => rfl

theorem IsAllGTE.loop_ok {coins : Coins} {r : Bool} :
    ∀ {l : Coins}, IsAllGTE.loop coins l = .ok r →
      r = l.all fun c => decide (c.amount ≤ AmountOf coins c.denom)
  | [], h => (Except.ok.inj h).symm
  | c :: l, h => by
    cases hv : ValidateDenom c.denom
    · -- the check panics
      simp [IsAllGTE.loop, Coins.AmountOf, mustValidateDenom, hv, bind, Except.bind, throw,
        throwThe, MonadExceptOf.throw] at h
    · simp only [IsAllGTE.loop, Coins.AmountOf, mustValidateDenom, hv, if_true, gt_iff_lt, bind,
        Except.bind, pure, Except.pure] at h
      split at h
      · next hlt =>
        obtain rfl := (Except.ok.inj h).symm
        simp [not_le.mpr hlt]
      · next hlt =>
        rw [loop_ok h, List.all_cons, decide_eq_true (not_lt.mp hlt), Bool.true_and]

theorem IsAllGTE.loop_eq {coins : Coins} :
    ∀ {l : Coins}, (∀ c ∈ l, ValidateDenom c.denom = true) →
      IsAllGTE.loop coins l = .ok (l.all fun c => decide (c.amount ≤ AmountOf coins c.denom))
  | [], _ => rfl
  | c :: l, h => by
    have hl : IsAllGTE.loop coins l = _ := loop_eq fun c' hc' => h c' (List.mem_cons_of_mem _ hc')
    simp only [IsAllGTE.loop, Coins.AmountOf, mustValidateDenom, h c List.mem_cons_self, if_true,
      gt_iff_lt, bind, Except.bind, pure, Except.pure]
    split
    · next hlt => simp [not_le.mpr hlt]
    · next hlt => rw [hl, List.all_cons, decide_eq_true (not_lt.mp hlt), Bool.true_and]

theorem IsAllGTE_eq_loop {a b : Coins} (hb : Coins.IsValid b = true) :
    IsAllGTE a b = IsAllGTE.loop a b := by
  unfold IsAllGTE
  split
  · next hb0 => rw [List.isEmpty_iff.mp hb0]; rfl
  · split
    · next hb0 ha0 =>
      obtain rfl := List.isEmpty_iff.mp ha0
      obtain ⟨c, l, rfl⟩ := List.exists_cons_of_ne_nil (by simpa using hb0)
      obtain ⟨-, hpos, hden⟩ := IsValid_iff.mp hb
      have hc : 0 < c.amount := (hpos c List.mem_cons_self).2
      simp [IsAllGTE.loop, Coins.AmountOf, mustValidateDenom, hden c rfl, AmountOf, amountOfAux,
        hc, bind, Except.bind, pure, Except.pure]
    · rfl

variable {a b : Coins} (ha : Coins.IsValid a = true) (hb : Coins.IsValid b = true)
include ha hb

theorem amountOf_SafeSub (denom : String) :
    amountOf Coin.denom Coin.amount (SafeSub a b).1 denom =
      amountOf Coin.denom Coin.amount a denom - amountOf Coin.denom Coin.amount b denom :=
  (safeAdd_mergeAdd a (negative b)).amountOf_sub (fun _ _ => by rfl) (fun _ _ => by rfl)
    Coin.amount_of_IsZero (fun _ => by rfl) (fun _ => by rfl) (IsValid_iff.mp ha).1
    (IsValid_iff.mp hb).1 denom

theorem strict_SafeSub : Strict Coin.denom (SafeSub a b).1 :=
  (safeAdd_mergeAdd a (negative b)).strict (fun _ _ => by rfl) (IsValid_iff.mp ha).1
    (strict_negative (IsValid_iff.mp hb).1)

theorem SafeSub_hasNeg_iff :
    (SafeSub a b).2 = true ↔
      ∃ denom, amountOf Coin.denom Coin.amount a denom < amountOf Coin.denom Coin.amount b denom := by
  simp only [SafeSub, IsAnyNegative, List.any_eq_true, Coin.IsNegative, decide_eq_true_eq]
  exact (safeAdd_mergeAdd a (negative b)).exists_neg_iff (fun _ _ => by rfl) (fun _ _ => by rfl)
    Coin.IsZero_iff (fun _ => by rfl) (fun _ => by rfl) (IsValid_iff.mp ha).1 (IsValid_iff.mp hb).1

theorem SafeSub_coins (h : (SafeSub a b).2 = false) :
    ∀ c ∈ (SafeSub a b).1, 0 < c.amount ∧ ∃ c' ∈ a, c'.denom = c.denom := by
  simp only [SafeSub, IsAnyNegative, List.any_eq_false, Coin.IsNegative, decide_eq_true_eq] at h ⊢
  exact (safeAdd_mergeAdd a (negative b)).pos_of_not_neg (fun _ _ => by rfl) (fun _ _ => by rfl)
    Coin.IsZero_iff (fun _ => by rfl) (fun _ => by rfl) (IsValid_iff.mp ha).1 (IsValid_iff.mp hb).1
    (fun x hx => ((IsValid_iff.mp hb).2.1 x hx).2) h

theorem SafeSub_IsValid (h : (SafeSub a b).2 = false)
    (hden : ∀ c ∈ a, ValidateDenom c.denom = true) : Coins.IsValid (SafeSub a b).1 = true := by
  have hcoin : ∀ c ∈ (SafeSub a b).1, ∃ c' ∈ a, c'.denom = c.denom ∧
      GoText.ToLower c.denom.toList = c.denom.toList ∧ 0 < c.amount := fun c hc => by
    obtain ⟨hpos, c', hc', hd⟩ := SafeSub_coins ha hb h c hc
    exact ⟨c', hc', hd, hd ▸ ((IsValid_iff.mp ha).2.1 c' hc').1, hpos⟩
  refine IsValid_iff.mpr ⟨strict_SafeSub ha hb, fun c hc => ?_, fun c hc => ?_⟩
  · obtain ⟨-, -, -, hl, hpos⟩ := hcoin c hc
    exact ⟨hl, hpos⟩
  · obtain ⟨c', hc', hd, -⟩ := hcoin c (List.mem_of_mem_head? hc)
    exact hd ▸ hden c' hc'

theorem all_le_AmountOf :
    (b.all fun c => decide (c.amount ≤ AmountOf a c.denom)) = !(SafeSub a b).2 := by
  have hsa := (IsValid_iff.mp ha).1
  have hsb := (IsValid_iff.mp hb).1
  have hbpos : ∀ c ∈ b, 0 < c.amount := fun c hc => ((IsValid_iff.mp hb).2.1 c hc).2
  rw [Bool.eq_iff_iff, List.all_eq_true, Bool.not_eq_true', Bool.eq_false_iff,
    Ne, SafeSub_hasNeg_iff ha hb]
  simp only [AmountOf_eq hsa, decide_eq_true_eq, not_exists, not_lt]
  constructor
  · -- a denom where the second list has more is that of one of its coins
    intro hall denom
    by_contra hlt
    have ha0 : 0 ≤ amountOf Coin.denom Coin.amount a denom :=
      amountOf_nonneg (fun x hx => ((IsValid_iff.mp ha).2.1 x hx).2) denom
    obtain ⟨c, hc, rfl, hcb⟩ := exists_mem_of_amountOf_ne_zero
      (show amountOf Coin.denom Coin.amount b denom ≠ 0 by omega)
    have := hall c hc
    omega
  · intro hle c hc
    simpa [hsb.amountOf_of_mem hc] using hle c.denom

theorem IsAllGTE_ok {r : Bool} (h : IsAllGTE a b = .ok r) : r = !(SafeSub a b).2 := by
  rw [IsAllGTE_eq_loop hb] at h
  rw [IsAllGTE.loop_ok h, all_le_AmountOf ha hb]

theorem IsAllGTE_eq (hden : ∀ c ∈ b, ValidateDenom c.denom = true) :
    IsAllGTE a b = .ok !(SafeSub a b).2 := by
  rw [IsAllGTE_eq_loop hb, IsAllGTE.loop_eq hden, all_le_AmountOf ha hb]

end Sub

end Dipper
