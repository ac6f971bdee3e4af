import Dipper.Types.Dec
import Dipper.Types.Coins

/-!
# The mint's begin-block

`BeginBlocker` of `mint/abci.go` with the minter of `mint/internal/types/minter.go`: while the
provisions minted so far are below `MaxProvisions`, the inflation rate moves toward the bonded
goal, clamped into `[InflationMin, InflationMax]`, the annual provisions are that rate of the
supply not vesting, and one block's share of them is minted. The parameter validators of
`params.go` are the checks a parameter change passes one field at a time.
-/

namespace Dipper

namespace Mint

open Dec

structure Minter where
  Inflation : Dec
  AnnualProvisions : Dec
  CurrentProvisions : Dec
  deriving DecidableEq, Repr

structure Params where
  MintDenom : String
  InflationRateChange : Dec
  InflationMax : Dec
  InflationMin : Dec
  GoalBonded : Dec
  BlocksPerYear : Nat
  MaxProvisions : Dec
  deriving DecidableEq, Repr

/-- `DefaultParams`: a block every five seconds, and 3.5·10⁸ tokens at most. -/
def DefaultParams : Params :=
  ⟨NativeTokenName, NewDecWithPrec 6 2, NewDecWithPrec 10 2, NewDecWithPrec 4 2, NewDecWithPrec 67 2,
    60 * 60 * 8766 / 5, (NewDec 350000000).Mul (NewDec 1000000000000)⟩

/-- `DefaultInitialMinter`: an inflation of four percent and nothing provisioned. -/
def DefaultInitialMinter : Minter := ⟨NewDecWithPrec 4 2, NewDec 0, NewDec 0⟩

/-! ### The parameter validators -/

/-- The check shared by the four rates: a decimal between zero and one. -/
def validateRate (negative tooLarge : String) (v : Dec) : Except String Unit :=
  if v.IsNegative then .error negative
  else if v.GT OneDec then .error tooLarge
  else .ok ()

def validateInflationRateChange : Dec → Except String Unit :=
  validateRate "inflation rate change cannot be negative" "inflation rate change too large"

def validateInflationMax : Dec → Except String Unit :=
  validateRate "max inflation cannot be negative" "max inflation too large"

def validateInflationMin : Dec → Except String Unit :=
  validateRate "min inflation cannot be negative" "min inflation too large"

def validateGoalBonded : Dec → Except String Unit :=
  validateRate "goal bonded cannot be negative" "goal bonded must be <= 1"

def validateMintDenom (v : String) : Except String Unit :=
  if GoText.TrimSpace v.toList = [] then .error "mint denom cannot be blank"
  else if !ValidateDenom v then .error ("invalid denom: " ++ v)
  else .ok ()

def validateBlocksPerYear (v : Nat) : Except String Unit :=
  if v = 0 then .error "blocks per year must be positive" else .ok ()

def validateMaxProvisions (v : Dec) : Except String Unit :=
  if v.IsNegative then .error "max provisions cannot be negative" else .ok ()

/-- Every field passes its `ParamSetPairs` validator. -/
def Params.FieldsValid (p : Params) : Prop :=
  validateMintDenom p.MintDenom = .ok () ∧ validateInflationRateChange p.InflationRateChange = .ok () ∧
    validateInflationMax p.InflationMax = .ok () ∧ validateInflationMin p.InflationMin = .ok () ∧
    validateGoalBonded p.GoalBonded = .ok () ∧ validateBlocksPerYear p.BlocksPerYear = .ok () ∧
    validateMaxProvisions p.MaxProvisions = .ok ()

instance instDecidableFieldsValid (p : Params) : Decidable p.FieldsValid := by
  unfold Params.FieldsValid; infer_instance

/-- `int64(params.BlocksPerYear)`: the `uint64` read as a signed integer. -/
def int64OfUint64 (n : Nat) : Int :=
  let m : Nat := n % 2 ^ 64
  if m < 2 ^ 63 then m else (m : Int) - 2 ^ 64

/-! ### The minter -/

namespace Minter

/-- `NextInflationRate`: the change is positive below the bonded goal and negative
above it; the new rate is clamped into `[InflationMin, InflationMax]`. -/
def NextInflationRate (m : Minter) (params : Params) (bondedRatio : Dec) : Except String Dec := do
  let ratio ← bondedRatio.Quo params.GoalBonded
  let inflationRateChangePerYear := (OneDec.Sub ratio).Mul params.InflationRateChange
  let inflationRateChange ← inflationRateChangePerYear.Quo (NewDec (int64OfUint64 params.BlocksPerYear))
  let inflation := m.Inflation.Add inflationRateChange
  let inflation := if inflation.GT params.InflationMax then params.InflationMax else inflation
  return if inflation.LT params.InflationMin then params.InflationMin else inflation

def NextAnnualProvisions (m : Minter) (_params : Params) (totalSupply : Int) : Dec :=
  m.Inflation.MulInt totalSupply

/-- `BlockProvision`: a year's provisions over the blocks of a year, truncated. -/
def BlockProvision (m : Minter) (params : Params) : Except String Coin := do
  let provisionAmt ← m.AnnualProvisions.QuoInt (int64OfUint64 params.BlocksPerYear)
  NewCoin params.MintDenom provisionAmt.TruncateInt

end Minter

/-! ### Vesting -/

structure Vesting where
  Address : Address
  Amount : Coins
  StartTime : Int
  EndTime : Int
  deriving DecidableEq, Repr

/-- The coins of one vesting still locked at `blockTime`: all of them before the
start, the remaining fraction, rounded, during the vesting, none after the end. -/
def vestingCoins (blockTime : Int) (vesting : Vesting) : Except String Coins :=
  if vesting.EndTime ≤ blockTime then .ok []
  else if 0 < vesting.StartTime then
    if vesting.StartTime < blockTime then do
      let s ← (NewDec (vesting.EndTime - blockTime)).Quo (NewDec (vesting.EndTime - vesting.StartTime))
      vesting.Amount.mapM fun ovc => NewCoin ovc.denom ((NewDec ovc.amount).Mul s).RoundInt
    else .ok vesting.Amount
  else if vesting.StartTime = 0 then .ok vesting.Amount
  else .ok []

def CalculateVestingAmount (blockTime : Int) (vestings : List Vesting) : Except String Coins :=
  vestings.foldlM (fun amt vesting => return safeAdd amt (← vestingCoins blockTime vesting)) []

/-! ### The begin-block -/

/-- What the begin-block reads from the other modules. -/
structure Context where
  blockTime : Int
  stakingTokenSupply : Int
  bondedPool : Int
  deriving DecidableEq, Repr

/-- The staking keeper's `BondedRatio`: the bonded pool over the staking supply. -/
def BondedRatio (ctx : Context) : Except String Dec :=
  if 0 < ctx.stakingTokenSupply then (NewDec ctx.bondedPool).QuoInt ctx.stakingTokenSupply
  else .ok ZeroDec

/-- The mint's state: its minter, its params and the vesting list of the supply
module. -/
structure State where
  minter : Minter
  params : Params
  vestings : List Vesting
  deriving DecidableEq, Repr

/-- `BeginBlocker`: the state after the block and the amount minted; a panic is an
error. -/
def BeginBlocker (ctx : Context) (s : State) : Except String (State × Int) := do
  let minter := s.minter
  let params := s.params
  if minter.CurrentProvisions.GTE params.MaxProvisions then return (s, 0)
  let vestingAmount ← CalculateVestingAmount ctx.blockTime s.vestings
  let supplyExcludingVesting := ctx.stakingTokenSupply - AmountOf vestingAmount NativeTokenName
  -- `deleteFinishedVestings`
  let vestings := s.vestings.filter fun v => decide (ctx.blockTime < v.EndTime)
  let bondedRatio ← BondedRatio ctx
  let minter := { minter with Inflation := ← minter.NextInflationRate params bondedRatio }
  let minter := { minter with AnnualProvisions := minter.NextAnnualProvisions params supplyExcludingVesting }
  let mintedCoin ← minter.BlockProvision params
  let minter := { minter with CurrentProvisions := minter.CurrentProvisions.Add (NewDec mintedCoin.amount) }
  return (⟨minter, params, vestings⟩, mintedCoin.amount)

/-! ### What a block mints -/

theorem NewCoin_ok {denom : String} {amount : Int} {c : Coin} (h : NewCoin denom amount = .ok c) :
    c = ⟨denom, amount⟩ ∧ 0 ≤ amount := by
  unfold NewCoin at h
  split_ifs at h with hd hn
  cases h
  exact ⟨rfl, by omega⟩

theorem NextInflationRate_mem {m : Minter} {params : Params} {bondedRatio r : Dec}
    (horder : params.InflationMin.i ≤ params.InflationMax.i)
    (h : m.NextInflationRate params bondedRatio = .ok r) :
    params.InflationMin.i ≤ r.i ∧ r.i ≤ params.InflationMax.i := by
  unfold Minter.NextInflationRate at h
  simp only [bind, Except.bind, pure, Except.pure] at h
  split at h
  · cases h
  split at h
  · cases h
  cases h
  split_ifs with hmax hmin hmin <;> simp only [Dec.GT_iff, Dec.LT_iff] at * <;> omega

theorem BlockProvision_ok {m : Minter} {params : Params} {c : Coin} (h : m.BlockProvision params = .ok c) :
    c.denom = params.MintDenom ∧ 0 ≤ c.amount := by
  unfold Minter.BlockProvision at h
  simp only [bind, Except.bind] at h
  split at h
  · cases h
  obtain ⟨rfl, hnonneg⟩ := NewCoin_ok h
  exact ⟨rfl, hnonneg⟩

theorem BeginBlocker_provisions {ctx : Context} {s s' : State} {minted : Int}
    (h : BeginBlocker ctx s = .ok (s', minted)) :
    0 ≤ minted ∧ s'.minter.CurrentProvisions = s.minter.CurrentProvisions.Add (NewDec minted) := by
  unfold BeginBlocker at h
  by_cases hcap : s.minter.CurrentProvisions.GTE s.params.MaxProvisions
  · simp only [hcap, ↓reduceIte, pure, Except.pure, Except.ok.injEq, Prod.mk.injEq] at h
    obtain ⟨rfl, rfl⟩ := h
    simp [Dec.Add]
  · simp only [hcap, Bool.false_eq_true, ↓reduceIte, bind, Except.bind] at h
    split at h
    · cases h
    split at h
    · cases h
    split at h
    · cases h
    split at h
    · cases h
    rename_i coin hcoin
    simp only [pure, Except.pure, Except.ok.injEq, Prod.mk.injEq] at h
    obtain ⟨rfl, rfl⟩ := h
    exact ⟨(BlockProvision_ok hcoin).2, rfl⟩

/-- The default params with a bonded goal of zero. -/
def zeroGoalParams : Params := { DefaultParams with GoalBonded := ZeroDec }

/-- The default params with a cap of one token. -/
def smallCapParams : Params := { DefaultParams with MaxProvisions := NewDec 1 }

/-- A bonded goal of zero passes its validator and then divides the bonded ratio,
so the first block panics; and a `MaxProvisions` smaller than one block's provision
passes its validator and is overshot by the first block, which mints a whole
provision after checking the cap. -/
theorem BeginBlocker_exceeds_its_bounds :
    zeroGoalParams.FieldsValid ∧
      BeginBlocker ⟨0, 1000, 0⟩ ⟨DefaultInitialMinter, zeroGoalParams, []⟩ = .error "division by zero" ∧
    smallCapParams.FieldsValid ∧
      (BeginBlocker ⟨0, 100000000000000000000, 0⟩ ⟨DefaultInitialMinter, smallCapParams, []⟩).map
        (fun r => r.1.minter.CurrentProvisions.GT smallCapParams.MaxProvisions) = .ok true := by
  decide +kernel

end Mint

end Dipper
