import Dipper.Distribution.Types
import Dipper.Types.DecString
import Dipper.Slashing.Keeper

/-!
# The distribution keeper

The keeper methods of `distribution/keeper`: `validator.go` ends a validator's period and keeps
the reference counts of its historical rewards; `delegation.go` starts a delegation's reward
period, computes what it earned across the slashes since, and pays it out; `allocation.go`
splits the fees of the last block between the proposer, the validators by power and the
community pool; `keeper.go` and `fee_pool.go` withdraw commissions and spend from the community
pool; `hooks.go` is what the staking module calls; the handler and the `BeginBlocker` close the
module. The logs and events of the source are not modelled, nor the bech32 addresses in its
panic texts.
-/

namespace Dipper

namespace Distribution

open Dec StateExcept

/-- The block context the keeper reads: its height as `uint64(ctx.BlockHeight())`. -/
structure Ctx where
  BlockHeight : Nat
  deriving DecidableEq, Repr

/-- The text a Go error panics with. -/
def Err.text (e : Err) : String := e.desc.2.2

variable {σ : Type} (sk : StakingKeeper σ) (k : Keeper)

/-- A Go error turned into a panic, as `if err != nil { panic(err) }` does. -/
def orPanic {α : Type} (x : DM σ α) : DM σ α := tryCatch x fun e => panicD e.text

/-! ### Validators: `validator.go` -/

/-- `initializeValidator`: period 0 with one reference, the running period 1, no commission
and no outstanding rewards. -/
def initializeValidator (val : ValidatorI) : DM σ Unit := do
  SetValidatorHistoricalRewards val.GetOperator 0 (NewValidatorHistoricalRewards [] 1)
  SetValidatorCurrentRewards val.GetOperator (NewValidatorCurrentRewards [] 1)
  SetValidatorAccumulatedCommission val.GetOperator []
  SetValidatorOutstandingRewards val.GetOperator []

/-- `decrementReferenceCount`: a record whose count reaches zero is deleted. -/
def decrementReferenceCount (valAddr : Address) (period : Nat) : DM σ Unit := do
  let historical ← GetValidatorHistoricalRewards valAddr period
  if historical.ReferenceCount = 0 then panicD "cannot set negative reference count"
  let historical := { historical with ReferenceCount := historical.ReferenceCount - 1 }
  if historical.ReferenceCount = 0 then DeleteValidatorHistoricalReward valAddr period
  else SetValidatorHistoricalRewards valAddr period historical

def incrementReferenceCount (valAddr : Address) (period : Nat) : DM σ Unit := do
  let historical ← GetValidatorHistoricalRewards valAddr period
  if historical.ReferenceCount > 2 then panicD "reference count should never exceed 2"
  SetValidatorHistoricalRewards valAddr period { historical with ReferenceCount := historical.ReferenceCount + 1 }

/-- `incrementValidatorPeriod`: the running period ends with its rewards per token added to the
ratio of the period before (a validator without tokens gives them to the community pool), the
reference of the running period moves from the period before to the ended one, and the next
period starts. It returns the period that ended. -/
def incrementValidatorPeriod (val : ValidatorI) : DM σ Nat := do
  let rewards ← GetValidatorCurrentRewards val.GetOperator
  let current ← if val.GetTokens = 0 then do
      let feePool ← GetFeePool
      let outstanding ← GetValidatorOutstandingRewards val.GetOperator
      let feePool := { feePool with CommunityPool := DecCoins.safeAdd feePool.CommunityPool rewards.Rewards }
      let outstanding ← liftPanic (outstanding.Sub rewards.Rewards)
      SetFeePool feePool
      SetValidatorOutstandingRewards val.GetOperator outstanding
      pure []
    else liftPanic (rewards.Rewards.QuoDecTruncate (NewDec val.GetTokens))
  let historical := (← GetValidatorHistoricalRewards val.GetOperator (rewards.Period - 1)).CumulativeRewardRatio
  decrementReferenceCount val.GetOperator (rewards.Period - 1)
  SetValidatorHistoricalRewards val.GetOperator rewards.Period
    (NewValidatorHistoricalRewards (DecCoins.safeAdd historical current) 1)
  SetValidatorCurrentRewards val.GetOperator (NewValidatorCurrentRewards [] (rewards.Period + 1))
  return rewards.Period

/-- `updateValidatorSlashFraction`: the running period ends and the slash event, which
references it, is stored under the block height and that period. -/
def updateValidatorSlashFraction (ctx : Ctx) (valAddr : Address) (fraction : Dec) : DM σ Unit := do
  if fraction.GT OneDec || fraction.LT ZeroDec then
    panicD ("fraction must be >=0 and <=1, current fraction: " ++ .ofList (DecString fraction))
  let val ← mustBePresent (sk.Validator (← get).staking valAddr)
  let newPeriod ← incrementValidatorPeriod val
  incrementReferenceCount valAddr newPeriod
  let slashEvent := NewValidatorSlashEvent newPeriod fraction
  SetValidatorSlashEvent valAddr ctx.BlockHeight newPeriod slashEvent

/-! ### Delegations: `delegation.go` -/

/-- `initializeDelegation`: the delegation starts after the period that just ended, which it
references, with its shares' worth in tokens, truncated, as its stake. -/
def initializeDelegation (ctx : Ctx) (val del : Address) : DM σ Unit := do
  let previousPeriod := (← GetValidatorCurrentRewards val).Period - 1
  incrementReferenceCount val previousPeriod
  let s ← get
  let validator ← mustBePresent (sk.Validator s.staking val)
  let delegation ← mustBePresent (sk.Delegation s.staking del val)
  let stake ← liftPanic (validator.TokensFromSharesTruncated delegation.Shares)
  SetDelegatorStartingInfo val del (NewDelegatorStartingInfo previousPeriod stake ctx.BlockHeight)

/-- `calculateDelegationRewardsBetween`: the stake times the growth of the ratio between the
two periods. The subtraction panics on a negative coin before the check after it can. -/
def calculateDelegationRewardsBetween (val : ValidatorI) (startingPeriod endingPeriod : Nat) (stake : Dec) :
    DM σ DecCoins := do
  if startingPeriod > endingPeriod then panicD "startingPeriod cannot be greater than endingPeriod"
  if stake.LT ZeroDec then panicD "stake should not be negative"
  let starting ← GetValidatorHistoricalRewards val.GetOperator startingPeriod
  let ending ← GetValidatorHistoricalRewards val.GetOperator endingPeriod
  let difference ← liftPanic (ending.CumulativeRewardRatio.Sub starting.CumulativeRewardRatio)
  if difference.IsAnyNegative then panicD "negative rewards should not be possible"
  liftPanic (difference.MulDecTruncate stake)

/-- One slash event of the loop of `calculateDelegationRewards`: an event that ended a later
period closes the stretch since the last one, and the stake shrinks by its fraction. -/
def slashStep (val : ValidatorI) (acc : DecCoins × Nat × Dec) (event : Nat × ValidatorSlashEvent) :
    DM σ (DecCoins × Nat × Dec) := do
  let (rewards, startingPeriod, stake) := acc
  let endingPeriod := event.2.ValidatorPeriod
  if endingPeriod > startingPeriod then
    let r ← calculateDelegationRewardsBetween val startingPeriod endingPeriod stake
    pure (DecCoins.safeAdd rewards r, endingPeriod, stake.MulTruncate (OneDec.Sub event.2.Fraction))
  else pure acc

/-- `calculateDelegationRewards`: the rewards of each stretch between the slashes since the
delegation started, then of the last stretch, with the stake checked against the delegation's
current worth (a shortfall of up to three units is rounding and forgiven). -/
def calculateDelegationRewards (ctx : Ctx) (val : ValidatorI) (del : Staking.Delegation) (endingPeriod : Nat) :
    DM σ DecCoins := do
  let startingInfo ← GetDelegatorStartingInfo del.ValidatorAddress del.DelegatorAddress
  if startingInfo.Height = ctx.BlockHeight then return []
  let startingHeight := startingInfo.Height
  let endingHeight := ctx.BlockHeight
  let (rewards, startingPeriod, stake) ← if endingHeight > startingHeight then do
      let events ← IterateValidatorSlashEventsBetween del.ValidatorAddress startingHeight endingHeight
      events.foldlM (slashStep val) ([], startingInfo.PreviousPeriod, startingInfo.Stake)
    else pure ([], startingInfo.PreviousPeriod, startingInfo.Stake)
  let currentStake ← liftPanic (val.TokensFromShares del.Shares)
  let stake ← if stake.GT currentStake then do
      let marginOfErr := SmallestDec.MulInt 3
      if stake.LTE (currentStake.Add marginOfErr) then pure currentStake
      else panicD ("calculated final stake for delegator greater than current stake\n\tfinal stake:\t" ++
        .ofList (DecString stake) ++ "\n\tcurrent stake:\t" ++ .ofList (DecString currentStake))
    else pure stake
  let r ← calculateDelegationRewardsBetween val startingPeriod endingPeriod stake
  return DecCoins.safeAdd rewards r

/-- `withdrawDelegationRewards`: the running period ends, the delegation's rewards (cut down to
what is outstanding) are paid in whole coins to its withdraw address and the fractions go to the
community pool, and the delegation's starting info and its reference go. -/
def withdrawDelegationRewards (ctx : Ctx) (val : ValidatorI) (del : Staking.Delegation) : DM σ Coins := do
  if !(← HasDelegatorStartingInfo del.ValidatorAddress del.DelegatorAddress) then throw .NoValidatorDistInfo
  let endingPeriod ← incrementValidatorPeriod val
  let rewardsRaw ← calculateDelegationRewards ctx val del endingPeriod
  let outstanding ← GetValidatorOutstandingRewards del.ValidatorAddress
  let rewards ← liftPanic (rewardsRaw.Intersect outstanding)
  let (coins, remainder) ← liftPanic rewards.TruncateDecimal
  if !coins.IsZero then
    let withdrawAddr ← GetDelegatorWithdrawAddr del.DelegatorAddress
    SendCoinsFromModuleToAccount k withdrawAddr coins
  SetValidatorOutstandingRewards del.ValidatorAddress (← liftPanic (outstanding.Sub rewards))
  let feePool ← GetFeePool
  SetFeePool { feePool with CommunityPool := DecCoins.safeAdd feePool.CommunityPool remainder }
  let startingInfo ← GetDelegatorStartingInfo del.ValidatorAddress del.DelegatorAddress
  decrementReferenceCount del.ValidatorAddress startingInfo.PreviousPeriod
  DeleteDelegatorStartingInfo del.ValidatorAddress del.DelegatorAddress
  return coins

/-! ### Allocation: `allocation.go` -/

/-- `AllocateTokensToValidator`: the commission's share to the validator, the rest to its
running period, all of it to its outstanding rewards. -/
def AllocateTokensToValidator (val : ValidatorI) (tokens : DecCoins) : DM σ Unit := do
  let commission ← liftPanic (tokens.MulDec val.GetCommission)
  let shared ← liftPanic (tokens.Sub commission)
  let currentCommission ← GetValidatorAccumulatedCommission val.GetOperator
  SetValidatorAccumulatedCommission val.GetOperator (DecCoins.safeAdd currentCommission commission)
  let currentRewards ← GetValidatorCurrentRewards val.GetOperator
  SetValidatorCurrentRewards val.GetOperator
    { currentRewards with Rewards := DecCoins.safeAdd currentRewards.Rewards shared }
  let outstanding ← GetValidatorOutstandingRewards val.GetOperator
  SetValidatorOutstandingRewards val.GetOperator (DecCoins.safeAdd outstanding tokens)

/-- One vote of the loop of `AllocateTokens`: the validator's share by power of what is left for
the votes. -/
def allocateVote (feesCollected : DecCoins) (voteMultiplier : Dec) (totalPreviousPower : Int)
    (remaining : DecCoins) (vote : Slashing.VoteInfo) : DM σ DecCoins := do
  let validator := sk.ValidatorByConsAddr (← get).staking vote.Address
  let powerFraction ← liftPanic ((NewDec vote.Power).QuoTruncate (NewDec totalPreviousPower))
  let reward ← liftPanic ((← liftPanic (feesCollected.MulDecTruncate voteMultiplier)).MulDecTruncate powerFraction)
  AllocateTokensToValidator (← mustBePresent validator) reward
  liftPanic (remaining.Sub reward)

/-- `AllocateTokens`: the fees collected in the last block move to the module's account; the
previous proposer gets its base and bonus share, each validator that voted its share of what is
left by power, and the community pool the rest (all of it when no power voted). -/
def AllocateTokens (sumPreviousPrecommitPower totalPreviousPower : Int) (previousProposer : Address)
    (previousVotes : List Slashing.VoteInfo) : DM σ Unit := do
  let feesCollectedInt ← GetFeeCollectorCoins k
  let feesCollected ← liftPanic (NewDecCoins feesCollectedInt)
  orPanic (SendCoinsFromFeeCollector k feesCollectedInt)
  let feePool ← GetFeePool
  if totalPreviousPower = 0 then
    SetFeePool { feePool with CommunityPool := DecCoins.safeAdd feePool.CommunityPool feesCollected }
    return
  let previousFractionVotes ← liftPanic ((NewDec sumPreviousPrecommitPower).Quo (NewDec totalPreviousPower))
  let params := (← get).params
  let proposerMultiplier := params.BaseProposerReward.Add (params.BonusProposerReward.MulTruncate previousFractionVotes)
  let proposerReward ← liftPanic (feesCollected.MulDecTruncate proposerMultiplier)
  let remaining ← match sk.ValidatorByConsAddr (← get).staking previousProposer with
    | some proposerValidator => do
      AllocateTokensToValidator proposerValidator proposerReward
      liftPanic (feesCollected.Sub proposerReward)
    | none => pure feesCollected
  let voteMultiplier := (OneDec.Sub proposerMultiplier).Sub params.CommunityTax
  let remaining ← previousVotes.foldlM (allocateVote sk feesCollected voteMultiplier totalPreviousPower) remaining
  SetFeePool { feePool with CommunityPool := DecCoins.safeAdd feePool.CommunityPool remaining }

/-! ### Withdrawals and the community pool: `keeper.go`, `fee_pool.go` -/

def SetWithdrawAddr (delegatorAddr withdrawAddr : Address) : DM σ Unit := do
  if k.blacklistedAddrs.contains withdrawAddr then throw .Unauthorized
  if !(← get).params.WithdrawAddrEnabled then throw .SetWithdrawAddrDisabled
  SetDelegatorWithdrawAddr delegatorAddr withdrawAddr

/-- `WithdrawDelegationRewards`: the rewards paid out, and the delegation started afresh. -/
def WithdrawDelegationRewards (ctx : Ctx) (delAddr valAddr : Address) : DM σ Coins := do
  let s ← get
  let some val := sk.Validator s.staking valAddr | throw .NoValidatorDistInfo
  let some del := sk.Delegation s.staking delAddr valAddr | throw .EmptyDelegationDistInfo
  let rewards ← withdrawDelegationRewards k ctx val del
  initializeDelegation sk ctx valAddr delAddr
  return rewards

/-- `WithdrawValidatorCommission`: the whole coins of the commission are paid, the fractions
stay for later. -/
def WithdrawValidatorCommission (valAddr : Address) : DM σ Coins := do
  let accumCommission ← GetValidatorAccumulatedCommission valAddr
  if accumCommission.IsZero then throw .NoValidatorCommission
  let (commission, remainder) ← liftPanic accumCommission.TruncateDecimal
  SetValidatorAccumulatedCommission valAddr remainder
  let outstanding ← GetValidatorOutstandingRewards valAddr
  SetValidatorOutstandingRewards valAddr (← liftPanic (outstanding.Sub (← liftPanic (NewDecCoins commission))))
  if !commission.IsZero then
    let withdrawAddr ← GetDelegatorWithdrawAddr valAddr
    SendCoinsFromModuleToAccount k withdrawAddr commission
  return commission

def DistributeFromFeePool (amount : Coins) (receiveAddr : Address) : DM σ Unit := do
  let feePool ← GetFeePool
  let (newPool, negative) := feePool.CommunityPool.SafeSub (← liftPanic (NewDecCoins amount))
  if negative then throw .BadDistribution
  SendCoinsFromModuleToAccount k receiveAddr amount
  SetFeePool { feePool with CommunityPool := newPool }

def HandleCommunityPoolSpendProposal (recipient : Address) (amount : Coins) : DM σ Unit := do
  if k.blacklistedAddrs.contains recipient then throw .Unauthorized
  DistributeFromFeePool k amount recipient

/-! ### The staking hooks: `hooks.go` -/

def AfterValidatorCreated (valAddr : Address) : DM σ Unit := do
  initializeValidator (← mustBePresent (sk.Validator (← get).staking valAddr))

/-- `AfterValidatorRemoved`: the commission is paid out (its fractions and the outstanding
rewards go to the community pool) and every record of the validator is deleted. -/
def AfterValidatorRemoved (valAddr : Address) : DM σ Unit := do
  let outstanding ← GetValidatorOutstandingRewards valAddr
  let commission ← GetValidatorAccumulatedCommission valAddr
  let outstanding ← if !commission.IsZero then do
      let outstanding ← liftPanic (outstanding.Sub commission)
      let (coins, remainder) ← liftPanic commission.TruncateDecimal
      let feePool ← GetFeePool
      SetFeePool { feePool with CommunityPool := DecCoins.safeAdd feePool.CommunityPool remainder }
      if !coins.IsZero then
        let withdrawAddr ← GetDelegatorWithdrawAddr valAddr
        orPanic (SendCoinsFromModuleToAccount k withdrawAddr coins)
      pure outstanding
    else pure outstanding
  let feePool ← GetFeePool
  SetFeePool { feePool with CommunityPool := DecCoins.safeAdd feePool.CommunityPool outstanding }
  DeleteValidatorOutstandingRewards valAddr
  DeleteValidatorAccumulatedCommission valAddr
  DeleteValidatorSlashEvents valAddr
  DeleteValidatorHistoricalRewards valAddr
  DeleteValidatorCurrentRewards valAddr

def BeforeDelegationCreated (valAddr : Address) : DM σ Unit := do
  discard <| incrementValidatorPeriod (← mustBePresent (sk.Validator (← get).staking valAddr))

def BeforeDelegationSharesModified (ctx : Ctx) (delAddr valAddr : Address) : DM σ Unit := do
  let s ← get
  let val ← mustBePresent (sk.Validator s.staking valAddr)
  let del ← mustBePresent (sk.Delegation s.staking delAddr valAddr)
  discard <| orPanic (withdrawDelegationRewards k ctx val del)

def AfterDelegationModified (ctx : Ctx) (delAddr valAddr : Address) : DM σ Unit :=
  initializeDelegation sk ctx valAddr delAddr

def BeforeValidatorSlashed (ctx : Ctx) (valAddr : Address) (fraction : Dec) : DM σ Unit :=
  updateValidatorSlashFraction sk ctx valAddr fraction

/-! ### Messages and the begin-block: `handler.go`, `abci.go` -/

/-- The three messages of `types/msg.go`. -/
inductive Msg
  | SetWithdrawAddress (delegatorAddress withdrawAddress : Address)
  | WithdrawDelegatorReward (delegatorAddress validatorAddress : Address)
  | WithdrawValidatorCommission (validatorAddress : Address)
  deriving DecidableEq, Repr

def Msg.ValidateBasic : Msg → Except Err Unit
  | .SetWithdrawAddress del withdraw =>
    if del.isEmpty then .error .EmptyDelegatorAddr
    else if withdraw.isEmpty then .error .EmptyWithdrawAddr
    else .ok ()
  | .WithdrawDelegatorReward del val =>
    if del.isEmpty then .error .EmptyDelegatorAddr
    else if val.isEmpty then .error .EmptyValidatorAddr
    else .ok ()
  | .WithdrawValidatorCommission val => if val.isEmpty then .error .EmptyValidatorAddr else .ok ()

/-- `NewHandler`: the events of the source are not modelled. -/
def NewHandler (ctx : Ctx) : Msg → DM σ Unit
  | .SetWithdrawAddress del withdraw => SetWithdrawAddr k del withdraw
  | .WithdrawDelegatorReward del val => discard (WithdrawDelegationRewards sk k ctx del val)
  | .WithdrawValidatorCommission val => discard (WithdrawValidatorCommission k val)

/-- `BeginBlocker`: from the second block on, the fees of the last block are allocated to its
proposer and voters; then this block's proposer is recorded. -/
def BeginBlocker (ctx : Ctx) (votes : List Slashing.VoteInfo) (proposerAddress : Address) : DM σ Unit := do
  let previousTotalPower := (votes.map (·.Power)).sum
  let sumPreviousPrecommitPower := ((votes.filter (·.SignedLastBlock)).map (·.Power)).sum
  if ctx.BlockHeight > 1 then
    let previousProposer ← GetPreviousProposerConsAddr
    AllocateTokens sk k sumPreviousPrecommitPower previousTotalPower previousProposer votes
  SetPreviousProposerConsAddr proposerAddress

end Distribution

end Dipper
