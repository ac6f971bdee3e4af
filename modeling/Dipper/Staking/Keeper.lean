import Dipper.Staking.Types

/-!
# The staking keeper

The staking store (validators with their consensus-address and power indexes,
delegations, unbonding delegations, redelegations, the last bonded powers and the
three time queues), the bank as the keeper reaches it, and the keeper methods of
`keeper/validator.go`, `keeper/delegation.go` and `keeper/pool.go`. A keeper
method returns its Go error through `ExceptT`, keeping whatever it wrote before,
and panics through the `Except String` underneath. Stores are association lists in
insertion order; only the power index is iterated in key order, where the source
depends on it. A call to the distribution hooks is recorded with the stores it reads.
-/

namespace Dipper

namespace Staking

open Dec Validator

/-- The bank, for the bond denom: the coins of each account (an absent key is a
missing account), of the two pools, and the total supply. -/
structure Bank where
  accounts : AList (fun _ : Address => Int)
  bondedPool : Int
  notBondedPool : Int
  supply : Int

/-- The two module accounts of the staking module. -/
inductive Pool
  | BondedPoolName | NotBondedPoolName
  deriving DecidableEq, Repr

/-- The validators, their consensus-address index and the delegations: what the
distribution module reads of staking. -/
structure View where
  validators : AList (fun _ : Address => Validator)
  validatorsByConsAddr : AList (fun _ : Address => Address)
  delegations : AList (fun _ : Address × Address => Delegation)

/-- A call of the keeper to the hooks of `keeper/hooks.go` that the distribution module
implements, with the view each hook reads. The hook before a delegation's write and the
`AfterDelegationModified` after it are one call, recorded when the second is made. -/
inductive HookCall
  | AfterValidatorCreated (valAddr : Address) (view : View)
  | Delegated (delAddr valAddr : Address) (before after : View)
  | Unbonded (delAddr valAddr : Address) (before after : View)
  | AfterValidatorRemoved (valAddr : Address) (view : View)
  | BeforeValidatorSlashed (valAddr : Address) (fraction : Dec) (view : View)

/-- The staking store, the bank, the block header, and the hooks called so far. -/
structure State where
  params : Params
  validators : AList (fun _ : Address => Validator)
  validatorsByConsAddr : AList (fun _ : Address => Address)
  validatorsByPower : AList (fun _ : Bytes => Address)
  delegations : AList (fun _ : Address × Address => Delegation)
  ubds : AList (fun _ : Address × Address => UnbondingDelegation)
  redelegations : AList (fun _ : Address × Address × Address => Redelegation)
  lastValidatorPower : AList (fun _ : Address => Int)
  lastTotalPower : Int
  validatorQueue : AList (fun _ : Int => List Address)
  ubdQueue : AList (fun _ : Int => List (Address × Address))
  redelegationQueue : AList (fun _ : Int => List (Address × Address × Address))
  bank : Bank
  height : Int
  time : Int
  hooks : List HookCall

def State.view (s : State) : View := ⟨s.validators, s.validatorsByConsAddr, s.delegations⟩

/-- A keeper method on the store. -/
abbrev KM := ExceptT Err (StateT State (Except String))

def panicK {α : Type} (msg : String) : KM α := ExceptT.lift (StateT.lift (.error msg))

def liftPanic {α : Type} (x : Except String α) : KM α := ExceptT.lift (StateT.lift x)

/-- A Go function called from a keeper method. -/
def liftStake {α : Type} (x : StakeM α) : KM α :=
  ExceptT.mk (StateT.lift x.run)

/-- A call to the hooks, which read the store as it is now. -/
def callHook (call : View → HookCall) : KM Unit :=
  modify fun s => { s with hooks := s.hooks ++ [call s.view] }

/-! ### Validators and their indexes -/

/-- `getValidatorPowerRank`: the prefix, the consensus power as a big-endian
`uint64`, and the operator address with every bit flipped, copied into 20 bytes. -/
def getValidatorPowerRank (v : Validator) : Bytes :=
  [0x23] ++ natToBytesFixed 8 (u64 (TokensToConsensusPower v.Tokens)) ++
    ((v.OperatorAddress.map (~~~ ·)).take 20 ++ List.replicate (20 - v.OperatorAddress.length) 0)

def GetValidatorsByPowerIndexKey (v : Validator) : Bytes := getValidatorPowerRank v

def GetValidator (addr : Address) : KM (Option Validator) :=
  return (← get).validators.lookup addr

def mustGetValidator (addr : Address) : KM Validator := do
  match ← GetValidator addr with
  | some v => return v
  | none => panicK "validator record not found for address"

def GetValidatorByConsAddr (consAddr : Address) : KM (Option Validator) := do
  match (← get).validatorsByConsAddr.lookup consAddr with
  | none => return none
  | some opAddr => GetValidator opAddr

def mustGetValidatorByConsAddr (consAddr : Address) : KM Validator := do
  match ← GetValidatorByConsAddr consAddr with
  | some v => return v
  | none => panicK "validator with consensus-Address not found"

def SetValidator (v : Validator) : KM Unit :=
  modify fun s => { s with validators := s.validators.insert v.OperatorAddress v }

def SetValidatorByConsAddr (v : Validator) : KM Unit :=
  modify fun s => { s with validatorsByConsAddr := s.validatorsByConsAddr.insert v.ConsAddress v.OperatorAddress }

/-- `SetValidatorByPowerIndex`: jailed validators are not kept in the power index. -/
def SetValidatorByPowerIndex (v : Validator) : KM Unit :=
  if v.Jailed then pure ()
  else modify fun s =>
    { s with validatorsByPower := s.validatorsByPower.insert (GetValidatorsByPowerIndexKey v) v.OperatorAddress }

def DeleteValidatorByPowerIndex (v : Validator) : KM Unit :=
  modify fun s => { s with validatorsByPower := s.validatorsByPower.erase (GetValidatorsByPowerIndexKey v) }

def SetNewValidatorByPowerIndex (v : Validator) : KM Unit :=
  modify fun s =>
    { s with validatorsByPower := s.validatorsByPower.insert (GetValidatorsByPowerIndexKey v) v.OperatorAddress }

def AddValidatorTokensAndShares (v : Validator) (tokensToAdd : Int) (isValidatorOperator : Bool) :
    KM (Validator × Dec) := do
  DeleteValidatorByPowerIndex v
  let (v, addedShares) ← liftPanic (v.AddTokensFromDel tokensToAdd isValidatorOperator)
  SetValidator v
  SetValidatorByPowerIndex v
  return (v, addedShares)

def RemoveValidatorTokensAndShares (v : Validator) (sharesToRemove : Dec) (isValidatorOperator : Bool) :
    KM (Validator × Int) := do
  DeleteValidatorByPowerIndex v
  let (v, removedTokens) ← liftPanic (v.RemoveDelShares sharesToRemove isValidatorOperator)
  SetValidator v
  SetValidatorByPowerIndex v
  return (v, removedTokens)

def RemoveValidatorTokens (v : Validator) (tokensToRemove : Int) : KM Validator := do
  DeleteValidatorByPowerIndex v
  let v ← liftPanic (v.RemoveTokens tokensToRemove)
  SetValidator v
  SetValidatorByPowerIndex v
  return v

/-- `RemoveValidator`: only an unbonded validator without tokens goes, with its
indexes. -/
def RemoveValidator (address : Address) : KM Unit := do
  match ← GetValidator address with
  | none => pure ()
  | some v =>
    if !v.IsUnbonded then panicK "cannot call RemoveValidator on bonded or unbonding validators"
    if 0 < v.Tokens then panicK "attempting to remove a validator which still contains tokens"
    modify fun s => { s with
      validators := s.validators.erase address
      validatorsByConsAddr := s.validatorsByConsAddr.erase v.ConsAddress
      validatorsByPower := s.validatorsByPower.erase (GetValidatorsByPowerIndexKey v) }
    callHook (.AfterValidatorRemoved v.OperatorAddress)

def jailValidator (v : Validator) : KM Unit := do
  if v.Jailed then panicK "cannot jail already jailed validator"
  let v := { v with Jailed := true }
  SetValidator v
  DeleteValidatorByPowerIndex v

def unjailValidator (v : Validator) : KM Unit := do
  if !v.Jailed then panicK "cannot unjail already unjailed validator"
  let v := { v with Jailed := false }
  SetValidator v
  SetValidatorByPowerIndex v

/-! ### The validator queue -/

def InsertValidatorQueue (v : Validator) : KM Unit :=
  modify fun s =>
    let timeSlice := (s.validatorQueue.lookup v.UnbondingCompletionTime).getD []
    { s with validatorQueue := s.validatorQueue.insert v.UnbondingCompletionTime (timeSlice ++ [v.OperatorAddress]) }

def DeleteValidatorQueue (v : Validator) : KM Unit :=
  modify fun s =>
    let newTimeSlice := ((s.validatorQueue.lookup v.UnbondingCompletionTime).getD []).filter
      (· != v.OperatorAddress)
    { s with validatorQueue := if newTimeSlice.isEmpty then s.validatorQueue.erase v.UnbondingCompletionTime
        else s.validatorQueue.insert v.UnbondingCompletionTime newTimeSlice }

/-! ### Delegations, unbonding delegations and redelegations -/

def GetDelegation (delAddr valAddr : Address) : KM (Option Delegation) :=
  return (← get).delegations.lookup (delAddr, valAddr)

def SetDelegation (d : Delegation) : KM Unit :=
  modify fun s => { s with delegations := s.delegations.insert (d.DelegatorAddress, d.ValidatorAddress) d }

def RemoveDelegation (d : Delegation) : KM Unit :=
  modify fun s => { s with delegations := s.delegations.erase (d.DelegatorAddress, d.ValidatorAddress) }

def GetUnbondingDelegation (delAddr valAddr : Address) : KM (Option UnbondingDelegation) :=
  return (← get).ubds.lookup (delAddr, valAddr)

def SetUnbondingDelegation (ubd : UnbondingDelegation) : KM Unit :=
  modify fun s => { s with ubds := s.ubds.insert (ubd.DelegatorAddress, ubd.ValidatorAddress) ubd }

def RemoveUnbondingDelegation (ubd : UnbondingDelegation) : KM Unit :=
  modify fun s => { s with ubds := s.ubds.erase (ubd.DelegatorAddress, ubd.ValidatorAddress) }

def GetUnbondingDelegationsFromValidator (valAddr : Address) : KM (List UnbondingDelegation) :=
  return (← get).ubds.entries.filterMap fun e =>
    if e.1.2 = valAddr then some e.2 else none

def HasMaxUnbondingDelegationEntries (delAddr valAddr : Address) : KM Bool := do
  match ← GetUnbondingDelegation delAddr valAddr with
  | none => return false
  | some ubd => return decide ((← get).params.MaxEntries ≤ ubd.Entries.length)

/-- `SetUnbondingDelegationEntry`: a new entry at the end, in a new record if none. -/
def SetUnbondingDelegationEntry (delAddr valAddr : Address) (creationHeight minTime balance : Int) :
    KM UnbondingDelegation := do
  let entry : UnbondingDelegationEntry := ⟨creationHeight, minTime, balance, balance⟩
  let ubd := match ← GetUnbondingDelegation delAddr valAddr with
    | some ubd => { ubd with Entries := ubd.Entries ++ [entry] }
    | none => ⟨delAddr, valAddr, [entry]⟩
  SetUnbondingDelegation ubd
  return ubd

def InsertUBDQueue (ubd : UnbondingDelegation) (completionTime : Int) : KM Unit :=
  modify fun s =>
    let timeSlice := (s.ubdQueue.lookup completionTime).getD []
    { s with ubdQueue := s.ubdQueue.insert completionTime
                           (timeSlice ++ [(ubd.DelegatorAddress, ubd.ValidatorAddress)]) }

def GetRedelegation (delAddr valSrcAddr valDstAddr : Address) : KM (Option Redelegation) :=
  return (← get).redelegations.lookup (delAddr, valSrcAddr, valDstAddr)

def SetRedelegation (red : Redelegation) : KM Unit :=
  modify fun s =>
    let key := (red.DelegatorAddress, red.ValidatorSrcAddress, red.ValidatorDstAddress)
    { s with redelegations := s.redelegations.insert key red }

def RemoveRedelegation (red : Redelegation) : KM Unit :=
  modify fun s =>
    let key := (red.DelegatorAddress, red.ValidatorSrcAddress, red.ValidatorDstAddress)
    { s with redelegations := s.redelegations.erase key }

def GetRedelegationsFromSrcValidator (valAddr : Address) : KM (List Redelegation) :=
  return (← get).redelegations.entries.filterMap fun e =>
    if e.1.2.1 = valAddr then some e.2 else none

/-- `HasReceivingRedelegation`: some redelegation of the delegator ends at the validator. -/
def HasReceivingRedelegation (delAddr valDstAddr : Address) : KM Bool :=
  return (← get).redelegations.entries.any fun e => e.1.1 = delAddr ∧ e.1.2.2 = valDstAddr

def HasMaxRedelegationEntries (delAddr valSrcAddr valDstAddr : Address) : KM Bool := do
  match ← GetRedelegation delAddr valSrcAddr valDstAddr with
  | none => return false
  | some red => return decide ((← get).params.MaxEntries ≤ red.Entries.length)

def SetRedelegationEntry (delAddr valSrcAddr valDstAddr : Address) (creationHeight minTime balance : Int)
    (_sharesSrc sharesDst : Dec) : KM Redelegation := do
  let entry : RedelegationEntry := ⟨creationHeight, minTime, balance, sharesDst⟩
  let red := match ← GetRedelegation delAddr valSrcAddr valDstAddr with
    | some red => { red with Entries := red.Entries ++ [entry] }
    | none => ⟨delAddr, valSrcAddr, valDstAddr, [entry]⟩
  SetRedelegation red
  return red

def InsertRedelegationQueue (red : Redelegation) (completionTime : Int) : KM Unit :=
  modify fun s =>
    let timeSlice := (s.redelegationQueue.lookup completionTime).getD []
    let triplet := (red.DelegatorAddress, red.ValidatorSrcAddress, red.ValidatorDstAddress)
    { s with redelegationQueue := s.redelegationQueue.insert completionTime (timeSlice ++ [triplet]) }

/-! ### The bank and the pools -/

def poolBalance (b : Bank) : Pool → Int
  | .BondedPoolName => b.bondedPool
  | .NotBondedPoolName => b.notBondedPool

def setPool (b : Bank) (p : Pool) (amt : Int) : Bank :=
  match p with
  | .BondedPoolName => { b with bondedPool := amt }
  | .NotBondedPoolName => { b with notBondedPool := amt }

def modifyBank (f : Bank → Bank) : KM Unit := modify fun s => { s with bank := f s.bank }

/-- `sdk.NewCoin` panics on a negative amount. -/
def NewCoin (amt : Int) : KM Unit :=
  if amt < 0 then panicK "negative coin amount" else pure ()

/-- `DelegateCoinsFromAccountToModule`: the account must exist and hold the amount. -/
def DelegateCoinsFromAccountToModule (delAddr : Address) (pool : Pool) (amt : Int) : KM Unit := do
  NewCoin amt
  match (← get).bank.accounts.lookup delAddr with
  | none => throw .UnknownAddress
  | some bal =>
    if bal < amt then throw .InsufficientFunds
    modifyBank fun b => setPool { b with accounts := b.accounts.insert delAddr (bal - amt) } pool
      (poolBalance b pool + amt)

/-- `UndelegateCoinsFromModuleToAccount`: the account must exist and the pool
hold the amount. -/
def UndelegateCoinsFromModuleToAccount (pool : Pool) (delAddr : Address) (amt : Int) : KM Unit := do
  NewCoin amt
  match (← get).bank.accounts.lookup delAddr with
  | none => throw .UnknownAddress
  | some bal =>
    if poolBalance (← get).bank pool < amt then throw .InsufficientFunds
    modifyBank fun b => setPool { b with accounts := b.accounts.insert delAddr (bal + amt) } pool
      (poolBalance b pool - amt)

def SendCoinsFromModuleToModule (src dst : Pool) (amt : Int) : KM Unit := do
  NewCoin amt
  if poolBalance (← get).bank src < amt then throw .InsufficientFunds
  modifyBank fun b => setPool b src (poolBalance b src - amt)
  modifyBank fun b => setPool b dst (poolBalance b dst + amt)

/-- `BurnCoins`: a shortfall in the pool panics; the supply shrinks. -/
def BurnCoins (pool : Pool) (amt : Int) : KM Unit := do
  NewCoin amt
  if poolBalance (← get).bank pool < amt then panicK "insufficient account funds"
  modifyBank fun b => { setPool b pool (poolBalance b pool - amt) with supply := b.supply - amt }

/-- A failed transfer between the pools panics. -/
def moveBetweenPools (src dst : Pool) (tokens : Int) : KM Unit :=
  tryCatch (SendCoinsFromModuleToModule src dst tokens) fun _ => panicK "insufficient account funds"

def bondedTokensToNotBonded (tokens : Int) : KM Unit :=
  moveBetweenPools .BondedPoolName .NotBondedPoolName tokens

def notBondedTokensToBonded (tokens : Int) : KM Unit :=
  moveBetweenPools .NotBondedPoolName .BondedPoolName tokens

def burnBondedTokens (amt : Int) : KM Unit :=
  if amt ≤ 0 then pure () else BurnCoins .BondedPoolName amt

def burnNotBondedTokens (amt : Int) : KM Unit :=
  if amt ≤ 0 then pure () else BurnCoins .NotBondedPoolName amt

/-! ### Delegating and unbonding -/

/-- `Delegate`: the tokens come from the account (`subtractAccount`) or, for a
redelegation, move between the pools; the lever is checked before the shares are
issued. -/
def Delegate (delAddr : Address) (bondAmt : Int) (tokenSrc : BondStatus) (validator : Validator)
    (subtractAccount : Bool) : KM Dec := do
  if validator.InvalidExRate then throw .DelegatorShareExRateInvalid
  let delegation := (← GetDelegation delAddr validator.OperatorAddress).getD
    ⟨delAddr, validator.OperatorAddress, ZeroDec⟩
  -- `BeforeDelegationCreated` or `BeforeDelegationSharesModified` reads the store here
  let before := (← get).view
  if subtractAccount then
    if tokenSrc = .Bonded then panicK "delegation token source cannot be bonded"
    let sendName := if validator.IsBonded then Pool.BondedPoolName else Pool.NotBondedPoolName
    DelegateCoinsFromAccountToModule delegation.DelegatorAddress sendName bondAmt
  else
    if tokenSrc != .Bonded && validator.IsBonded then notBondedTokensToBonded bondAmt
    else if tokenSrc = .Bonded && !validator.IsBonded then bondedTokensToNotBonded bondAmt
  let isValidatorOperator := delegation.DelegatorAddress == validator.OperatorAddress
  let lever ← liftPanic (validator.BondedLever isValidatorOperator (NewDec bondAmt))
  if lever.GT (← get).params.MaxLever then throw .DelegatorShareExceedMaxLever
  let (_, newShares) ← AddValidatorTokensAndShares validator bondAmt isValidatorOperator
  SetDelegation { delegation with Shares := delegation.Shares.Add newShares }
  callHook (.Delegated delAddr validator.OperatorAddress before)
  return newShares

/-- `unbond`: an operator whose remaining self-delegation falls below its minimum,
or whose lever check fails, is jailed first. -/
def unbond (delAddr valAddr : Address) (shares : Dec) : KM Int := do
  let some delegation ← GetDelegation delAddr valAddr | throw .NoDelegatorForAddress
  -- `BeforeDelegationSharesModified` reads the store here
  let before := (← get).view
  if delegation.Shares.LT shares then throw .NotEnoughDelegationShares
  let some validator ← GetValidator valAddr | throw .NoValidatorFound
  let delegation := { delegation with Shares := delegation.Shares.Sub shares }
  let isValidatorOperator := delegation.DelegatorAddress == validator.OperatorAddress
  let validator ← if isValidatorOperator && !validator.Jailed then do
      let remaining ← liftPanic (validator.TokensFromShares delegation.Shares)
      -- the lever is only computed when the minimum holds (Go's `||` short-circuits)
      let jail ← if remaining.TruncateInt < validator.MinSelfDelegation then pure true
        else do
          let lever ← liftPanic (validator.BondedLever true shares)
          pure (lever.GT (← get).params.MaxLever)
      if jail then
        jailValidator validator
        mustGetValidator validator.OperatorAddress
      else pure validator
    else pure validator
  if delegation.Shares.IsZero then RemoveDelegation delegation else SetDelegation delegation
  callHook (.Unbonded delAddr valAddr before)
  let (validator, amount) ← RemoveValidatorTokensAndShares validator shares isValidatorOperator
  if validator.DelegatorShares.IsZero && validator.IsUnbonded then
    RemoveValidator validator.OperatorAddress
  return amount

/-- `getBeginInfo`: completion time, height, and whether the redelegation is over at
once (from an unbonded source). -/
def getBeginInfo (valSrcAddr : Address) : KM (Int × Int × Bool) := do
  let s ← get
  match ← GetValidator valSrcAddr with
  | some v =>
    match v.Status with
    | .Bonded => return (s.time + s.params.UnbondingTime, s.height, false)
    | .Unbonded => return (0, 0, true)
    | .Unbonding => return (v.UnbondingCompletionTime, v.UnbondingHeight, false)
  | none => return (s.time + s.params.UnbondingTime, s.height, false)

/-- `Undelegate`: the returned tokens of a bonded validator move to the not-bonded
pool and wait in a new unbonding entry. -/
def Undelegate (delAddr valAddr : Address) (sharesAmount : Dec) : KM Int := do
  let some validator ← GetValidator valAddr | throw .NoDelegatorForAddress
  if ← HasMaxUnbondingDelegationEntries delAddr valAddr then throw .MaxUnbondingDelegationEntries
  let returnAmount ← unbond delAddr valAddr sharesAmount
  if validator.IsBonded then bondedTokensToNotBonded returnAmount
  let s ← get
  let completionTime := s.time + s.params.UnbondingTime
  let ubd ← SetUnbondingDelegationEntry delAddr valAddr s.height completionTime returnAmount
  InsertUBDQueue ubd completionTime
  return completionTime

/-- The loop of `CompleteUnbonding`: mature entries are paid out of the not-bonded
pool in order, the others kept. -/
def completeEntries (delAddr : Address) (ctxTime : Int) :
    List UnbondingDelegationEntry → KM (List UnbondingDelegationEntry)
  | [] => pure []
  | entry :: rest => do
    if entry.IsMature ctxTime then
      if entry.Balance ≠ 0 then UndelegateCoinsFromModuleToAccount .NotBondedPoolName delAddr entry.Balance
      completeEntries delAddr ctxTime rest
    else return entry :: (← completeEntries delAddr ctxTime rest)

def CompleteUnbonding (delAddr valAddr : Address) : KM Unit := do
  let some ubd ← GetUnbondingDelegation delAddr valAddr | throw .NoUnbondingDelegation
  let entries ← completeEntries ubd.DelegatorAddress (← get).time ubd.Entries
  let ubd := { ubd with Entries := entries }
  if entries.isEmpty then RemoveUnbondingDelegation ubd else SetUnbondingDelegation ubd

/-- `BeginRedelegation`: unbond from the source, delegate the tokens to the
destination, and record the entry unless the source is unbonded. -/
def BeginRedelegation (delAddr valSrcAddr valDstAddr : Address) (sharesAmount : Dec) : KM Int := do
  if valSrcAddr = valDstAddr then throw .SelfRedelegation
  let some dstValidator ← GetValidator valDstAddr | throw .BadRedelegationDst
  let some srcValidator ← GetValidator valSrcAddr | throw .BadRedelegationDst
  if ← HasReceivingRedelegation delAddr valSrcAddr then throw .TransitiveRedelegation
  if ← HasMaxRedelegationEntries delAddr valSrcAddr valDstAddr then throw .MaxRedelegationEntries
  let returnAmount ← unbond delAddr valSrcAddr sharesAmount
  if returnAmount = 0 then throw .TinyRedelegationAmount
  let sharesCreated ← Delegate delAddr returnAmount srcValidator.Status dstValidator false
  let (completionTime, height, completeNow) ← getBeginInfo valSrcAddr
  if completeNow then return completionTime
  let red ← SetRedelegationEntry delAddr valSrcAddr valDstAddr height completionTime returnAmount
    sharesAmount sharesCreated
  InsertRedelegationQueue red completionTime
  return completionTime

def CompleteRedelegation (delAddr valSrcAddr valDstAddr : Address) : KM Unit := do
  let some red ← GetRedelegation delAddr valSrcAddr valDstAddr | throw .NoRedelegation
  let ctxTime := (← get).time
  let red := { red with Entries := red.Entries.filter fun e => !e.IsMature ctxTime }
  if red.Entries.isEmpty then RemoveRedelegation red else SetRedelegation red

/-- `ValidateUnbondAmount`: the shares of an amount of tokens, capped at the
delegation's shares. -/
def ValidateUnbondAmount (delAddr valAddr : Address) (amt : Int) : KM Dec := do
  let some validator ← GetValidator valAddr | throw .NoValidatorFound
  let some del ← GetDelegation delAddr valAddr | throw .NoDelegation
  let shares ← liftStake (validator.SharesFromTokens amt)
  let sharesTruncated ← liftStake (validator.SharesFromTokensTruncated amt)
  if sharesTruncated.GT del.Shares then throw .NotEnoughDelegationShares
  return if shares.GT del.Shares then del.Shares else shares

end Staking

end Dipper
