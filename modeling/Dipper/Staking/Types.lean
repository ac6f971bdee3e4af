import Dipper.Types.Dec
import Dipper.Types.Coins
import Dipper.Types.Bytes

/-!
# Staking types

The validator record of `staking/types/validator.go` with the exchange-rate methods
that move tokens and delegator shares, the delegation records and their entries,
the module's params and its errors. A validator's consensus key is kept as its
consensus address. Go errors are the `Err` of `ExceptT`; panics are the `String`
errors underneath, so `StakeM` is the monad of a Go function that may do both.
-/

namespace Dipper

namespace Staking

open Dec

/-- The errors of `staking/types/errors.go` and of the bank that the modelled
functions return. -/
inductive Err
  | EmptyValidatorAddr | BadValidatorAddr | NoValidatorFound | ValidatorOwnerExists
  | ValidatorPubKeyExists | SelfDelegationBelowMinimum | MinSelfDelegationInvalid
  | MinSelfDelegationDecreased | EmptyDelegatorAddr | BadDenom | BadDelegationAmount
  | NoDelegation | NoDelegatorForAddress | InsufficientShares | NotEnoughDelegationShares
  | BadSharesAmount | NoUnbondingDelegation | NoRedelegation | SelfRedelegation
  | TinyRedelegationAmount | BadRedelegationDst | TransitiveRedelegation
  | MaxUnbondingDelegationEntries | MaxRedelegationEntries | DelegatorShareExRateInvalid
  | DelegatorShareExceedMaxLever | UnknownAddress | InsufficientFunds
  deriving DecidableEq, Repr

/-- A Go function of the module: it returns an error or panics. -/
abbrev StakeM := ExceptT Err (Except String)

def goPanic {α : Type} (msg : String) : StakeM α := ExceptT.lift (.error msg)

/-- A computation that can only panic. -/
def liftP {α : Type} (x : Except String α) : StakeM α := ExceptT.lift x

inductive BondStatus
  | Unbonded | Unbonding | Bonded
  deriving DecidableEq, Repr

/-- `sdk.PowerReduction`: the tokens of one unit of consensus power. -/
def PowerReduction : Int := 1000000000000

/-- `sdk.TokensToConsensusPower` (its `Int64` range panic is not modelled). -/
def TokensToConsensusPower (tokens : Int) : Int := tokens.tdiv PowerReduction

def TokensFromConsensusPower (power : Int) : Int := power * PowerReduction

/-- `types.Validator`, without its description and commission. -/
structure Validator where
  OperatorAddress : Address
  ConsAddress : Address
  Jailed : Bool
  Status : BondStatus
  Tokens : Int
  DelegatorShares : Dec
  UnbondingHeight : Int
  UnbondingCompletionTime : Int
  MinSelfDelegation : Int
  SelfDelegation : Dec
  deriving DecidableEq, Repr

namespace Validator

def NewValidator (operator consAddr : Address) : Validator :=
  ⟨operator, consAddr, false, .Unbonded, 0, ZeroDec, 0, 0, 1, ZeroDec⟩

def IsBonded (v : Validator) : Bool := v.Status == .Bonded
def IsUnbonded (v : Validator) : Bool := v.Status == .Unbonded
def IsUnbonding (v : Validator) : Bool := v.Status == .Unbonding

/-- `InvalidExRate`: no tokens left behind positive shares. -/
def InvalidExRate (v : Validator) : Bool := v.Tokens == 0 && v.DelegatorShares.IsPositive

def TokensFromShares (v : Validator) (shares : Dec) : Except String Dec :=
  (shares.MulInt v.Tokens).Quo v.DelegatorShares

def TokensFromSharesTruncated (v : Validator) (shares : Dec) : Except String Dec :=
  (shares.MulInt v.Tokens).QuoTruncate v.DelegatorShares

def SharesFromTokens (v : Validator) (amt : Int) : StakeM Dec :=
  if v.Tokens = 0 then throw .InsufficientShares
  else liftP ((v.DelegatorShares.MulInt amt).QuoInt v.Tokens)

def SharesFromTokensTruncated (v : Validator) (amt : Int) : StakeM Dec :=
  if v.Tokens = 0 then throw .InsufficientShares
  else liftP ((v.DelegatorShares.MulInt amt).QuoTruncate (NewDec v.Tokens))

def BondedTokens (v : Validator) : Int := if v.IsBonded then v.Tokens else 0

/-- `BondedLever`: the delegator shares over the self-delegation, both moved by
`delta` when the delegator is the operator. -/
def BondedLever (v : Validator) (selfDelegation : Bool) (delta : Dec) : Except String Dec :=
  if selfDelegation then
    if (v.SelfDelegation.Add delta).LTE ZeroDec then .ok (NewDec (2 ^ 32 - 1))
    else (v.DelegatorShares.Add delta).QuoTruncate (v.SelfDelegation.Add delta)
  else (v.DelegatorShares.Add delta).QuoTruncate v.SelfDelegation

def PotentialConsensusPower (v : Validator) : Int := TokensToConsensusPower v.Tokens

def ConsensusPower (v : Validator) : Int := if v.IsBonded then v.PotentialConsensusPower else 0

def UpdateStatus (v : Validator) (newStatus : BondStatus) : Validator := { v with Status := newStatus }

/-- `AddTokensFromDel`: the first delegation sets the exchange rate to one. -/
def AddTokensFromDel (v : Validator) (amount : Int) (isValidatorOperator : Bool) :
    Except String (Validator × Dec) := do
  let issuedShares ← if v.DelegatorShares.IsZero then pure (NewDec amount)
    else match (v.SharesFromTokens amount).run with
      | .ok (.ok shares) => pure shares
      | .ok (.error _) => .error "insufficient delegation shares"
      | .error msg => .error msg
  let v := { v with Tokens := v.Tokens + amount, DelegatorShares := v.DelegatorShares.Add issuedShares }
  let v := if isValidatorOperator then { v with SelfDelegation := v.SelfDelegation.Add issuedShares } else v
  return (v, issuedShares)

def RemoveTokens (v : Validator) (tokens : Int) : Except String Validator :=
  if tokens < 0 then .error "should not happen: trying to remove negative tokens"
  else if v.Tokens < tokens then .error "should not happen: only have tokens, trying to remove more"
  else .ok { v with Tokens := v.Tokens - tokens }

/-- `RemoveDelShares`: the last shares take every token left; otherwise the tokens
the shares are worth, truncated, leave. -/
def RemoveDelShares (v : Validator) (delShares : Dec) (isValidatorOperator : Bool) :
    Except String (Validator × Int) := do
  let remainingShares := v.DelegatorShares.Sub delShares
  let (v, issuedTokens) ← if remainingShares.IsZero then pure ({ v with Tokens := 0 }, v.Tokens)
    else do
      let issuedTokens := (← v.TokensFromShares delShares).TruncateInt
      let v := { v with Tokens := v.Tokens - issuedTokens }
      if v.Tokens < 0 then .error "attempting to remove more tokens than available in validator"
      pure (v, issuedTokens)
  let v := { v with DelegatorShares := remainingShares }
  let v ← if isValidatorOperator then do
      let v := { v with SelfDelegation := v.SelfDelegation.Sub delShares }
      if v.SelfDelegation.IsNegative then .error "validator self_delegation is negative now"
      pure v
    else pure v
  return (v, issuedTokens)

end Validator

structure Delegation where
  DelegatorAddress : Address
  ValidatorAddress : Address
  Shares : Dec
  deriving DecidableEq, Repr

structure UnbondingDelegationEntry where
  CreationHeight : Int
  CompletionTime : Int
  InitialBalance : Int
  Balance : Int
  deriving DecidableEq, Repr

/-- `IsMature`: the completion time is not after the current time. -/
def UnbondingDelegationEntry.IsMature (e : UnbondingDelegationEntry) (currentTime : Int) : Bool :=
  decide (e.CompletionTime ≤ currentTime)

structure UnbondingDelegation where
  DelegatorAddress : Address
  ValidatorAddress : Address
  Entries : List UnbondingDelegationEntry
  deriving DecidableEq, Repr

structure RedelegationEntry where
  CreationHeight : Int
  CompletionTime : Int
  InitialBalance : Int
  SharesDst : Dec
  deriving DecidableEq, Repr

def RedelegationEntry.IsMature (e : RedelegationEntry) (currentTime : Int) : Bool :=
  decide (e.CompletionTime ≤ currentTime)

structure Redelegation where
  DelegatorAddress : Address
  ValidatorSrcAddress : Address
  ValidatorDstAddress : Address
  Entries : List RedelegationEntry
  deriving DecidableEq, Repr

/-- `types.Params` (times in nanoseconds). -/
structure Params where
  UnbondingTime : Int
  MaxValidators : Nat
  MaxValidatorsExtendingLimit : Nat
  MaxValidatorsExtendingSpeed : Nat
  NextExtendingTime : Int
  MaxEntries : Nat
  BondDenom : String
  MaxLever : Dec
  deriving DecidableEq, Repr

/-- `DefaultParams`: fourteen days of unbonding, 100 validators, a lever of 20. -/
def DefaultParams : Params :=
  ⟨14 * 24 * 3600 * 1000000000, 100, 300, 10, 0, 7, NativeTokenName, NewDec 20⟩

end Staking

end Dipper
