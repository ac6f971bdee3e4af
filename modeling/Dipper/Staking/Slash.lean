import Dipper.Staking.Keeper

/-!
# Slashing a validator

`Slash` of `keeper/slash.go`: the stake that contributed to an infraction is the
validator's own tokens, its unbonding entries created at or after the infraction
height and not yet mature, and the redelegations that left it since, whose
destination shares are unbonded and burned. `Jail` and `Unjail` are the keeper
methods the slashing module calls.
-/

namespace Dipper

namespace Staking

open Dec Validator

/-- The loop of `slashUnbondingDelegation`: the entries after slashing, the amount
the entries were liable for, and the amount actually taken from their balances. -/
def slashEntries (now infractionHeight : Int) (slashFactor : Dec) :
    List UnbondingDelegationEntry → List UnbondingDelegationEntry × Int × Int
  | [] => ([], 0, 0)
  | entry :: rest =>
    let (rest', total, burned) := slashEntries now infractionHeight slashFactor rest
    -- unbonding started before the infraction, or already mature: not liable
    if entry.CreationHeight < infractionHeight || entry.IsMature now then (entry :: rest', total, burned)
    else
      let slashAmount := (slashFactor.MulInt entry.InitialBalance).TruncateInt
      let unbondingSlashAmount := min slashAmount entry.Balance
      (({ entry with Balance := entry.Balance - unbondingSlashAmount }) :: rest',
        slashAmount + total, unbondingSlashAmount + burned)

/-- `slashUnbondingDelegation`; the record is written once with every slashed entry
(the source writes it after each one, to the same effect). -/
def slashUnbondingDelegation (ubd : UnbondingDelegation) (infractionHeight : Int) (slashFactor : Dec) :
    KM Int := do
  let (entries, totalSlashAmount, burnedAmount) :=
    slashEntries (← get).time infractionHeight slashFactor ubd.Entries
  if entries ≠ ubd.Entries then SetUnbondingDelegation { ubd with Entries := entries }
  burnNotBondedTokens burnedAmount
  return totalSlashAmount

/-- The loop of `slashRedelegation`, with the amount liable and the tokens to burn
from each pool, by the status of the destination after its shares are unbonded. -/
def slashRedelegationEntries (red : Redelegation) (infractionHeight : Int) (slashFactor : Dec) :
    List RedelegationEntry → Int → Int → Int → KM (Int × Int × Int)
  | [], total, bonded, notBonded => pure (total, bonded, notBonded)
  | entry :: rest, total, bonded, notBonded => do
    let now := (← get).time
    if entry.CreationHeight < infractionHeight || entry.IsMature now then
      return ← slashRedelegationEntries red infractionHeight slashFactor rest total bonded notBonded
    let slashAmount := (slashFactor.MulInt entry.InitialBalance).TruncateInt
    let total := total + slashAmount
    let sharesToUnbond := slashFactor.Mul entry.SharesDst
    if sharesToUnbond.IsZero then
      return ← slashRedelegationEntries red infractionHeight slashFactor rest total bonded notBonded
    let some delegation ← GetDelegation red.DelegatorAddress red.ValidatorDstAddress
      | slashRedelegationEntries red infractionHeight slashFactor rest total bonded notBonded
    let sharesToUnbond := if sharesToUnbond.GT delegation.Shares then delegation.Shares else sharesToUnbond
    let tokensToBurn ← tryCatch (unbond red.DelegatorAddress red.ValidatorDstAddress sharesToUnbond)
      fun _ => panicK "error unbonding delegator"
    let some dstValidator ← GetValidator red.ValidatorDstAddress
      | panicK "destination validator not found"
    let (bonded, notBonded) := if dstValidator.IsBonded then (bonded + tokensToBurn, notBonded)
      else (bonded, notBonded + tokensToBurn)
    slashRedelegationEntries red infractionHeight slashFactor rest total bonded notBonded

def slashRedelegation (_srcValidator : Validator) (red : Redelegation) (infractionHeight : Int)
    (slashFactor : Dec) : KM Int := do
  let (totalSlashAmount, bondedBurnedAmount, notBondedBurnedAmount) ←
    slashRedelegationEntries red infractionHeight slashFactor red.Entries 0 0 0
  burnBondedTokens bondedBurnedAmount
  burnNotBondedTokens notBondedBurnedAmount
  return totalSlashAmount

/-- `Slash`: what the unbonding entries and redelegations were liable for is taken
from them; the rest, at most the validator's tokens, is burned from its pool. -/
def Slash (consAddr : Address) (infractionHeight power : Int) (slashFactor : Dec) : KM Unit := do
  if slashFactor.LT ZeroDec then panicK "attempted to slash with a negative slash factor"
  let amount := TokensFromConsensusPower power
  let slashAmount := ((NewDec amount).Mul slashFactor).TruncateInt
  -- a validator that is gone was overslashed and removed: nothing to do
  let some validator ← GetValidatorByConsAddr consAddr | pure ()
  if validator.IsUnbonded then panicK "should not be slashing unbonded validator"
  let operatorAddress := validator.OperatorAddress
  let height := (← get).height
  let remainingSlashAmount ←
    if height < infractionHeight then panicK "impossible attempt to slash future infraction"
    else if infractionHeight = height then pure slashAmount
    else do
      let ubds ← GetUnbondingDelegationsFromValidator operatorAddress
      let remaining ← ubds.foldlM (fun remaining ubd => do
        return remaining - (← slashUnbondingDelegation ubd infractionHeight slashFactor)) slashAmount
      let reds ← GetRedelegationsFromSrcValidator operatorAddress
      reds.foldlM (fun remaining red => do
        return remaining - (← slashRedelegation validator red infractionHeight slashFactor)) remaining
  let tokensToBurn := max (min remainingSlashAmount validator.Tokens) 0
  -- the fraction the distribution module records is the one actually burned
  if 0 < validator.Tokens then
    let effectiveFraction ← liftPanic ((NewDec tokensToBurn).QuoRoundUp (NewDec validator.Tokens))
    callHook (.BeforeValidatorSlashed operatorAddress
      (if effectiveFraction.GT OneDec then OneDec else effectiveFraction))
  let validator ← RemoveValidatorTokens validator tokensToBurn
  match validator.Status with
  | .Bonded => burnBondedTokens tokensToBurn
  | .Unbonding | .Unbonded => burnNotBondedTokens tokensToBurn

def Jail (consAddr : Address) : KM Unit := do
  jailValidator (← mustGetValidatorByConsAddr consAddr)

def Unjail (consAddr : Address) : KM Unit := do
  unjailValidator (← mustGetValidatorByConsAddr consAddr)

end Staking

end Dipper
