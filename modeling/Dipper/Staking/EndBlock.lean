import Dipper.Staking.Slash

/-!
# The staking end-block

`BlockValidatorUpdates` of `keeper/keeper.go` with the validator-set update of
`keeper/val_state_change.go`: the power index is walked from the highest key down,
the first `MaxValidators` validators of non-zero power are bonded, the bonded ones
left over unbond, and the tokens of every validator that changed side move between
the pools in one transfer. Then the mature entries of the three time queues are
completed, and the validator limit is raised once its time has come. An update is
the validator's consensus address with its new power.
-/

namespace Dipper

namespace Staking

open Dec Validator

def SetLastValidatorPower (operator : Address) (power : Int) : KM Unit :=
  modify fun s => { s with lastValidatorPower := s.lastValidatorPower.insert operator power }

def DeleteLastValidatorPower (operator : Address) : KM Unit :=
  modify fun s => { s with lastValidatorPower := s.lastValidatorPower.erase operator }

def SetLastTotalPower (power : Int) : KM Unit :=
  modify fun s => { s with lastTotalPower := power }

/-! ### Status transitions -/

def bondValidator (v : Validator) : KM Validator := do
  DeleteValidatorByPowerIndex v
  let v := v.UpdateStatus .Bonded
  SetValidator v
  SetValidatorByPowerIndex v
  DeleteValidatorQueue v
  return v

def beginUnbondingValidator (v : Validator) : KM Validator := do
  let s ← get
  DeleteValidatorByPowerIndex v
  if v.Status ≠ .Bonded then panicK "should not already be unbonded or unbonding"
  let v := { v.UpdateStatus .Unbonding with
    UnbondingCompletionTime := s.time + s.params.UnbondingTime, UnbondingHeight := s.height }
  SetValidator v
  SetValidatorByPowerIndex v
  InsertValidatorQueue v
  return v

def completeUnbondingValidator (v : Validator) : KM Validator := do
  let v := v.UpdateStatus .Unbonded
  SetValidator v
  return v

def bondedToUnbonding (v : Validator) : KM Validator :=
  if !v.IsBonded then panicK "bad state transition bondedToUnbonding" else beginUnbondingValidator v

def unbondingToBonded (v : Validator) : KM Validator :=
  if !v.IsUnbonding then panicK "bad state transition unbondingToBonded" else bondValidator v

def unbondedToBonded (v : Validator) : KM Validator :=
  if !v.IsUnbonded then panicK "bad state transition unbondedToBonded" else bondValidator v

def unbondingToUnbonded (v : Validator) : KM Validator :=
  if !v.IsUnbonding then panicK "bad state transition unbondingToBonded" else completeUnbondingValidator v

/-! ### The validator-set update -/

/-- The operators of the power index from the highest key down, as the reverse
prefix iterator visits them. -/
def powerIndexDescending (s : State) : List Address :=
  (s.validatorsByPower.entries.insertionSort fun a b => b.1 ≤ a.1).map (·.2)

/-- The loop over the power index: the updates, what is left of the last bonded set,
the total power, and the tokens that enter the bonded pool. -/
def applyPowerIndex (maxValidators : Nat) :
    List Address → Nat → List (Address × Int) → AList (fun _ : Address => Int) → Int → Int →
      KM (List (Address × Int) × AList (fun _ : Address => Int) × Int × Int)
  | [], _, updates, last, totalPower, amt => pure (updates, last, totalPower, amt)
  | valAddr :: rest, count, updates, last, totalPower, amt => do
    if maxValidators ≤ count then return (updates, last, totalPower, amt)
    let validator ← mustGetValidator valAddr
    if validator.Jailed then panicK "should never retrieve a jailed validator from the power store"
    -- no validator of zero power is bonded, and none after it has more
    if validator.PotentialConsensusPower = 0 then return (updates, last, totalPower, amt)
    let (validator, amt) ← match validator.Status with
      | .Unbonded => do
        let v ← unbondedToBonded validator
        pure (v, amt + v.Tokens)
      | .Unbonding => do
        let v ← unbondingToBonded validator
        pure (v, amt + v.Tokens)
      | .Bonded => pure (validator, amt)
    let newPower := validator.ConsensusPower
    let updates ← if last.lookup valAddr ≠ some newPower then do
        SetLastValidatorPower valAddr newPower
        pure (updates ++ [(validator.ConsAddress, newPower)])
      else pure updates
    applyPowerIndex maxValidators rest (count + 1) updates (last.erase valAddr) (totalPower + newPower) amt

/-- The loop over the validators no longer bonded, with the tokens that leave the
bonded pool. -/
def unbondNoLongerBonded :
    List Address → List (Address × Int) → Int → KM (List (Address × Int) × Int)
  | [], updates, amt => pure (updates, amt)
  | valAddr :: rest, updates, amt => do
    let validator ← bondedToUnbonding (← mustGetValidator valAddr)
    DeleteLastValidatorPower validator.OperatorAddress
    unbondNoLongerBonded rest (updates ++ [(validator.ConsAddress, 0)]) (amt + validator.Tokens)

def ApplyAndReturnValidatorSetUpdates : KM (List (Address × Int)) := do
  let s ← get
  let (updates, last, totalPower, amtFromNotBondedToBonded) ←
    applyPowerIndex s.params.MaxValidators (powerIndexDescending s) 0 [] s.lastValidatorPower 0 0
  -- `sortNoLongerBonded`: by operator address
  let noLongerBonded := last.keys.insertionSort fun a b => a ≤ b
  let (updates, amtFromBondedToNotBonded) ← unbondNoLongerBonded noLongerBonded updates 0
  if amtFromBondedToNotBonded < amtFromNotBondedToBonded then
    notBondedTokensToBonded (amtFromNotBondedToBonded - amtFromBondedToNotBonded)
  else if amtFromNotBondedToBonded < amtFromBondedToNotBonded then
    bondedTokensToNotBonded (amtFromBondedToNotBonded - amtFromNotBondedToBonded)
  if !updates.isEmpty then SetLastTotalPower totalPower
  return updates

/-! ### The time queues -/

/-- The time slices of a queue up to the block time, earliest first, as the queue
iterators visit them. -/
def matureTimeSlices {β : Type} (q : AList (fun _ : Int => β)) (now : Int) : List (Int × β) :=
  ((q.entries.filter fun e => e.1 ≤ now).insertionSort fun a b => a.1 ≤ b.1).map fun e => (e.1, e.2)

def unbondMatureValidators : List Address → KM Unit
  | [] => pure ()
  | valAddr :: rest => do
    let some val ← GetValidator valAddr | panicK "validator in the unbonding queue was not found"
    if !val.IsUnbonding then panicK "unexpected validator in unbonding queue; status was not unbonding"
    let val ← unbondingToUnbonded val
    if val.DelegatorShares.IsZero then RemoveValidator val.OperatorAddress
    unbondMatureValidators rest

def UnbondAllMatureValidatorQueue : KM Unit := do
  let s ← get
  (matureTimeSlices s.validatorQueue s.time).forM fun (time, timeslice) => do
    unbondMatureValidators timeslice
    modify fun s => { s with validatorQueue := s.validatorQueue.erase time }

def DequeueAllMatureUBDQueue : KM (List (Address × Address)) := do
  let s ← get
  let slices := matureTimeSlices s.ubdQueue s.time
  modify fun s => { s with ubdQueue := slices.foldl (fun q e => q.erase e.1) s.ubdQueue }
  return slices.flatMap (·.2)

def DequeueAllMatureRedelegationQueue : KM (List (Address × Address × Address)) := do
  let s ← get
  let slices := matureTimeSlices s.redelegationQueue s.time
  modify fun s => { s with redelegationQueue := slices.foldl (fun q e => q.erase e.1) s.redelegationQueue }
  return slices.flatMap (·.2)

/-- `MaxValidatorsExtendingInterval`: a year of 8766 hours, in seconds. -/
def MaxValidatorsExtendingInterval : Int := 60 * 60 * 8766

/-- `UpdateMaxValidators`: the `uint16` sum wraps. -/
def UpdateMaxValidators : KM Unit := do
  let s ← get
  let p := s.params
  if s.time < p.NextExtendingTime then return
  if p.MaxValidators < p.MaxValidatorsExtendingLimit then
    let maxValidators := (p.MaxValidators + p.MaxValidatorsExtendingSpeed) % 2 ^ 16
    let p := { p with
      MaxValidators := min maxValidators p.MaxValidatorsExtendingLimit
      NextExtendingTime := p.NextExtendingTime + MaxValidatorsExtendingInterval * 1000000000 }
    modify fun s => { s with params := p }

/-- `BlockValidatorUpdates`: the errors of completing an entry are skipped, keeping
what the completion wrote before it failed. -/
def BlockValidatorUpdates : KM (List (Address × Int)) := do
  let validatorUpdates ← ApplyAndReturnValidatorSetUpdates
  UnbondAllMatureValidatorQueue
  let matureUnbonds ← DequeueAllMatureUBDQueue
  matureUnbonds.forM fun (delAddr, valAddr) =>
    tryCatch (CompleteUnbonding delAddr valAddr) fun _ => pure ()
  let matureRedelegations ← DequeueAllMatureRedelegationQueue
  matureRedelegations.forM fun (delAddr, valSrcAddr, valDstAddr) =>
    tryCatch (CompleteRedelegation delAddr valSrcAddr valDstAddr) fun _ => pure ()
  UpdateMaxValidators
  return validatorUpdates

end Staking

end Dipper
