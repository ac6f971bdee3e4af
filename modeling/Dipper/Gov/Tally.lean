import Dipper.Gov.Keeper
import Dipper.Staking.EndBlock

/-!
# Tallying a proposal

`tally` of `gov/tally.go` over the staking state. Every bonded validator among the
first `MaxValidators` of the power index starts with all its bonded tokens behind
it. A voter that is such a validator sets the validator's vote; any other voter
votes with each of its delegations to such a validator, weighted by its share of
the validator's delegator shares, and those shares are deducted from what the
validator's own vote carries. The votes are deleted as they are counted.
-/

namespace Dipper

namespace Gov

open Dec Staking

structure validatorGovInfo where
  Address : Address
  BondedTokens : Int
  DelegatorShares : Dec
  DelegatorDeductions : Dec
  Vote : VoteOption
  deriving DecidableEq, Repr

/-- The loop of `IterateBondedValidatorsByPower` over the operators of the power
index: a missing validator panics, and only bonded ones are counted. -/
def iterateBonded (sk : Staking.State) (maxValidators : Nat) : List Address → Nat → Except String (List Validator)
  | [], _ => .ok []
  | addr :: rest, i =>
    if maxValidators ≤ i then .ok []
    else match sk.validators.lookup addr with
      | none => .error "validator record not found for address"
      | some v =>
        if v.IsBonded then (v :: ·) <$> iterateBonded sk maxValidators rest (i + 1)
        else iterateBonded sk maxValidators rest i

def IterateBondedValidatorsByPower (sk : Staking.State) : Except String (List Validator) :=
  iterateBonded sk sk.params.MaxValidators (powerIndexDescending sk) 0

/-- The delegations of a delegator, by validator address, as `IterateDelegations`
visits them. -/
def delegationsOf (sk : Staking.State) (delAddr : Address) : List Delegation :=
  ((sk.delegations.entries.filter fun e => e.1.1 = delAddr).insertionSort fun a b => a.1.2 ≤ b.1.2).map (·.2)

/-- What the tally has counted so far: the power behind each option, the total, and
the validators with their deductions and votes. -/
structure TallyAcc where
  results : VoteOption → Dec
  totalVotingPower : Dec
  currValidators : AList (fun _ : Address => validatorGovInfo)

/-- Counting `votingPower` for `option`. -/
def TallyAcc.count (acc : TallyAcc) (option : VoteOption) (votingPower : Dec) : TallyAcc :=
  { acc with
    results := Function.update acc.results option ((acc.results option).Add votingPower)
    totalVotingPower := acc.totalVotingPower.Add votingPower }

/-- The delegations of a voter that is not a validator: each one to a counted
validator adds its share of the validator's bonded tokens. -/
def tallyDelegations (option : VoteOption) : List Delegation → TallyAcc → Except String TallyAcc
  | [], acc => .ok acc
  | delegation :: rest, acc =>
    match acc.currValidators.lookup delegation.ValidatorAddress with
    | none => tallyDelegations option rest acc
    | some val => do
      let val := { val with DelegatorDeductions := val.DelegatorDeductions.Add delegation.Shares }
      let acc := { acc with currValidators := acc.currValidators.insert delegation.ValidatorAddress val }
      let delegatorShare ← delegation.Shares.Quo val.DelegatorShares
      let votingPower := delegatorShare.MulInt val.BondedTokens
      tallyDelegations option rest (acc.count option votingPower)

def tallyVotes (sk : Staking.State) : List Vote → TallyAcc → Except String TallyAcc
  | [], acc => .ok acc
  | vote :: rest, acc => do
    let acc ← match acc.currValidators.lookup vote.Voter with
      | some val => pure { acc with currValidators := acc.currValidators.insert vote.Voter { val with Vote := vote.Option } }
      | none => tallyDelegations vote.Option (delegationsOf sk vote.Voter) acc
    tallyVotes sk rest acc

/-- The validators that voted: what is left of their shares after the deductions
carries their vote. -/
def tallyValidators : List validatorGovInfo → TallyAcc → Except String TallyAcc
  | [], acc => .ok acc
  | val :: rest, acc =>
    if val.Vote = .OptionEmpty then tallyValidators rest acc
    else do
      let sharesAfterDeductions := val.DelegatorShares.Sub val.DelegatorDeductions
      let fractionAfterDeductions ← sharesAfterDeductions.Quo val.DelegatorShares
      let votingPower := fractionAfterDeductions.MulInt val.BondedTokens
      tallyValidators rest (acc.count val.Vote votingPower)

def NewTallyResultFromMap (results : VoteOption → Dec) : TallyResult :=
  ⟨(results .OptionYes).TruncateInt, (results .OptionAbstain).TruncateInt, (results .OptionNo).TruncateInt,
    (results .OptionNoWithVeto).TruncateInt⟩

/-- The tally at the start: every counted validator, with no vote and nothing
deducted. -/
def initialTally (validators : List Validator) : TallyAcc :=
  ⟨fun _ => ZeroDec, ZeroDec, validators.foldl (fun m v =>
    m.insert v.OperatorAddress ⟨v.OperatorAddress, v.BondedTokens, v.DelegatorShares, ZeroDec, .OptionEmpty⟩) ∅⟩

/-- `tally`: whether the proposal passes, whether its deposits burn, and the result.
The staking module's total bonded tokens are its bonded pool. -/
def tally (sk : Staking.State) (proposal : Proposal) : GM (Bool × Bool × TallyResult) := do
  let validators ← liftPanicG (IterateBondedValidatorsByPower sk)
  let votes ← GetVotes proposal.ProposalID
  let acc ← liftPanicG (tallyVotes sk votes (initialTally validators))
  votes.forM fun vote => deleteVote vote.ProposalID vote.Voter
  let acc ← liftPanicG (tallyValidators (acc.currValidators.entries.map (·.2)) acc)
  let tallyParams := (← get).tallyParams
  let results := acc.results
  let totalVotingPower := acc.totalVotingPower
  let tallyResults := NewTallyResultFromMap results
  let totalBondedTokens := sk.bank.bondedPool
  if totalBondedTokens = 0 then return (false, false, tallyResults)
  let percentVoting ← liftPanicG (totalVotingPower.Quo (NewDec totalBondedTokens))
  if percentVoting.LT tallyParams.Quorum then return (false, true, tallyResults)
  if totalVotingPower.Sub (results .OptionAbstain) = ZeroDec then return (false, false, tallyResults)
  if (← liftPanicG ((results .OptionNoWithVeto).Quo totalVotingPower)).GT tallyParams.Veto then
    return (false, true, tallyResults)
  if (← liftPanicG ((results .OptionYes).Quo (totalVotingPower.Sub (results .OptionAbstain)))).GT
      tallyParams.Threshold then
    return (true, false, tallyResults)
  return (false, false, tallyResults)

end Gov

end Dipper
