import Dipper.Slashing.Types
import Dipper.Staking.Slash

/-!
# The slashing keeper

The keeper methods of `app/v0/slashing`: `HandleValidatorSignature` records whether a validator
signed the last block in its missed-block bit array and slashes and jails it for downtime once it
has missed too many blocks of the window; `HandleDoubleSign` slashes, jails and tombstones a
validator for evidence of a double sign; `BeginBlocker` runs both over a block's votes and
evidence; the staking hooks create signing infos and keep the address-pubkey relation; the
`MsgUnjail` handler lets a jailed validator back. The keeper is generic in the staking state, which
it reaches only through `StakingKeeper`; `stakingKeeper` is the staking model seen that way.
Panics are the `String` errors; the bech32 address in their texts is not modelled, nor are the
events and log lines.
-/

namespace Dipper

namespace Slashing

open Dec State

/-- The block header as the keeper reads it from the context. -/
structure Ctx where
  BlockHeight : Int
  Time : Int
  deriving DecidableEq, Repr

section Keeper

variable {σ : Type} (sk : StakingKeeper σ)

/-- The `switch` of `HandleValidatorSignature`: the bit at `index` becomes `missed`, and the
counter follows it; a bit that does not change is not written. -/
def recordSignature (s : State σ) (addr : Address) (index : Int) (missed : Bool)
    (signInfo : ValidatorSigningInfo) : State σ × ValidatorSigningInfo :=
  let previous := s.getValidatorMissedBlockBitArray addr index
  if !previous && missed then
    (s.setValidatorMissedBlockBitArray addr index true,
      { signInfo with MissedBlocksCounter := signInfo.MissedBlocksCounter + 1 })
  else if previous && !missed then
    (s.setValidatorMissedBlockBitArray addr index false,
      { signInfo with MissedBlocksCounter := signInfo.MissedBlocksCounter - 1 })
  else (s, signInfo)

/-- Downtime confirmed: slash at the height the missed block's stake was bonded, jail, and start
the window again from an empty array. -/
def punishDowntime (ctx : Ctx) (addr : Address) (power : Int) (signInfo : ValidatorSigningInfo)
    (s : State σ) : Except String (State σ) := do
  let distributionHeight := ctx.BlockHeight - ValidatorUpdateDelay - 1
  let staking ← sk.Slash addr distributionHeight power s.params.SlashFractionDowntime s.staking
  let staking ← sk.Jail addr staking
  let signInfo := { signInfo with
    JailedUntil := ctx.Time + s.params.DowntimeJailDuration, MissedBlocksCounter := 0, IndexOffset := 0 }
  return ({ s with staking }.clearValidatorMissedBlockBitArray addr).SetValidatorSigningInfo addr signInfo

/-- `HandleValidatorSignature`, once per validator per block. -/
def HandleValidatorSignature (ctx : Ctx) (addr : Address) (power : Int) (signed : Bool) (s : State σ) :
    Except String (State σ) :=
  if s.getPubkey addr = none then .error "Validator consensus-address not found"
  else match s.GetValidatorSigningInfo addr with
  | none => .error "Expected signing info for validator but not found"
  | some signInfo =>
    let window := s.params.SignedBlocksWindow
    -- Go's `%` panics on a zero divisor and truncates toward zero
    if window = 0 then .error "runtime error: integer divide by zero"
    else
      let index := signInfo.IndexOffset.tmod window
      let signInfo := { signInfo with IndexOffset := signInfo.IndexOffset + 1 }
      let (s, signInfo) := recordSignature s addr index (!signed) signInfo
      let minHeight := signInfo.StartHeight + window
      let maxMissed := window - s.MinSignedPerWindow
      if ctx.BlockHeight > minHeight ∧ signInfo.MissedBlocksCounter > maxMissed then
        match sk.ValidatorByConsAddr s.staking addr with
        | some validator =>
          if !validator.Jailed then punishDowntime sk ctx addr power signInfo s
          else .ok (s.SetValidatorSigningInfo addr signInfo)
        | none => .ok (s.SetValidatorSigningInfo addr signInfo)
      else .ok (s.SetValidatorSigningInfo addr signInfo)

/-- `HandleDoubleSign`: evidence that cannot be handled, is too old, or is against a validator
that is gone, unbonded or already tombstoned is ignored. -/
def HandleDoubleSign (ctx : Ctx) (addr : Address) (infractionHeight timestamp power : Int)
    (s : State σ) : Except String (State σ) :=
  let age := ctx.Time - timestamp
  if s.getPubkey addr = none then .ok s
  else if age > s.params.MaxEvidenceAge then .ok s
  else match sk.ValidatorByConsAddr s.staking addr with
  | none => .ok s
  | some validator =>
    if validator.IsUnbonded then .ok s
    else match s.GetValidatorSigningInfo addr with
    | none => .error "Expected signing info for validator but not found"
    | some signInfo =>
      if signInfo.Tombstoned then .ok s
      else do
        let distributionHeight := infractionHeight - ValidatorUpdateDelay
        let staking ← sk.Slash addr distributionHeight power s.params.SlashFractionDoubleSign s.staking
        let staking ← if !validator.Jailed then sk.Jail addr staking else pure staking
        return { s with staking }.SetValidatorSigningInfo addr
          { signInfo with Tombstoned := true, JailedUntil := DoubleSignJailEndTime }

/-- `abci.VoteInfo`: a validator of the last commit and whether it signed. -/
structure VoteInfo where
  Address : Address
  Power : Int
  SignedLastBlock : Bool
  deriving DecidableEq, Repr

/-- `abci.Evidence`; its `Type` is `EvidenceType` here. -/
structure Evidence where
  EvidenceType : String
  Address : Address
  Height : Int
  Time : Int
  Power : Int
  deriving DecidableEq, Repr

def ABCIEvidenceTypeDuplicateVote : String := "duplicate/vote"

/-- `BeginBlocker`: the votes of the last commit, then the evidence; evidence of another type is
only logged. -/
def BeginBlocker (ctx : Ctx) (votes : List VoteInfo) (byzantineValidators : List Evidence) (s : State σ) :
    Except String (State σ) := do
  let s ← votes.foldlM (fun s voteInfo =>
    HandleValidatorSignature sk ctx voteInfo.Address voteInfo.Power voteInfo.SignedLastBlock s) s
  byzantineValidators.foldlM (fun s evidence =>
    if evidence.EvidenceType = ABCIEvidenceTypeDuplicateVote then
      HandleDoubleSign sk ctx evidence.Address evidence.Height evidence.Time evidence.Power s
    else .ok s) s

/-! ### Hooks -/

/-- `AfterValidatorBonded`: a signing info starting at this height, unless there is one. -/
def AfterValidatorBonded (ctx : Ctx) (address : Address) (s : State σ) : State σ :=
  match s.GetValidatorSigningInfo address with
  | some _ => s
  | none => s.SetValidatorSigningInfo address (NewValidatorSigningInfo ctx.BlockHeight 0 0 false 0)

/-- `AfterValidatorCreated`: the relation of the new validator's consensus key. -/
def AfterValidatorCreated (valAddr : Address) (s : State σ) : Except String (State σ) :=
  match sk.Validator s.staking valAddr with
  | none => .error "runtime error: invalid memory address or nil pointer dereference"
  | some validator => .ok (s.addPubkey validator.ConsAddress)

def AfterValidatorRemoved (address : Address) (s : State σ) : State σ :=
  s.deleteAddrPubkeyRelation address

/-! ### `MsgUnjail` -/

/-- The checks of `handleMsgUnjail` after the self-delegation's tokens, in the source's order. -/
def unjailChecks (ctx : Ctx) (validator : Staking.Validator) (selfDelTokens : Dec) (s : State σ) :
    Except String (Except Err (State σ)) :=
  if selfDelTokens.TruncateInt < validator.MinSelfDelegation then .ok (.error .SelfDelegationTooLowToUnjail)
  else if !validator.Jailed then .ok (.error .ValidatorNotJailed)
  else
    let consAddr := validator.ConsAddress
    match s.GetValidatorSigningInfo consAddr with
    | none => .ok (.error .NoValidatorForAddress)
    | some info =>
      if info.Tombstoned then .ok (.error .ValidatorJailed)
      else if ctx.Time < info.JailedUntil then .ok (.error .ValidatorJailed)
      else do
        let lever ← validator.BondedLever true ZeroDec
        if lever.GT (sk.MaxLever s.staking) then return .error .DelegatorExceedMaxLever
        let staking ← sk.Unjail consAddr s.staking
        return .ok { s with staking }

/-- `handleMsgUnjail`: a returned error leaves the state as it was. -/
def handleMsgUnjail (ctx : Ctx) (validatorAddr : Address) (s : State σ) : Except String (Except Err (State σ)) :=
  match sk.Validator s.staking validatorAddr with
  | none => .ok (.error .NoValidatorForAddress)
  | some validator =>
    match sk.Delegation s.staking validatorAddr validatorAddr with
    | none => .ok (.error .MissingSelfDelegation)
    | some selfDel => do
      let tokens ← validator.TokensFromShares selfDel.Shares
      unjailChecks sk ctx validator tokens s

/-! ### Genesis -/

structure MissedBlock where
  Index : Int
  Missed : Bool
  deriving DecidableEq, Repr

/-- `types.GenesisState`; its maps are keyed by the bech32 text of the address, here by the
address. -/
structure GenesisState where
  Params : Params
  SigningInfos : AList (fun _ : Address => ValidatorSigningInfo)
  MissedBlocks : AList (fun _ : Address => List MissedBlock)

/-- `Subspace.SetParamSet`: each pair is checked before it is set, and a failed check panics. -/
def SetParamSet (p : Params) (s : State σ) : Except String (State σ) :=
  match p.Validate with
  | .error err => .error ("value from ParamSetPair is invalid: " ++ err)
  | .ok () => .ok { s with params := p }

/-- `InitGenesis`: the relation of every validator's key, the signing infos and bits of the
genesis, then the params. -/
def InitGenesis (data : GenesisState) (s : State σ) : Except String (State σ) :=
  let s := (sk.IterateValidators s.staking).foldl (fun s validator => s.addPubkey validator.ConsAddress) s
  let s := data.SigningInfos.entries.foldl (fun s e => s.SetValidatorSigningInfo e.1 e.2) s
  let s := data.MissedBlocks.entries.foldl (fun s e =>
    e.2.foldl (fun s missed => s.setValidatorMissedBlockBitArray e.1 missed.Index missed.Missed) s) s
  SetParamSet data.Params s

/-- `IterateValidatorMissedBlockBitArray` collected: the bits written at the indices
`0 … W-1`, in order. -/
def missedBlocksOf (s : State σ) (address : Address) : List MissedBlock :=
  (List.range s.params.SignedBlocksWindow.toNat).filterMap fun i : ℕ =>
    ((s.missedBlockBitArray address).lookup (i : Int)).map (MissedBlock.mk (i : Int))

/-- `ExportGenesis`: the params, and for every signing info the info and the bits of its window.
Reading an address back from a signing info's key panics unless it has `AddrLen` bytes. -/
def ExportGenesis (s : State σ) : Except String GenesisState :=
  s.signingInfos.entries.foldlM (fun data e =>
    if e.1.length ≠ AddrLen then .error "unexpected key length"
    else .ok { data with
      SigningInfos := data.SigningInfos.insert e.1 e.2
      MissedBlocks := data.MissedBlocks.insert e.1 (missedBlocksOf s e.1) }) ⟨s.params, ∅, ∅⟩

end Keeper

/-! ### The staking model as the slashing keeper's `StakingKeeper` -/

/-- The staking keeper's methods on the staking model (`alias_functions.go`, `slash.go`); a Go
error of a keeper method that returns none is dropped, a panic stays. -/
def stakingKeeper : StakingKeeper Staking.State where
  IterateValidators s := s.validators.entries.map (·.2)
  Validator s addr := s.validators.lookup addr
  ValidatorByConsAddr s consAddr := (s.validatorsByConsAddr.lookup consAddr).bind s.validators.lookup
  Slash consAddr infractionHeight power slashFactor s :=
    ((Staking.Slash consAddr infractionHeight power slashFactor).run.run s).map (·.2)
  Jail consAddr s := ((Staking.Jail consAddr).run.run s).map (·.2)
  Unjail consAddr s := ((Staking.Unjail consAddr).run.run s).map (·.2)
  Delegation s delAddr valAddr := s.delegations.lookup (delAddr, valAddr)
  MaxLever s := s.params.MaxLever

end Slashing

end Dipper
