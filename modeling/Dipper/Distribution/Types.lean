import Dipper.Types.DecCoinOps
import Dipper.Staking.Types
import Dipper.Bank.Send
import Dipper.Lib.AListFilter

/-!
# Distribution types and store

The records of `distribution/types` and the store of `distribution/keeper/store.go`. Rewards
accrue to a validator by periods: its current rewards collect what it earns in the running
period, and when a period ends its reward per token is added to the cumulative ratio stored as
the historical rewards of that period. Each historical record counts the objects that may still
read it (the delegations that started after it, the slash events that ended it and the
validator's running period), and is deleted when the count drops to zero. A delegation's
starting info names the period it started after, its stake and its height; a slash event is
stored under its height and the period it ended.
-/

namespace Dipper

namespace Distribution

open Dec StateExcept

/-! ### Records -/

/-- `ValidatorHistoricalRewards`. The count is a `uint16` in the source; the increment panics
before it passes 3 and the decrement before it goes below zero, so it is a natural here. -/
structure ValidatorHistoricalRewards where
  CumulativeRewardRatio : DecCoins
  ReferenceCount : Nat
  deriving DecidableEq, Repr

def NewValidatorHistoricalRewards (cumulativeRewardRatio : DecCoins) (referenceCount : Nat) :
    ValidatorHistoricalRewards :=
  ⟨cumulativeRewardRatio, referenceCount⟩

/-- `ValidatorCurrentRewards`: the rewards of the running period, and its number. -/
structure ValidatorCurrentRewards where
  Rewards : DecCoins
  Period : Nat
  deriving DecidableEq, Repr

def NewValidatorCurrentRewards (rewards : DecCoins) (period : Nat) : ValidatorCurrentRewards :=
  ⟨rewards, period⟩

structure DelegatorStartingInfo where
  PreviousPeriod : Nat
  Stake : Dec
  Height : Nat
  deriving DecidableEq, Repr

def NewDelegatorStartingInfo (previousPeriod : Nat) (stake : Dec) (height : Nat) : DelegatorStartingInfo :=
  ⟨previousPeriod, stake, height⟩

structure ValidatorSlashEvent where
  ValidatorPeriod : Nat
  Fraction : Dec
  deriving DecidableEq, Repr

def NewValidatorSlashEvent (validatorPeriod : Nat) (fraction : Dec) : ValidatorSlashEvent :=
  ⟨validatorPeriod, fraction⟩

structure FeePool where
  CommunityPool : DecCoins
  deriving DecidableEq, Repr

def InitialFeePool : FeePool := ⟨[]⟩

/-- The module's params. Their validators run only on a parameter change, which is not
modelled. -/
structure Params where
  CommunityTax : Dec
  BaseProposerReward : Dec
  BonusProposerReward : Dec
  WithdrawAddrEnabled : Bool
  deriving DecidableEq, Repr

/-- The params of `DefaultGenesisState`. -/
def DefaultParams : Params := ⟨NewDecWithPrec 2 2, NewDecWithPrec 1 2, NewDecWithPrec 4 2, true⟩

/-- The errors of `distribution/types/errors.go`, `ErrUnauthorized` of the blacklist check and
the bank's errors. -/
inductive Err
  | EmptyDelegatorAddr | EmptyWithdrawAddr | EmptyValidatorAddr | EmptyDelegationDistInfo
  | NoValidatorDistInfo | NoValidatorCommission | SetWithdrawAddrDisabled | BadDistribution
  | InvalidProposalAmount | EmptyProposalRecipient | NoValidatorExists | NoDelegationExists
  | Unauthorized
  | Bank (e : Bank.Err)
  deriving DecidableEq, Repr

/-- The codespace, code and text of each error. The blacklisted address that the source puts
in front of the text of `Unauthorized` is left out. -/
def Err.desc : Err → String × ℕ × String
  | .EmptyDelegatorAddr => ("distribution", 1, "delegator address is empty")
  | .EmptyWithdrawAddr => ("distribution", 2, "withdraw address is empty")
  | .EmptyValidatorAddr => ("distribution", 3, "validator address is empty")
  | .EmptyDelegationDistInfo => ("distribution", 4, "no delegation distribution info")
  | .NoValidatorDistInfo => ("distribution", 5, "no validator distribution info")
  | .NoValidatorCommission => ("distribution", 6, "no validator commission to withdraw")
  | .SetWithdrawAddrDisabled => ("distribution", 7, "set withdraw address disabled")
  | .BadDistribution => ("distribution", 8, "community pool does not have sufficient coins to distribute")
  | .InvalidProposalAmount => ("distribution", 9, "invalid community pool spend proposal amount")
  | .EmptyProposalRecipient => ("distribution", 10, "invalid community pool spend proposal recipient")
  | .NoValidatorExists => ("distribution", 11, "validator does not exist")
  | .NoDelegationExists => ("distribution", 12, "delegation does not exist")
  | .Unauthorized => ("sdk", 4, "is blacklisted from receiving external funds: unauthorized")
  | .Bank .InvalidCoins => ("sdk", 10, "invalid coins")
  | .Bank .InsufficientFunds => ("sdk", 5, "insufficient account funds: insufficient funds")

/-! ### The staking keeper -/

/-- `exported.ValidatorI` as the module reads it: the staking validator and its commission
rate, which the staking model leaves out. -/
structure ValidatorI where
  val : Staking.Validator
  Commission : Dec
  deriving DecidableEq, Repr

namespace ValidatorI

def GetOperator (v : ValidatorI) : Address := v.val.OperatorAddress

def GetTokens (v : ValidatorI) : Int := v.val.Tokens

def GetCommission (v : ValidatorI) : Dec := v.Commission

def TokensFromShares (v : ValidatorI) (shares : Dec) : Except String Dec := v.val.TokensFromShares shares

def TokensFromSharesTruncated (v : ValidatorI) (shares : Dec) : Except String Dec :=
  v.val.TokensFromSharesTruncated shares

end ValidatorI

/-- `types.StakingKeeper`: what the distribution keeper asks of staking. A missing validator or
delegation is `none`. -/
structure StakingKeeper (σ : Type) where
  Validator : σ → Address → Option ValidatorI
  ValidatorByConsAddr : σ → Address → Option ValidatorI
  Delegation : σ → Address → Address → Option Staking.Delegation

/-- What the keeper assumes of staking: a validator is found under its operator address, and a
delegation under its delegator's and validator's addresses, as the staking store keys them. -/
structure StakingKeeper.Keyed {σ : Type} (sk : StakingKeeper σ) : Prop where
  validator : ∀ st a v, sk.Validator st a = some v → v.GetOperator = a
  delegation : ∀ st d a del, sk.Delegation st d a = some del → del.DelegatorAddress = d ∧ del.ValidatorAddress = a

/-- What the keeper is built with: the addresses of the fee collector's and of its own module
account, which the supply keeper derives from their names, and the blacklisted addresses. -/
structure Keeper where
  feeCollectorAddr : Address
  moduleAddr : Address
  blacklistedAddrs : List Address

/-! ### The store -/

/-- The distribution store, the account balances and the staking state. Historical rewards are
keyed by validator and period, starting infos by validator and delegator, slash events by
validator, height and period. -/
structure State (σ : Type) where
  params : Params
  feePool : Option FeePool
  previousProposer : Option Address
  withdrawAddrs : AList (fun _ : Address => Address)
  startingInfos : AList (fun _ : Address × Address => DelegatorStartingInfo)
  historicalRewards : AList (fun _ : Address × Nat => ValidatorHistoricalRewards)
  currentRewards : AList (fun _ : Address => ValidatorCurrentRewards)
  accumulatedCommission : AList (fun _ : Address => DecCoins)
  outstandingRewards : AList (fun _ : Address => DecCoins)
  slashEvents : AList (fun _ : Address × Nat × Nat => ValidatorSlashEvent)
  accounts : Bank.Balances
  staking : σ

/-- A keeper method: a Go error is returned through `ExceptT`, a panic fails underneath. -/
abbrev DM (σ : Type) := ExceptT Err (StateT (State σ) (Except String))

variable {σ α : Type}

def panicD (msg : String) : DM σ α := ExceptT.lift (StateT.lift (.error msg))

def liftPanic (x : Except String α) : DM σ α := ExceptT.lift (StateT.lift x)

/-- The text of Go's panic on a method call through a nil interface. -/
def nilPointerPanic : String := "runtime error: invalid memory address or nil pointer dereference"

/-- A value the source uses through a pointer or interface that may be nil. -/
def mustBePresent : Option α → DM σ α
  | some a => pure a
  | none => panicD nilPointerPanic

/-- `MustUnmarshalBinaryLengthPrefixed` of what a getter read: a missing key is empty bytes, which
amino refuses with a panic. -/
def mustUnmarshal : Option α → DM σ α
  | some a => pure a
  | none => panicD "UnmarshalBinaryLengthPrefixed cannot decode empty bytes"

section Store

variable {val del : Address} {period : Nat}

def GetDelegatorWithdrawAddr (delAddr : Address) : DM σ Address := do
  return ((← get).withdrawAddrs.lookup delAddr).getD delAddr

def SetDelegatorWithdrawAddr (delAddr withdrawAddr : Address) : DM σ Unit :=
  modify fun s => { s with withdrawAddrs := s.withdrawAddrs.insert delAddr withdrawAddr }

def GetFeePool : DM σ FeePool := do
  match (← get).feePool with
  | some feePool => pure feePool
  | none => panicD "Stored fee pool should not have been nil"

def SetFeePool (feePool : FeePool) : DM σ Unit := modify fun s => { s with feePool := some feePool }

def GetPreviousProposerConsAddr : DM σ Address := do
  match (← get).previousProposer with
  | some consAddr => pure consAddr
  | none => panicD "Previous proposer not set"

def SetPreviousProposerConsAddr (consAddr : Address) : DM σ Unit :=
  modify fun s => { s with previousProposer := some consAddr }

def GetDelegatorStartingInfo (val del : Address) : DM σ DelegatorStartingInfo := do
  mustUnmarshal ((← get).startingInfos.lookup (val, del))

def SetDelegatorStartingInfo (val del : Address) (period : DelegatorStartingInfo) : DM σ Unit :=
  modify fun s => { s with startingInfos := s.startingInfos.insert (val, del) period }

def HasDelegatorStartingInfo (val del : Address) : DM σ Bool := do
  return ((← get).startingInfos.lookup (val, del)).isSome

def DeleteDelegatorStartingInfo (val del : Address) : DM σ Unit :=
  modify fun s => { s with startingInfos := s.startingInfos.erase (val, del) }

def GetValidatorHistoricalRewards (val : Address) (period : Nat) : DM σ ValidatorHistoricalRewards := do
  mustUnmarshal ((← get).historicalRewards.lookup (val, period))

def SetValidatorHistoricalRewards (val : Address) (period : Nat) (rewards : ValidatorHistoricalRewards) :
    DM σ Unit :=
  modify fun s => { s with historicalRewards := s.historicalRewards.insert (val, period) rewards }

def DeleteValidatorHistoricalReward (val : Address) (period : Nat) : DM σ Unit :=
  modify fun s => { s with historicalRewards := s.historicalRewards.erase (val, period) }

/-- `DeleteValidatorHistoricalRewards`: every period of the validator, as the prefix iterator
deletes them. -/
def DeleteValidatorHistoricalRewards (val : Address) : DM σ Unit :=
  modify fun s => { s with historicalRewards := s.historicalRewards.filterKeys fun k => k.1 ≠ val }

def GetValidatorCurrentRewards (val : Address) : DM σ ValidatorCurrentRewards := do
  mustUnmarshal ((← get).currentRewards.lookup val)

def SetValidatorCurrentRewards (val : Address) (rewards : ValidatorCurrentRewards) : DM σ Unit :=
  modify fun s => { s with currentRewards := s.currentRewards.insert val rewards }

def DeleteValidatorCurrentRewards (val : Address) : DM σ Unit :=
  modify fun s => { s with currentRewards := s.currentRewards.erase val }

/-- `GetValidatorAccumulatedCommission`: a missing commission is none. -/
def GetValidatorAccumulatedCommission (val : Address) : DM σ DecCoins := do
  return ((← get).accumulatedCommission.lookup val).getD []

/-- `SetValidatorAccumulatedCommission`: a zero commission is stored as the empty list. -/
def SetValidatorAccumulatedCommission (val : Address) (commission : DecCoins) : DM σ Unit :=
  modify fun s => { s with accumulatedCommission :=
    s.accumulatedCommission.insert val (if commission.IsZero then [] else commission) }

def DeleteValidatorAccumulatedCommission (val : Address) : DM σ Unit :=
  modify fun s => { s with accumulatedCommission := s.accumulatedCommission.erase val }

def GetValidatorOutstandingRewards (val : Address) : DM σ DecCoins := do
  mustUnmarshal ((← get).outstandingRewards.lookup val)

def SetValidatorOutstandingRewards (val : Address) (rewards : DecCoins) : DM σ Unit :=
  modify fun s => { s with outstandingRewards := s.outstandingRewards.insert val rewards }

def DeleteValidatorOutstandingRewards (val : Address) : DM σ Unit :=
  modify fun s => { s with outstandingRewards := s.outstandingRewards.erase val }

def SetValidatorSlashEvent (val : Address) (height period : Nat) (event : ValidatorSlashEvent) : DM σ Unit :=
  modify fun s => { s with slashEvents := s.slashEvents.insert (val, height, period) event }

/-- Key order on slash events of one validator: by height, then by period, as the big-endian
bytes of the store key order them. -/
def slashKeyLE (a b : (Nat × Nat) × ValidatorSlashEvent) : Bool :=
  decide (a.1.1 < b.1.1 ∨ (a.1.1 = b.1.1 ∧ a.1.2 ≤ b.1.2))

/-- `IterateValidatorSlashEventsBetween`: the validator's events at heights from `startingHeight`
to `endingHeight`, in key order, with their heights. -/
def IterateValidatorSlashEventsBetween (val : Address) (startingHeight endingHeight : Nat) :
    DM σ (List (Nat × ValidatorSlashEvent)) := do
  let events := (← get).slashEvents.entries.filterMap fun e =>
    if e.1.1 = val ∧ startingHeight ≤ e.1.2.1 ∧ e.1.2.1 ≤ endingHeight then some (e.1.2, e.2) else none
  return ((events.mergeSort slashKeyLE).map fun e => (e.1.1, e.2))

def DeleteValidatorSlashEvents (val : Address) : DM σ Unit :=
  modify fun s => { s with slashEvents := s.slashEvents.filterKeys fun k => k.1 ≠ val }

end Store

/-! ### The bank -/

/-- A bank call: its panic fails underneath, its error is returned. -/
def liftBank (r : Except String (Except Bank.Err Bank.Balances)) : DM σ Unit := do
  let b ← ExceptT.mk (StateT.lift (r.map (Except.mapError Err.Bank)))
  modify fun s => { s with accounts := b }

/-- The coins of the fee collector's module account. -/
def GetFeeCollectorCoins (k : Keeper) : DM σ Coins := do
  return Bank.GetCoins (← get).accounts k.feeCollectorAddr

/-- `SendCoinsFromModuleToAccount` from the module's account. -/
def SendCoinsFromModuleToAccount (k : Keeper) (recipientAddr : Address) (amt : Coins) : DM σ Unit := do
  liftBank (Bank.SendCoins (← get).accounts k.moduleAddr recipientAddr amt)

/-- `SendCoinsFromModuleToModule` from the fee collector to the module's account. -/
def SendCoinsFromFeeCollector (k : Keeper) (amt : Coins) : DM σ Unit := do
  liftBank (Bank.SendCoins (← get).accounts k.feeCollectorAddr k.moduleAddr amt)

/-! ### Reading and writing the store -/

section Rules

variable {E : Err → State σ → Prop} {s : State σ} {val del : Address} {period : Nat}

@[simp] theorem ewp_panicD {Q : α → State σ → Prop} (msg : String) : ewp (panicD msg : DM σ α) Q E s := by
  simp [panicD]

@[simp] theorem ewp_liftPanic {Q : α → State σ → Prop} (x : Except String α) :
    ewp (liftPanic x : DM σ α) Q E s ↔ ∀ a, x = .ok a → Q a s := by
  simp [liftPanic]

@[simp] theorem ewp_mustBePresent {Q : α → State σ → Prop} (o : Option α) :
    ewp (mustBePresent o : DM σ α) Q E s ↔ ∀ a, o = some a → Q a s := by
  cases o <;> simp [mustBePresent]

@[simp] theorem ewp_mustUnmarshal {Q : α → State σ → Prop} (o : Option α) :
    ewp (mustUnmarshal o : DM σ α) Q E s ↔ ∀ a, o = some a → Q a s := by
  cases o <;> simp [mustUnmarshal]

@[simp] theorem ewp_GetDelegatorWithdrawAddr {Q : Address → State σ → Prop} :
    ewp (GetDelegatorWithdrawAddr del) Q E s ↔ Q ((s.withdrawAddrs.lookup del).getD del) s := Iff.rfl

@[simp] theorem ewp_SetDelegatorWithdrawAddr {Q : Unit → State σ → Prop} (withdrawAddr : Address) :
    ewp (SetDelegatorWithdrawAddr del withdrawAddr) Q E s ↔
      Q () { s with withdrawAddrs := s.withdrawAddrs.insert del withdrawAddr } := Iff.rfl

@[simp] theorem ewp_GetFeePool {Q : FeePool → State σ → Prop} :
    ewp (GetFeePool : DM σ FeePool) Q E s ↔ ∀ feePool, s.feePool = some feePool → Q feePool s := by
  unfold GetFeePool
  rw [ewp_bind, ewp_get]
  split <;> simp_all

@[simp] theorem ewp_SetFeePool {Q : Unit → State σ → Prop} (feePool : FeePool) :
    ewp (SetFeePool feePool) Q E s ↔ Q () { s with feePool := some feePool } := Iff.rfl

@[simp] theorem ewp_GetPreviousProposerConsAddr {Q : Address → State σ → Prop} :
    ewp (GetPreviousProposerConsAddr : DM σ Address) Q E s ↔ ∀ a, s.previousProposer = some a → Q a s := by
  unfold GetPreviousProposerConsAddr
  rw [ewp_bind, ewp_get]
  split <;> simp_all

@[simp] theorem ewp_SetPreviousProposerConsAddr {Q : Unit → State σ → Prop} (consAddr : Address) :
    ewp (SetPreviousProposerConsAddr consAddr) Q E s ↔ Q () { s with previousProposer := some consAddr } :=
  Iff.rfl

@[simp] theorem ewp_GetDelegatorStartingInfo {Q : DelegatorStartingInfo → State σ → Prop} :
    ewp (GetDelegatorStartingInfo val del) Q E s ↔
      ∀ info, s.startingInfos.lookup (val, del) = some info → Q info s := by
  simp [GetDelegatorStartingInfo]

@[simp] theorem ewp_SetDelegatorStartingInfo {Q : Unit → State σ → Prop} (info : DelegatorStartingInfo) :
    ewp (SetDelegatorStartingInfo val del info) Q E s ↔
      Q () { s with startingInfos := s.startingInfos.insert (val, del) info } := Iff.rfl

@[simp] theorem ewp_HasDelegatorStartingInfo {Q : Bool → State σ → Prop} :
    ewp (HasDelegatorStartingInfo val del) Q E s ↔ Q (s.startingInfos.lookup (val, del)).isSome s := Iff.rfl

@[simp] theorem ewp_DeleteDelegatorStartingInfo {Q : Unit → State σ → Prop} :
    ewp (DeleteDelegatorStartingInfo val del) Q E s ↔
      Q () { s with startingInfos := s.startingInfos.erase (val, del) } := Iff.rfl

@[simp] theorem ewp_GetValidatorHistoricalRewards {Q : ValidatorHistoricalRewards → State σ → Prop} :
    ewp (GetValidatorHistoricalRewards val period) Q E s ↔
      ∀ h, s.historicalRewards.lookup (val, period) = some h → Q h s := by
  simp [GetValidatorHistoricalRewards]

@[simp] theorem ewp_SetValidatorHistoricalRewards {Q : Unit → State σ → Prop} (rewards : ValidatorHistoricalRewards) :
    ewp (SetValidatorHistoricalRewards val period rewards) Q E s ↔
      Q () { s with historicalRewards := s.historicalRewards.insert (val, period) rewards } := Iff.rfl

@[simp] theorem ewp_DeleteValidatorHistoricalReward {Q : Unit → State σ → Prop} :
    ewp (DeleteValidatorHistoricalReward val period) Q E s ↔
      Q () { s with historicalRewards := s.historicalRewards.erase (val, period) } := Iff.rfl

@[simp] theorem ewp_DeleteValidatorHistoricalRewards {Q : Unit → State σ → Prop} :
    ewp (DeleteValidatorHistoricalRewards val) Q E s ↔
      Q () { s with historicalRewards := s.historicalRewards.filterKeys fun k => k.1 ≠ val } := Iff.rfl

@[simp] theorem ewp_GetValidatorCurrentRewards {Q : ValidatorCurrentRewards → State σ → Prop} :
    ewp (GetValidatorCurrentRewards val) Q E s ↔ ∀ c, s.currentRewards.lookup val = some c → Q c s := by
  simp [GetValidatorCurrentRewards]

@[simp] theorem ewp_SetValidatorCurrentRewards {Q : Unit → State σ → Prop} (rewards : ValidatorCurrentRewards) :
    ewp (SetValidatorCurrentRewards val rewards) Q E s ↔
      Q () { s with currentRewards := s.currentRewards.insert val rewards } := Iff.rfl

@[simp] theorem ewp_DeleteValidatorCurrentRewards {Q : Unit → State σ → Prop} :
    ewp (DeleteValidatorCurrentRewards val) Q E s ↔ Q () { s with currentRewards := s.currentRewards.erase val } :=
  Iff.rfl

@[simp] theorem ewp_GetValidatorAccumulatedCommission {Q : DecCoins → State σ → Prop} :
    ewp (GetValidatorAccumulatedCommission val) Q E s ↔ Q ((s.accumulatedCommission.lookup val).getD []) s :=
  Iff.rfl

@[simp] theorem ewp_SetValidatorAccumulatedCommission {Q : Unit → State σ → Prop} (commission : DecCoins) :
    ewp (SetValidatorAccumulatedCommission val commission) Q E s ↔
      Q () { s with accumulatedCommission :=
        s.accumulatedCommission.insert val (if commission.IsZero then [] else commission) } := Iff.rfl

@[simp] theorem ewp_DeleteValidatorAccumulatedCommission {Q : Unit → State σ → Prop} :
    ewp (DeleteValidatorAccumulatedCommission val) Q E s ↔
      Q () { s with accumulatedCommission := s.accumulatedCommission.erase val } := Iff.rfl

@[simp] theorem ewp_GetValidatorOutstandingRewards {Q : DecCoins → State σ → Prop} :
    ewp (GetValidatorOutstandingRewards val) Q E s ↔
      ∀ rewards, s.outstandingRewards.lookup val = some rewards → Q rewards s := by
  simp [GetValidatorOutstandingRewards]

@[simp] theorem ewp_SetValidatorOutstandingRewards {Q : Unit → State σ → Prop} (rewards : DecCoins) :
    ewp (SetValidatorOutstandingRewards val rewards) Q E s ↔
      Q () { s with outstandingRewards := s.outstandingRewards.insert val rewards } := Iff.rfl

@[simp] theorem ewp_DeleteValidatorOutstandingRewards {Q : Unit → State σ → Prop} :
    ewp (DeleteValidatorOutstandingRewards val) Q E s ↔
      Q () { s with outstandingRewards := s.outstandingRewards.erase val } := Iff.rfl

@[simp] theorem ewp_SetValidatorSlashEvent {Q : Unit → State σ → Prop} (height : Nat) (event : ValidatorSlashEvent) :
    ewp (SetValidatorSlashEvent val height period event) Q E s ↔
      Q () { s with slashEvents := s.slashEvents.insert (val, height, period) event } := Iff.rfl

@[simp] theorem ewp_DeleteValidatorSlashEvents {Q : Unit → State σ → Prop} :
    ewp (DeleteValidatorSlashEvents val) Q E s ↔
      Q () { s with slashEvents := s.slashEvents.filterKeys fun k => k.1 ≠ val } := Iff.rfl

@[simp] theorem ewp_liftBank {Q : Unit → State σ → Prop} (r : Except String (Except Bank.Err Bank.Balances)) :
    ewp (liftBank r) Q E s ↔
      (∀ b, r = .ok (.ok b) → Q () { s with accounts := b }) ∧ (∀ e, r = .ok (.error e) → E (.Bank e) s) := by
  unfold liftBank
  rw [ewp_bind, ewp_mk_lift]
  constructor
  · rintro h
    refine ⟨fun b hb => ?_, fun e he => ?_⟩
    · exact h (.ok b) (by rw [hb]; rfl)
    · exact h (.error (.Bank e)) (by rw [he]; rfl)
  · rintro ⟨hok, herr⟩ r' hr'
    cases r with
    | error msg => cases hr'
    | ok r =>
      cases r with
      | ok b =>
        cases hr'
        exact hok b rfl
      | error e =>
        cases hr'
        exact herr e rfl

@[simp] theorem ewp_GetFeeCollectorCoins {Q : Coins → State σ → Prop} (k : Keeper) :
    ewp (GetFeeCollectorCoins k) Q E s ↔ Q (Bank.GetCoins s.accounts k.feeCollectorAddr) s := Iff.rfl

@[simp] theorem ewp_SendCoinsFromModuleToAccount {Q : Unit → State σ → Prop} (k : Keeper) (recipientAddr : Address)
    (amt : Coins) :
    ewp (SendCoinsFromModuleToAccount k recipientAddr amt) Q E s ↔
      (∀ b, Bank.SendCoins s.accounts k.moduleAddr recipientAddr amt = .ok (.ok b) → Q () { s with accounts := b }) ∧
        ∀ e, Bank.SendCoins s.accounts k.moduleAddr recipientAddr amt = .ok (.error e) → E (.Bank e) s := by
  unfold SendCoinsFromModuleToAccount
  rw [ewp_bind, ewp_get, ewp_liftBank]

@[simp] theorem ewp_SendCoinsFromFeeCollector {Q : Unit → State σ → Prop} (k : Keeper) (amt : Coins) :
    ewp (SendCoinsFromFeeCollector k amt) Q E s ↔
      (∀ b, Bank.SendCoins s.accounts k.feeCollectorAddr k.moduleAddr amt = .ok (.ok b) →
        Q () { s with accounts := b }) ∧
        ∀ e, Bank.SendCoins s.accounts k.feeCollectorAddr k.moduleAddr amt = .ok (.error e) → E (.Bank e) s := by
  unfold SendCoinsFromFeeCollector
  rw [ewp_bind, ewp_get, ewp_liftBank]

end Rules

end Distribution

end Dipper
