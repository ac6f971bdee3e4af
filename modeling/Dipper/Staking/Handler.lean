import Dipper.Staking.EndBlock
import Dipper.Lib.StateExcept

/-!
# Messages, handlers and runs of the staking module

The five messages of `types/msg.go` with their `ValidateBasic`, the handlers of `handler.go`,
and the delivery of a message as a transaction: the handler runs on a cached store that is
written back only when it succeeds, so a message that returns an error leaves the state as it
was. A run is a sequence of events: a delivered message, the end-block, the next block, and the
calls of the slashing module (`Slash`, `Jail`, `Unjail`). A panic stops a run. Descriptions,
commissions and the consensus-key type check are not modelled.
-/

namespace Dipper

namespace Staking

open Dec Validator

/-- The staking messages, with the fields the modelled handlers read. -/
inductive Msg
  | MsgCreateValidator (DelegatorAddress ValidatorAddress ConsAddress : Address) (Value : Coin)
      (MinSelfDelegation : Int)
  | MsgEditValidator (ValidatorAddress : Address) (MinSelfDelegation : Option Int)
  | MsgDelegate (DelegatorAddress ValidatorAddress : Address) (Amount : Coin)
  | MsgBeginRedelegate (DelegatorAddress ValidatorSrcAddress ValidatorDstAddress : Address)
      (Amount : Coin)
  | MsgUndelegate (DelegatorAddress ValidatorAddress : Address) (Amount : Coin)
  deriving DecidableEq, Repr

namespace Msg

def ValidateBasic : Msg → Except Err Unit
  | MsgCreateValidator del val _ value minSelfDelegation => do
    if del.isEmpty then throw .EmptyDelegatorAddr
    if val.isEmpty then throw .EmptyValidatorAddr
    if val ≠ del then throw .BadValidatorAddr
    if value.amount ≤ 0 then throw .BadDelegationAmount
    if minSelfDelegation ≤ 0 then throw .MinSelfDelegationInvalid
    if value.amount < minSelfDelegation then throw .SelfDelegationBelowMinimum
  | MsgEditValidator val minSelfDelegation => do
    if val.isEmpty then throw .EmptyValidatorAddr
    if let some m := minSelfDelegation then
      if m ≤ 0 then throw .MinSelfDelegationInvalid
  | MsgDelegate del val amount => do
    if del.isEmpty then throw .EmptyDelegatorAddr
    if val.isEmpty then throw .EmptyValidatorAddr
    if amount.amount ≤ 0 then throw .BadDelegationAmount
  | MsgBeginRedelegate del src dst amount => do
    if del.isEmpty then throw .EmptyDelegatorAddr
    if src.isEmpty then throw .EmptyValidatorAddr
    if dst.isEmpty then throw .EmptyValidatorAddr
    if amount.amount ≤ 0 then throw .BadSharesAmount
  | MsgUndelegate del val amount => do
    if del.isEmpty then throw .EmptyDelegatorAddr
    if val.isEmpty then throw .EmptyValidatorAddr
    if amount.amount ≤ 0 then throw .BadSharesAmount

end Msg

/-! ### Handlers -/

def handleMsgCreateValidator (del val consAddr : Address) (value : Coin) (minSelfDelegation : Int) :
    KM Unit := do
  if (← GetValidator val).isSome then throw .ValidatorOwnerExists
  if (← GetValidatorByConsAddr consAddr).isSome then throw .ValidatorPubKeyExists
  if value.denom ≠ (← get).params.BondDenom then throw .BadDenom
  let validator := { NewValidator val consAddr with MinSelfDelegation := minSelfDelegation }
  SetValidator validator
  SetValidatorByConsAddr validator
  SetNewValidatorByPowerIndex validator
  callHook (.AfterValidatorCreated validator.OperatorAddress)
  discard <| Delegate del value.amount .Unbonded validator true

/-- `handleMsgEditValidator`: the minimum self-delegation only rises, and not above
the tokens. -/
def handleMsgEditValidator (val : Address) (minSelfDelegation : Option Int) : KM Unit := do
  let some validator ← GetValidator val | throw .NoValidatorFound
  let validator ← match minSelfDelegation with
    | none => pure validator
    | some m => do
      if m ≤ validator.MinSelfDelegation then throw .MinSelfDelegationDecreased
      if validator.Tokens < m then throw .SelfDelegationBelowMinimum
      pure { validator with MinSelfDelegation := m }
  SetValidator validator

def handleMsgDelegate (del val : Address) (amount : Coin) : KM Unit := do
  let some validator ← GetValidator val | throw .NoValidatorFound
  if amount.denom ≠ (← get).params.BondDenom then throw .BadDenom
  discard <| Delegate del amount.amount .Unbonded validator true

def handleMsgUndelegate (del val : Address) (amount : Coin) : KM Unit := do
  let shares ← ValidateUnbondAmount del val amount.amount
  if amount.denom ≠ (← get).params.BondDenom then throw .BadDenom
  discard <| Undelegate del val shares

def handleMsgBeginRedelegate (del src dst : Address) (amount : Coin) : KM Unit := do
  let shares ← ValidateUnbondAmount del src amount.amount
  if amount.denom ≠ (← get).params.BondDenom then throw .BadDenom
  discard <| BeginRedelegation del src dst shares

def NewHandler : Msg → KM Unit
  | .MsgCreateValidator del val consAddr value m => handleMsgCreateValidator del val consAddr value m
  | .MsgEditValidator val m => handleMsgEditValidator val m
  | .MsgDelegate del val amount => handleMsgDelegate del val amount
  | .MsgBeginRedelegate del src dst amount => handleMsgBeginRedelegate del src dst amount
  | .MsgUndelegate del val amount => handleMsgUndelegate del val amount

/-- A message delivered in a transaction: its error, if any, and the state after it.
The handler's writes are kept only when it succeeds; a panic is the outer error. -/
def DeliverMsg (msg : Msg) (s : State) : Except String (Option Err × State) :=
  match msg.ValidateBasic with
  | .error e => .ok (some e, s)
  | .ok () => do
    let (r, s') ← (NewHandler msg).run.run s
    match r with
    | .ok () => pure (none, s')
    | .error e => pure (some e, s)

/-! ### Runs -/

/-- What can happen to the staking state. -/
inductive Event
  | Deliver (msg : Msg)
  | EndBlock
  /-- The next block, at the given time. -/
  | NewBlock (time : Int)
  | Slash (consAddr : Address) (infractionHeight power : Int) (slashFactor : Dec)
  | Jail (consAddr : Address)
  | Unjail (consAddr : Address)
  deriving DecidableEq, Repr

namespace Event

/-- The state after an event; a panic is an error. -/
def apply : Event → State → Except String State
  | Deliver msg, s => (DeliverMsg msg s).map (·.2)
  | EndBlock, s => (BlockValidatorUpdates.run.run s).map (·.2)
  | NewBlock time, s => .ok { s with height := s.height + 1, time := time }
  | Slash consAddr infractionHeight power slashFactor, s =>
    ((Staking.Slash consAddr infractionHeight power slashFactor).run.run s).map (·.2)
  | Jail consAddr, s => ((Staking.Jail consAddr).run.run s).map (·.2)
  | Unjail consAddr, s => ((Staking.Unjail consAddr).run.run s).map (·.2)

/-- What the chain lets happen: block times do not go back, and the slashing module
slashes by a fraction between zero and one. -/
def Admissible : Event → State → Prop
  | NewBlock time, s => s.time ≤ time
  | Slash _ _ _ slashFactor, _ => 0 ≤ slashFactor.i ∧ slashFactor.i ≤ precisionReuse
  | _, _ => True

instance instDecidableAdmissible (e : Event) (s : State) : Decidable (e.Admissible s) := by
  cases e <;> unfold Admissible <;> infer_instance

end Event

/-- A genesis without validators: the params, the accounts and the block header. -/
def genesisState (params : Params) (accounts : AList (fun _ : Address => Int)) (supply height time : Int) :
    State :=
  ⟨params, ∅, ∅, ∅, ∅, ∅, ∅, ∅, 0, ∅, ∅, ∅, ⟨accounts, 0, 0, supply⟩, height, time, []⟩

/-- The states that admissible events reach from a genesis without validators. -/
inductive Reachable : State → Prop
  | genesis (params accounts supply height time) : Reachable (genesisState params accounts supply height time)
  | step {s s' : State} (e : Event) : Reachable s → e.Admissible s → e.apply s = .ok s' → Reachable s'

/-- Events one after another, stopping at the first panic or inadmissible event. -/
def runEvents : State → List Event → Except String State
  | s, [] => .ok s
  | s, e :: es => if e.Admissible s then do runEvents (← e.apply s) es else .error "inadmissible event"

theorem Reachable.runEvents {s s' : State} {es : List Event} (hs : Reachable s)
    (h : Staking.runEvents s es = .ok s') : Reachable s' := by
  induction es generalizing s with
  | nil => cases h; exact hs
  | cons e es ih =>
    unfold Staking.runEvents at h
    split at h
    · rename_i hadm
      cases happ : e.apply s with
      | error msg => rw [happ] at h; cases h
      | ok t =>
        rw [happ] at h
        exact ih (hs.step e hadm happ) h
    · cases h

/-- A run that succeeds from a reachable state ends in one: evaluating the run
proves a property of a reachable state. -/
theorem Reachable.exists_of_runEvents {s : State} {P : State → Prop} (hs : Reachable s) (es : List Event)
    (hok : (Staking.runEvents s es).isOk = true) (h : ∀ s', Staking.runEvents s es = .ok s' → P s') :
    ∃ s', Reachable s' ∧ P s' := by
  cases hrun : Staking.runEvents s es with
  | error e => rw [hrun] at hok; cases hok
  | ok s' => exact ⟨s', hs.runEvents hrun, h s' hrun⟩

/-! ### Three runs from one genesis -/

/-- Accounts \[1\], \[2\] and \[3\] with bond-denom coins, at height 1 and time 0. -/
def fundedGenesis : State :=
  genesisState DefaultParams
    ((((∅ : AList (fun _ : Address => Int)).insert [1] 2000000000000).insert [2] 2000000000000).insert [3] 1000)
    4000000001000 1 0

theorem fundedGenesis_reachable : Reachable fundedGenesis := .genesis _ _ _ _ _

/-- The lever bound asked of a validator that is not jailed: a positive
self-delegation, and delegator shares at most `maxLever` times it. -/
def LeverBounded (maxLever : Dec) (v : Validator) : Prop :=
  v.Jailed = false → 0 < v.SelfDelegation.i ∧ v.DelegatorShares.i * precisionReuse ≤ maxLever.i * v.SelfDelegation.i

instance instDecidableLeverBounded (maxLever : Dec) (v : Validator) : Decidable (LeverBounded maxLever v) := by
  unfold LeverBounded; infer_instance

/-- \[1\] creates a validator with 100, \[2\] delegates 1900 (a lever of exactly 20),
and \[1\] undelegates 50: `unbond` checks the lever with the shares added rather
than removed, (2000 + 50) / (100 + 50), and the validator stays unjailed at a lever
of 39. -/
def leverRun : List Event :=
  [.Deliver (.MsgCreateValidator [1] [1] [0xc1] ⟨NativeTokenName, 100⟩ 1),
   .Deliver (.MsgDelegate [2] [1] ⟨NativeTokenName, 1900⟩),
   .Deliver (.MsgUndelegate [1] [1] ⟨NativeTokenName, 50⟩)]

theorem unbond_leaves_lever_exceeded :
    ∃ s, Reachable s ∧ ∃ v, s.validators.lookup [1] = some v ∧ ¬ LeverBounded s.params.MaxLever v := by
  refine fundedGenesis_reachable.exists_of_runEvents leverRun (by decide +kernel) ?_
  intro s hrun
  have hv : ((Staking.runEvents fundedGenesis leverRun).map fun s =>
      (s.validators.lookup [1]).map fun v => decide (LeverBounded s.params.MaxLever v)) = .ok (some false) := by
    decide +kernel
  rw [hrun] at hv
  replace hv : (s.validators.lookup [1]).map (fun v => decide (LeverBounded s.params.MaxLever v)) = some false :=
    Except.ok.inj hv
  cases hl : s.validators.lookup [1] with
  | none => rw [hl] at hv; cases hv
  | some v =>
    rw [hl] at hv
    exact ⟨v, rfl, of_decide_eq_false (Option.some.inj hv)⟩

/-- \[1\] creates a validator with 100, \[2\] delegates 100, and \[1\] undelegates
all of its 100: the validator is jailed with no self-delegation. -/
def zeroSelfDelegationRun : List Event :=
  [.Deliver (.MsgCreateValidator [1] [1] [0xc1] ⟨NativeTokenName, 100⟩ 1),
   .Deliver (.MsgDelegate [2] [1] ⟨NativeTokenName, 100⟩),
   .Deliver (.MsgUndelegate [1] [1] ⟨NativeTokenName, 100⟩)]

/-- The next delegation to it divides by the zero self-delegation in `BondedLever`. -/
theorem handleMsgDelegate_divides_by_zero :
    ∃ s, Reachable s ∧ DeliverMsg (.MsgDelegate [2] [1] ⟨NativeTokenName, 1⟩) s = .error "division by zero" := by
  refine fundedGenesis_reachable.exists_of_runEvents zeroSelfDelegationRun (by decide +kernel) ?_
  intro s hrun
  have hpanic : ((Staking.runEvents fundedGenesis zeroSelfDelegationRun).bind
      (DeliverMsg (.MsgDelegate [2] [1] ⟨NativeTokenName, 1⟩))).map (fun _ => ()) = .error "division by zero" := by
    decide +kernel
  rw [hrun] at hpanic
  exact StateExcept.eq_error_of_map hpanic

/-- \[1\] creates a validator with 10¹², \[2\] delegates as much, and the end-block
bonds it. \[3\] creates a validator with 10; in the next block \[2\] redelegates 10
from \[1\] to \[3\], and \[3\] undelegates all of its own 10, which jails it. -/
def redelegationRun : List Event :=
  [.Deliver (.MsgCreateValidator [1] [1] [0xc1] ⟨NativeTokenName, 1000000000000⟩ 1),
   .Deliver (.MsgDelegate [2] [1] ⟨NativeTokenName, 1000000000000⟩),
   .EndBlock,
   .Deliver (.MsgCreateValidator [3] [3] [0xc3] ⟨NativeTokenName, 10⟩ 1),
   .NewBlock 5,
   .Deliver (.MsgBeginRedelegate [2] [1] [3] ⟨NativeTokenName, 10⟩),
   .Deliver (.MsgUndelegate [3] [3] ⟨NativeTokenName, 10⟩),
   .EndBlock,
   .NewBlock 10]

/-- Slashing the bonded validator \[1\] in the block after, for an infraction at the
height of the redelegation, unbonds all of \[2\]'s shares from \[3\]; that removes
\[3\], and reading it back panics. -/
theorem Slash_panics_on_removed_destination :
    ∃ s, Reachable s ∧ 2 < s.height ∧ s.validatorsByConsAddr.lookup [0xc1] = some [1] ∧
      (s.validators.lookup [1]).map (·.Status) = some .Bonded ∧
      (Slash [0xc1] 2 2 OneDec).run.run s = .error "destination validator not found" := by
  refine fundedGenesis_reachable.exists_of_runEvents redelegationRun (by decide +kernel) ?_
  intro s hrun
  have hstate : ((Staking.runEvents fundedGenesis redelegationRun).map fun s =>
      (decide (2 < s.height), s.validatorsByConsAddr.lookup [0xc1], (s.validators.lookup [1]).map (·.Status))) =
        .ok (true, some [1], some .Bonded) := by
    decide +kernel
  have hpanic : ((Staking.runEvents fundedGenesis redelegationRun).bind
      fun s => (Slash [0xc1] 2 2 OneDec).run.run s).map (fun _ => ()) = .error "destination validator not found" := by
    decide +kernel
  rw [hrun] at hstate hpanic
  replace hstate := Except.ok.inj hstate
  simp only [Prod.mk.injEq, decide_eq_true_eq] at hstate
  obtain ⟨hh, hc, hb⟩ := hstate
  exact ⟨hh, hc, hb, StateExcept.eq_error_of_map hpanic⟩

end Staking

end Dipper
