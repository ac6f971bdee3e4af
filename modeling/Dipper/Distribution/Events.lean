import Dipper.Distribution.Keeper
import Dipper.Lib.Runs

/-!
# What happens to the distribution store

The keeper is driven from outside: the begin-blocker of each block, the module's messages, a
community-pool spend that governance has passed, the bank transfers of the other modules, and
the staking module, which calls the hooks around its own writes. Each event is one of these,
with the staking state the staking module leaves. The calls around a staking write are those of
`staking/keeper`: a delegation calls `BeforeDelegationSharesModified` on a delegation it has and
`BeforeDelegationCreated` on a new one, then `AfterDelegationModified`; an unbonding calls the
first and, if shares are left, the last; a slash calls `BeforeValidatorSlashed` before the
validator's tokens go; a validator is created or removed and then the hook runs.
-/

namespace Dipper

namespace Distribution

open StateExcept

variable {σ : Type} (sk : StakingKeeper σ) (k : Keeper)

/-- A hook or the begin-blocker: a returned error stops the run as a panic does. -/
def runHook {α : Type} (x : DM σ α) (s : State σ) : Except String (State σ) :=
  match x.run.run s with
  | .ok (.ok _, s') => .ok s'
  | .ok (.error e, _) => .error e.text
  | .error msg => .error msg

/-- A transaction: a returned error discards its writes. -/
def runTx {α : Type} (x : DM σ α) (s : State σ) : Except String (State σ) :=
  match x.run.run s with
  | .ok (.ok _, s') => .ok s'
  | .ok (.error _, _) => .ok s
  | .error msg => .error msg

/-- The staking state after a staking write. -/
def SetStaking (staking : σ) : DM σ Unit := modify fun s => { s with staking }

/-- `Delegate`: the hook before the write depends on whether staking had the delegation. -/
def delegateHooks (ctx : Ctx) (delAddr valAddr : Address) (staking : σ) : DM σ Unit := do
  if (sk.Delegation (← get).staking delAddr valAddr).isSome then
    BeforeDelegationSharesModified sk k ctx delAddr valAddr
  else BeforeDelegationCreated sk valAddr
  SetStaking staking
  AfterDelegationModified sk ctx delAddr valAddr

/-- `unbond`: a delegation with shares left starts afresh; one without is removed. -/
def unbondHooks (ctx : Ctx) (delAddr valAddr : Address) (staking : σ) : DM σ Unit := do
  BeforeDelegationSharesModified sk k ctx delAddr valAddr
  SetStaking staking
  if (sk.Delegation staking delAddr valAddr).isSome then AfterDelegationModified sk ctx delAddr valAddr

/-- `Slash`: the slash event is recorded before the tokens are burned. -/
def slashHooks (ctx : Ctx) (valAddr : Address) (fraction : Dec) (staking : σ) : DM σ Unit := do
  BeforeValidatorSlashed sk ctx valAddr fraction
  SetStaking staking

/-- What can happen to the distribution store. -/
inductive Event (σ : Type)
  | BeginBlock (ctx : Ctx) (votes : List Slashing.VoteInfo) (proposerAddress : Address)
  | Deliver (ctx : Ctx) (msg : Msg)
  | CommunityPoolSpend (recipient : Address) (amount : Coins)
  | Transfer (fromAddr toAddr : Address) (amt : Coins)
  | ValidatorCreated (valAddr : Address) (staking : σ)
  | Delegated (ctx : Ctx) (delAddr valAddr : Address) (staking : σ)
  | Unbonded (ctx : Ctx) (delAddr valAddr : Address) (staking : σ)
  | ValidatorSlashed (ctx : Ctx) (valAddr : Address) (fraction : Dec) (staking : σ)
  | ValidatorRemoved (valAddr : Address) (staking : σ)
  | Staking (staking : σ)

namespace Event

/-- The store after an event; a panic is an error. -/
def apply : Event σ → State σ → Except String (State σ)
  | BeginBlock ctx votes proposerAddress, s => runHook (BeginBlocker sk k ctx votes proposerAddress) s
  | Deliver ctx msg, s =>
    match msg.ValidateBasic with
    | .error _ => .ok s
    | .ok () => runTx (NewHandler sk k ctx msg) s
  | CommunityPoolSpend recipient amount, s => runTx (HandleCommunityPoolSpendProposal k recipient amount) s
  | Transfer fromAddr toAddr amt, s =>
    match Bank.SendCoins s.accounts fromAddr toAddr amt with
    | .ok (.ok b) => .ok { s with accounts := b }
    | .ok (.error _) => .ok s
    | .error msg => .error msg
  | ValidatorCreated valAddr staking, s => runHook (AfterValidatorCreated sk valAddr) { s with staking }
  | Delegated ctx delAddr valAddr staking, s => runHook (delegateHooks sk k ctx delAddr valAddr staking) s
  | Unbonded ctx delAddr valAddr staking, s => runHook (unbondHooks sk k ctx delAddr valAddr staking) s
  | ValidatorSlashed ctx valAddr fraction staking, s => runHook (slashHooks sk ctx valAddr fraction staking) s
  | ValidatorRemoved valAddr staking, s => runHook (AfterValidatorRemoved k valAddr) { s with staking }
  | Staking staking, s => .ok { s with staking }

/-- What the staking module guarantees around its calls, and what the bank's other users leave
alone. A validator is created once; a delegation staking does not have has no starting info; a
validator is removed once its delegations are; a transfer of another module neither takes from
nor gives to the distribution account. `Chain.Reachable.distribution` shows that the staking
keeper keeps the first three. -/
def Admissible : Event σ → State σ → Prop
  | ValidatorCreated valAddr _, s => s.currentRewards.lookup valAddr = none
  | Delegated _ delAddr valAddr _, s =>
    (sk.Delegation s.staking delAddr valAddr).isSome = false → s.startingInfos.lookup (valAddr, delAddr) = none
  | ValidatorRemoved valAddr _, s => ∀ key ∈ s.startingInfos.keys, key.1 ≠ valAddr
  | Transfer fromAddr toAddr _, _ => fromAddr ≠ k.moduleAddr ∧ toAddr ≠ k.moduleAddr
  | _, _ => True

instance instDecidableAdmissible (e : Event σ) (s : State σ) : Decidable (e.Admissible sk k s) := by
  cases e <;> unfold Admissible <;> infer_instance

end Event

/-- A new chain's store under the default genesis: no validator yet, an empty community pool, an
empty previous proposer, and the accounts of the other modules' genesis. -/
def genesisState (p : Params) (accounts : Bank.Balances) (staking : σ) : State σ :=
  ⟨p, some InitialFeePool, some [], ∅, ∅, ∅, ∅, ∅, ∅, ∅, accounts, staking⟩

/-- The stores reached from a new chain, whose distribution account is empty, by admissible
events. -/
inductive Reachable : State σ → Prop
  | genesis (p : Params) (accounts : Bank.Balances) (staking : σ) :
      Bank.Sorted accounts → Bank.GetCoins accounts k.moduleAddr = [] → Reachable (genesisState p accounts staking)
  | step {s s' : State σ} (e : Event σ) : Reachable s → e.Admissible sk k s → e.apply sk k s = .ok s' → Reachable s'

def runEvents : State σ → List (Event σ) → Except String (State σ) :=
  Runs.run (Event.apply sk k) (Event.Admissible sk k)

theorem Reachable.stepClosed : Runs.StepClosed (Event.apply sk k) (Event.Admissible sk k) (Reachable sk k) :=
  fun _ _ e hs hadm happ => .step e hs hadm happ

/-- An invariant that holds at genesis and that every admissible event keeps holds of every
reachable store. -/
theorem Reachable.induction {I : State σ → Prop}
    (hgen : ∀ p accounts staking, Bank.Sorted accounts → Bank.GetCoins accounts k.moduleAddr = [] →
      I (genesisState p accounts staking))
    (hstep : ∀ ⦃s s' : State σ⦄ (e : Event σ), I s → e.Admissible sk k s → e.apply sk k s = .ok s' → I s')
    {s : State σ} (hs : Reachable sk k s) : I s := by
  induction hs with
  | genesis p accounts staking hsorted hmod => exact hgen p accounts staking hsorted hmod
  | step e _ hadm happ ih => exact hstep e ih hadm happ

section Runs

variable {sk k} {α : Type} {Q : α → State σ → Prop} {s s' : State σ}

@[simp] theorem ewp_SetStaking {E : Err → State σ → Prop} {Q : Unit → State σ → Prop} (staking : σ) :
    ewp (SetStaking staking) Q E s ↔ Q () { s with staking } := Iff.rfl

theorem runHook_of_ewp {x : DM σ α} {E : Err → State σ → Prop} (hx : ewp x Q E s) (h : runHook x s = .ok s') :
    ∃ a, Q a s' := by
  unfold runHook at h
  split at h
  · next a s₁ hrun =>
    cases h
    exact ⟨a, ewp_run_ok hx hrun⟩
  · cases h
  · cases h

theorem runTx_of_ewp {x : DM σ α} {E : Err → State σ → Prop} (hx : ewp x Q E s) (h : runTx x s = .ok s') :
    s' = s ∨ ∃ a, Q a s' := by
  unfold runTx at h
  split at h
  · next a s₁ hrun =>
    cases h
    exact .inr ⟨a, ewp_run_ok hx hrun⟩
  · cases h
    exact .inl rfl
  · cases h

end Runs

/-! ### A small chain -/

def soloValidator : Address := [1]
def soloDelegator : Address := [2]

/-- A staking module with one validator, whose state says whether one delegator has delegated
to it. -/
def soloStaking : StakingKeeper Bool where
  Validator _ a :=
    if a = soloValidator then
      some ⟨{ Staking.Validator.NewValidator soloValidator [3] with Tokens := 100, DelegatorShares := Dec.NewDec 100 },
        Dec.ZeroDec⟩
    else none
  ValidatorByConsAddr _ _ := none
  Delegation delegated d a :=
    if delegated ∧ d = soloDelegator ∧ a = soloValidator then some ⟨soloDelegator, soloValidator, Dec.NewDec 100⟩
    else none

theorem soloStaking_keyed : soloStaking.Keyed := by
  refine ⟨fun _ a v h => ?_, fun _ d a del h => ?_⟩
  · unfold soloStaking at h
    dsimp only at h
    split at h
    · next ha =>
      cases h
      exact ha.symm
    · cases h
  · unfold soloStaking at h
    dsimp only at h
    split at h
    · next hd =>
      cases h
      exact ⟨hd.2.1.symm, hd.2.2.symm⟩
    · cases h

def soloKeeper : Keeper := ⟨[4], [5], [[5]]⟩

/-- The validator is created, and then delegated to at height 2. -/
def soloEvents : List (Event Bool) :=
  [.ValidatorCreated soloValidator false, .Delegated ⟨2⟩ soloDelegator soloValidator true]

def soloStore : State Bool :=
  match runEvents soloStaking soloKeeper (genesisState DefaultParams ∅ false) soloEvents with
  | .ok s => s
  | .error _ => genesisState DefaultParams ∅ false

theorem soloStore_run :
    runEvents soloStaking soloKeeper (genesisState DefaultParams ∅ false) soloEvents = .ok soloStore := rfl

theorem soloStore_reachable : Reachable soloStaking soloKeeper soloStore :=
  Runs.run_closed (Reachable.stepClosed _ _)
    (.genesis DefaultParams ∅ false (fun _ => KeyedList.strict_nil) rfl) soloStore_run

end Distribution

end Dipper
