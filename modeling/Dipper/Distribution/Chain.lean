import Dipper.Distribution.References
import Dipper.Staking.Invariants

/-!
# The distribution module driven by the staking keeper

The chain of the two modules. A staking event runs on the staking store, and the calls it made
to the hooks then run on the distribution store in their order, each with the staking store it
read. The distribution hooks write nothing that staking reads, so running them after the event
is the same as running them in place. The one difference is a hook that panics during an event
that later returns an error: in place, the error would have discarded that panic. The
distribution module's own events read the staking store as it is. What `Event.Admissible`
assumes of the staking module holds along every run of the chain, so its distribution store is
reachable.
-/

namespace Dipper

namespace Distribution

open StateExcept

variable {σ α : Type}

/-! ### The staking keeper of the chain -/

section Keeper

variable (commission : Staking.Validator → Dec)

/-- `GetValidator` of the staking store, with the commission rate the staking model leaves out.
A record is returned only under its own address, as the staking store keeps it. -/
def viewValidator (v : Staking.View) (a : Address) : Option ValidatorI :=
  match v.validators.lookup a with
  | some val => if val.OperatorAddress = a then some ⟨val, commission val⟩ else none
  | none => none

/-- What the distribution module reads of the staking store. -/
def stakingKeeper : StakingKeeper Staking.View where
  Validator := viewValidator commission
  ValidatorByConsAddr v consAddr := (v.validatorsByConsAddr.lookup consAddr).bind (viewValidator commission v)
  Delegation v d a :=
    match v.delegations.lookup (d, a) with
    | some del => if del.DelegatorAddress = d ∧ del.ValidatorAddress = a then some del else none
    | none => none

variable {commission} {v : Staking.View}

theorem viewValidator_eq_some {a : Address} {val : ValidatorI} (h : viewValidator commission v a = some val) :
    a ∈ v.validators ∧ val.GetOperator = a := by
  unfold viewValidator at h
  split at h
  · next w hw =>
    split at h
    · next hop =>
      cases h
      exact ⟨AList.lookup_isSome.mp (by rw [hw]; rfl), hop⟩
    · cases h
  · cases h

theorem stakingKeeper_delegation_eq_some {d a : Address} {del : Staking.Delegation}
    (h : (stakingKeeper commission).Delegation v d a = some del) :
    (d, a) ∈ v.delegations ∧ del.DelegatorAddress = d ∧ del.ValidatorAddress = a := by
  change (match v.delegations.lookup (d, a) with
    | some del => if del.DelegatorAddress = d ∧ del.ValidatorAddress = a then some del else none
    | none => none) = some del at h
  split at h
  · next w hw =>
    split at h
    · next hk =>
      cases h
      exact ⟨AList.lookup_isSome.mp (by rw [hw]; rfl), hk⟩
    · cases h
  · cases h

/-- A delegation the staking keeper does not return is not in the store, when the store keeps
it under its own key. -/
theorem stakingKeeper_delegation_none {d a : Address} (hkey : v.KeyedAt d a)
    (h : ((stakingKeeper commission).Delegation v d a).isSome = false) : (d, a) ∉ v.delegations := by
  intro hmem
  obtain ⟨del, hdel⟩ := Option.isSome_iff_exists.mp (AList.lookup_isSome.mpr hmem)
  have hget : (stakingKeeper commission).Delegation v d a = some del := by
    change (match v.delegations.lookup (d, a) with
      | some del => if del.DelegatorAddress = d ∧ del.ValidatorAddress = a then some del else none
      | none => none) = some del
    rw [hdel]
    exact if_pos (hkey del hdel)
  rw [hget] at h
  cases h

theorem stakingKeeper_keyed : (stakingKeeper commission).Keyed :=
  ⟨fun _ _ _ h => (viewValidator_eq_some h).2, fun _ _ _ _ h => (stakingKeeper_delegation_eq_some h).2⟩

end Keeper

/-! ### What the distribution store keeps of the staking store -/

/-- The distribution store holds running rewards only for validators of the view, and starting
infos only for its delegations. -/
structure Covered (v : Staking.View) (s : State σ) : Prop where
  rewards : ∀ a ∈ s.currentRewards, a ∈ v.validators
  starting : ∀ key ∈ s.startingInfos, (key.2, key.1) ∈ v.delegations

/-- Running rewards kept under keys already there, no new starting info, and the staking state as
it was. -/
structure KeysKept (s s' : State σ) : Prop where
  rewards : ∀ a ∈ s'.currentRewards, a ∈ s.currentRewards
  starting : ∀ key ∈ s'.startingInfos, key ∈ s.startingInfos
  staking : s'.staking = s.staking

namespace KeysKept

theorem refl (s : State σ) : KeysKept s s := ⟨fun _ h => h, fun _ h => h, rfl⟩

theorem trans {s₁ s₂ s₃ : State σ} (h₁ : KeysKept s₁ s₂) (h₂ : KeysKept s₂ s₃) : KeysKept s₁ s₃ :=
  ⟨fun a h => h₁.rewards a (h₂.rewards a h), fun key h => h₁.starting key (h₂.starting key h),
    h₂.staking.trans h₁.staking⟩

end KeysKept

variable {s s' : State σ} {u v : Staking.View}

theorem Covered.mono (hc : Covered u s) (huv : u.Le v) : Covered v s :=
  ⟨fun a ha => huv.validators a (hc.rewards a ha), fun key hk => huv.delegations _ (hc.starting key hk)⟩

theorem Covered.of_keysKept (hc : Covered v s) (h : KeysKept s s') : Covered v s' :=
  ⟨fun a ha => hc.rewards a (h.rewards a ha), fun key hk => hc.starting key (h.starting key hk)⟩

theorem Covered.of_sameRefs (hc : Covered v s) (h : SameRefs s s') : Covered v s' := by
  refine ⟨fun a ha => hc.rewards a ?_, fun key hk => hc.starting key (h.starting ▸ hk)⟩
  have hsome := congrArg Option.isSome (h.period a)
  rw [Option.isSome_map, Option.isSome_map] at hsome
  exact AList.lookup_isSome.mp (hsome ▸ AList.lookup_isSome.mpr ha)

theorem Covered.setStaking (hc : Covered v s) (staking : σ) : Covered v { s with staking } :=
  ⟨hc.rewards, hc.starting⟩

/-! ### The keeper's methods and the keys -/

section Methods

variable {sk : StakingKeeper σ} {k : Keeper} {ctx : Ctx}

/-- A method that keeps the keys as they are, whatever it returns. -/
def KeepsKeys (x : DM σ α) : Prop := ∀ s₀, Preserves (KeysKept s₀) x

theorem ReadOnly.keepsKeys {x : DM σ α} (h : ReadOnly x) : KeepsKeys x :=
  fun _ s hs => ewp_mono (h s s rfl) (fun _ _ h' => h' ▸ hs) (fun _ _ h' => h' ▸ hs)

theorem incrementValidatorPeriod_keepsKeys {val : ValidatorI} : KeepsKeys (incrementValidatorPeriod val : DM σ Nat) := by
  intro s₀ s hs
  unfold incrementValidatorPeriod
  simp only [ewp_bind, ewp_GetValidatorCurrentRewards, ewp_ite, ewp_GetFeePool, ewp_GetValidatorOutstandingRewards,
    ewp_liftPanic, ewp_SetFeePool, ewp_SetValidatorOutstandingRewards, ewp_pure, ewp_GetValidatorHistoricalRewards,
    ewp_decrementReferenceCount, ewp_SetValidatorHistoricalRewards, ewp_SetValidatorCurrentRewards]
  intro c hc
  -- the next period is written under the validator the running one was read from
  have hmem : val.GetOperator ∈ s.currentRewards := AList.lookup_isSome.mp (by rw [hc]; rfl)
  have hkeep : ∀ {s' : State σ}, s'.currentRewards = s.currentRewards.insert val.GetOperator
      (NewValidatorCurrentRewards [] (c.Period + 1)) → s'.startingInfos = s.startingInfos →
      s'.staking = s.staking → KeysKept s₀ s' := by
    intro s' hcur hstart hst
    refine hs.trans ⟨fun a ha => AList.mem_of_mem_insert hmem (hcur ▸ ha), fun key hk => hstart ▸ hk, hst⟩
  exact ⟨fun _ _ _ _ _ _ _ _ _ _ _ _ => hkeep rfl rfl rfl, fun _ _ _ _ _ _ _ _ => hkeep rfl rfl rfl⟩

theorem withdrawDelegationRewards_keys {val : ValidatorI} {del : Staking.Delegation} :
    ewp (withdrawDelegationRewards k ctx val del : DM σ Coins)
      (fun _ s' => KeysKept s s' ∧ (del.ValidatorAddress, del.DelegatorAddress) ∉ s'.startingInfos)
      (fun _ s' => KeysKept s s') s := by
  unfold withdrawDelegationRewards
  simp only [ewp_bind, ewp_HasDelegatorStartingInfo, ewp_ite, ewp_throw, ewp_pure]
  refine ⟨fun _ => KeysKept.refl s, fun _ => ?_⟩
  refine ewp_mono (incrementValidatorPeriod_keepsKeys s s (KeysKept.refl s)) (fun _ s₁ h₁ => ?_) (fun _ _ h => h)
  refine ewp_mono (calculateDelegationRewards_readOnly.keepsKeys s s₁ h₁) (fun _ s₂ h₂ => ?_) (fun _ _ h => h)
  simp only [ewp_GetValidatorOutstandingRewards, ewp_liftPanic, ewp_GetDelegatorWithdrawAddr,
    ewp_SendCoinsFromModuleToAccount, ewp_SetValidatorOutstandingRewards, ewp_GetFeePool, ewp_SetFeePool,
    ewp_GetDelegatorStartingInfo, ewp_decrementReferenceCount, ewp_DeleteDelegatorStartingInfo]
  -- whatever is paid out, the starting info goes and nothing else of the keys moves
  have post : ∀ {s' : State σ}, s'.currentRewards = s₂.currentRewards →
      s'.startingInfos = s₂.startingInfos.erase (del.ValidatorAddress, del.DelegatorAddress) →
      s'.staking = s₂.staking →
      KeysKept s s' ∧ (del.ValidatorAddress, del.DelegatorAddress) ∉ s'.startingInfos := by
    intro s' hcur hstart hst
    refine ⟨h₂.trans ⟨fun a ha => hcur ▸ ha, fun key hk => ?_, hst⟩, ?_⟩
    · rw [hstart] at hk
      exact (AList.mem_erase.mp hk).2
    · rw [hstart, AList.mem_erase]
      exact fun h => h.1 rfl
  intro _ _ _ _ _ _
  exact ⟨fun _ => ⟨fun _ _ _ _ _ _ _ _ _ _ _ => post rfl rfl rfl, fun _ _ => h₂⟩,
    fun _ _ _ _ _ _ _ _ _ _ => post rfl rfl rfl⟩

theorem updateValidatorSlashFraction_keepsKeys {valAddr : Address} {fraction : Dec} :
    KeepsKeys (updateValidatorSlashFraction sk ctx valAddr fraction) := by
  intro s₀ s hs
  unfold updateValidatorSlashFraction
  simp only [ewp_bind, ewp_ite, ewp_panicD, ewp_get, ewp_mustBePresent]
  refine ⟨fun _ => trivial, fun _ val _ => ?_⟩
  refine ewp_mono (incrementValidatorPeriod_keepsKeys s₀ s hs) (fun n s₁ h₁ => ?_) (fun _ _ h => h)
  simp only [ewp_incrementReferenceCount, ewp_SetValidatorSlashEvent]
  exact fun _ _ _ => h₁.trans ⟨fun _ h => h, fun _ h => h, rfl⟩

theorem BeforeDelegationCreated_keepsKeys {valAddr : Address} :
    KeepsKeys (BeforeDelegationCreated sk valAddr) := by
  intro s₀ s hs
  simp only [BeforeDelegationCreated, ewp_bind, ewp_get, ewp_mustBePresent, ewp_discard]
  exact fun val _ => incrementValidatorPeriod_keepsKeys s₀ s hs

/-- `BeforeDelegationSharesModified` on a delegation staking keeps under its own key: the keys
stay, and the delegation's starting info goes. -/
theorem BeforeDelegationSharesModified_keys (hK : sk.Keyed) {delAddr valAddr : Address} :
    ewp (BeforeDelegationSharesModified sk k ctx delAddr valAddr)
      (fun _ s' => KeysKept s s' ∧ (valAddr, delAddr) ∉ s'.startingInfos) (fun _ _ => True) s := by
  simp only [BeforeDelegationSharesModified, orPanic, ewp_bind, ewp_get, ewp_mustBePresent, ewp_discard,
    ewp_tryCatch, ewp_panicD]
  intro val _ del hdel
  obtain ⟨rfl, rfl⟩ := hK.delegation _ _ _ _ hdel
  exact ewp_mono withdrawDelegationRewards_keys (fun _ _ h => h) (fun _ _ _ => trivial)

theorem slashHooks_covered {valAddr : Address} {fraction : Dec} {view : σ} {v : Staking.View} (hc : Covered v s) :
    ewp (slashHooks sk ctx valAddr fraction view) (fun _ s' => Covered v s') (fun _ _ => True) s := by
  simp only [slashHooks, ewp_bind, ewp_SetStaking]
  exact ewp_mono (updateValidatorSlashFraction_keepsKeys s s (KeysKept.refl s))
    (fun _ s₁ h₁ => (hc.of_keysKept h₁).setStaking view) (fun _ _ _ => trivial)

theorem AfterValidatorRemoved_keys {valAddr : Address} :
    ewp (AfterValidatorRemoved k valAddr : DM σ Unit)
      (fun _ s' => (∀ b ∈ s'.currentRewards, b ≠ valAddr ∧ b ∈ s.currentRewards) ∧ s'.startingInfos = s.startingInfos)
      (fun _ _ => True) s := by
  simp only [AfterValidatorRemoved, orPanic, ewp_bind, ewp_ite, ewp_tryCatch, ewp_panicD, ewp_pure,
    ewp_GetValidatorOutstandingRewards, ewp_GetValidatorAccumulatedCommission, ewp_liftPanic, ewp_GetFeePool,
    ewp_SetFeePool, ewp_GetDelegatorWithdrawAddr, ewp_SendCoinsFromModuleToAccount,
    ewp_DeleteValidatorOutstandingRewards, ewp_DeleteValidatorAccumulatedCommission, ewp_DeleteValidatorSlashEvents,
    ewp_DeleteValidatorHistoricalRewards, ewp_DeleteValidatorCurrentRewards]
  -- whatever is paid out, the running rewards are erased last
  have hleaf : (∀ b ∈ s.currentRewards.erase valAddr, b ≠ valAddr ∧ b ∈ s.currentRewards) ∧ True :=
    ⟨fun _ hb => AList.mem_erase.mp hb, trivial⟩
  intro _ _
  exact ⟨fun _ _ _ _ _ _ _ => ⟨fun _ => ⟨fun _ _ _ _ => hleaf, fun _ _ => trivial⟩, fun _ _ _ => hleaf⟩,
    fun _ _ _ => hleaf⟩

end Methods

/-! ### The hooks on the chain's staking keeper -/

section Hooks

variable {commission : Staking.Validator → Dec} {k : Keeper} {ctx : Ctx} {s : State Staking.View}
  {v : Staking.View}

theorem initializeDelegation_covered {val del : Address} (hc : Covered v s) (hs : s.staking = v) :
    ewp (initializeDelegation (stakingKeeper commission) ctx val del) (fun _ s' => Covered v s' ∧ s'.staking = v)
      (fun _ _ => True) s := by
  unfold initializeDelegation
  simp only [ewp_bind, ewp_GetValidatorCurrentRewards, ewp_incrementReferenceCount, ewp_get, ewp_mustBePresent,
    ewp_liftPanic, ewp_SetDelegatorStartingInfo]
  intro _ _ _ _ _ _ _ _ hdel _ _
  refine ⟨⟨hc.rewards, fun key hk => ?_⟩, hs⟩
  rcases (AList.mem_insert _).mp hk with rfl | hk
  · rw [← hs]
    exact (stakingKeeper_delegation_eq_some hdel).1
  · exact hc.starting key hk

theorem AfterValidatorCreated_covered {valAddr : Address} (hc : Covered s.staking s) :
    ewp (AfterValidatorCreated (stakingKeeper commission) valAddr) (fun _ s' => Covered s.staking s')
      (fun _ _ => True) s := by
  simp only [AfterValidatorCreated, initializeValidator, ewp_bind, ewp_get, ewp_mustBePresent,
    ewp_SetValidatorHistoricalRewards, ewp_SetValidatorCurrentRewards, ewp_SetValidatorAccumulatedCommission,
    ewp_SetValidatorOutstandingRewards]
  intro val hval
  obtain ⟨ha, hop⟩ := viewValidator_eq_some hval
  refine ⟨fun b hb => ?_, hc.starting⟩
  rcases (AList.mem_insert _).mp hb with rfl | hb
  · rw [hop]
    exact ha
  · exact hc.rewards b hb

/-- The hooks around a delegation's write: the starting info it drops and the one it adds are of
the delegation written, which the store after the write has. -/
theorem delegateHooks_covered {delAddr valAddr : Address} {after : Staking.View} (hc : Covered s.staking s)
    (hle : s.staking.Le after) :
    ewp (delegateHooks (stakingKeeper commission) k ctx delAddr valAddr after) (fun _ s' => Covered after s')
      (fun _ _ => True) s := by
  simp only [delegateHooks, AfterDelegationModified, ewp_bind, ewp_get, ewp_ite, ewp_SetStaking]
  have hafter : ∀ s₁, KeysKept s s₁ → ewp (initializeDelegation (stakingKeeper commission) ctx valAddr delAddr)
      (fun _ s' => Covered after s') (fun _ _ => True) { s₁ with staking := after } := fun s₁ h₁ =>
    ewp_mono (initializeDelegation_covered (((hc.of_keysKept h₁).mono hle).setStaking after) rfl)
      (fun _ _ h => h.1) (fun _ _ h => h)
  exact ⟨fun _ => ewp_mono (BeforeDelegationSharesModified_keys stakingKeeper_keyed) (fun _ s₁ h₁ => hafter s₁ h₁.1)
      (fun _ _ _ => trivial),
    fun _ => ewp_mono (BeforeDelegationCreated_keepsKeys s s (KeysKept.refl s)) (fun _ s₁ h₁ => hafter s₁ h₁)
      (fun _ _ _ => trivial)⟩

/-- The hooks around an unbonding: the delegation's starting info goes before the write, which
may remove the delegation and keeps every other. -/
theorem unbondHooks_covered {delAddr valAddr : Address} {after : Staking.View} (hc : Covered s.staking s)
    (hv : ∀ b ∈ s.staking.validators, b ∈ after.validators)
    (hd : ∀ key ∈ s.staking.delegations, key ≠ (delAddr, valAddr) → key ∈ after.delegations) :
    ewp (unbondHooks (stakingKeeper commission) k ctx delAddr valAddr after) (fun _ s' => Covered after s')
      (fun _ _ => True) s := by
  simp only [unbondHooks, AfterDelegationModified, ewp_bind, ewp_SetStaking, ewp_ite, ewp_pure]
  refine ewp_mono (BeforeDelegationSharesModified_keys stakingKeeper_keyed) (fun _ s₁ h₁ => ?_)
    (fun _ _ _ => trivial)
  have hc₁ : Covered after { s₁ with staking := after } := by
    refine ⟨fun b hb => hv b (hc.rewards b (h₁.1.rewards b hb)),
      fun key hk => hd _ (hc.starting key (h₁.1.starting key hk)) fun heq => h₁.2 ?_⟩
    obtain ⟨a, d⟩ := key
    obtain ⟨rfl, rfl⟩ := Prod.mk.inj heq
    exact hk
  exact ⟨fun _ => ewp_mono (initializeDelegation_covered hc₁ rfl) (fun _ _ h => h.1) (fun _ _ h => h), fun _ => hc₁⟩

theorem WithdrawDelegationRewards_covered {delAddr valAddr : Address} (hc : Covered s.staking s) :
    ewp (WithdrawDelegationRewards (stakingKeeper commission) k ctx delAddr valAddr)
      (fun _ s' => Covered s.staking s') (fun _ _ => True) s := by
  simp only [WithdrawDelegationRewards, ewp_bind, ewp_get]
  split
  · split
    · simp only [ewp_bind, ewp_pure]
      refine ewp_mono withdrawDelegationRewards_keys (fun _ s₁ h₁ => ?_) (fun _ _ _ => trivial)
      exact ewp_mono (initializeDelegation_covered (hc.of_keysKept h₁.1) h₁.1.staking) (fun _ _ h => h.1)
        (fun _ _ h => h)
    · trivial
  · trivial

theorem NewHandler_covered (msg : Msg) (hc : Covered s.staking s) :
    ewp (NewHandler (stakingKeeper commission) k ctx msg) (fun _ s' => Covered s.staking s') (fun _ _ => True) s := by
  cases msg with
  | SetWithdrawAddress del withdraw =>
    exact ewp_mono (SetWithdrawAddr_keepsRefs s s (SameRefs.refl s)) (fun _ _ h => hc.of_sameRefs h)
      (fun _ _ _ => trivial)
  | WithdrawDelegatorReward del val => exact (ewp_discard _).mpr (WithdrawDelegationRewards_covered hc)
  | WithdrawValidatorCommission val =>
    exact (ewp_discard _).mpr (ewp_mono (WithdrawValidatorCommission_keepsRefs s s (SameRefs.refl s))
      (fun _ _ h => hc.of_sameRefs h) (fun _ _ _ => trivial))

end Hooks

/-! ### Replaying the staking keeper's calls -/

section Replay

variable (commission : Staking.Validator → Dec) (k : Keeper)

/-- The events the distribution module sees of one call to its hooks at the height `ctx`: the
hooks of a delegation and of a slash first read the store as it was before the write. -/
def hookEvents (ctx : Ctx) : Staking.HookCall → List (Event Staking.View)
  | .AfterValidatorCreated valAddr view => [.ValidatorCreated valAddr view]
  | .Delegated delAddr valAddr before after => [.Staking before, .Delegated ctx delAddr valAddr after]
  | .Unbonded delAddr valAddr before after => [.Staking before, .Unbonded ctx delAddr valAddr after]
  | .AfterValidatorRemoved valAddr view => [.ValidatorRemoved valAddr view]
  | .BeforeValidatorSlashed valAddr fraction view => [.Staking view, .ValidatorSlashed ctx valAddr fraction view]

/-- The events one after another, as the chain runs them: nothing checks that they are
admissible. -/
def replay (s : State Staking.View) (es : List (Event Staking.View)) : Except String (State Staking.View) :=
  es.foldlM (fun d e => e.apply (stakingKeeper commission) k d) s

variable {commission k} {s s' : State Staking.View} {es es' : List (Event Staking.View)}

theorem replay_cons {e : Event Staking.View} :
    replay commission k s (e :: es) = .ok s' ↔
      ∃ s₁, e.apply (stakingKeeper commission) k s = .ok s₁ ∧ replay commission k s₁ es = .ok s' := by
  rw [replay, List.foldlM_cons]
  exact except_bind_eq_ok

theorem replay_append :
    replay commission k s (es ++ es') = .ok s' ↔
      ∃ s₁, replay commission k s es = .ok s₁ ∧ replay commission k s₁ es' = .ok s' := by
  rw [replay, List.foldlM_append]
  exact except_bind_eq_ok

theorem replay_singleton {e : Event Staking.View} :
    replay commission k s [e] = .ok s' ↔ e.apply (stakingKeeper commission) k s = .ok s' := by
  rw [replay_cons]
  exact ⟨fun ⟨_, h, hnil⟩ => by cases hnil; exact h, fun h => ⟨s', h, rfl⟩⟩

/-- An event after a read of the staking store runs on the store that read it. -/
theorem replay_staking_pair {view : Staking.View} {e : Event Staking.View} :
    replay commission k s [.Staking view, e] = .ok s' ↔
      e.apply (stakingKeeper commission) k { s with staking := view } = .ok s' := by
  rw [replay_cons]
  constructor
  · rintro ⟨s₁, h₁, h⟩
    cases h₁
    exact replay_singleton.mp h
  · exact fun h => ⟨_, rfl, replay_singleton.mpr h⟩

/-- Reading the staking store is always allowed. -/
theorem Reachable.setStaking (hs : Reachable (stakingKeeper commission) k s) (view : Staking.View) :
    Reachable (stakingKeeper commission) k { s with staking := view } :=
  .step (.Staking view) hs trivial rfl

/-- The events of one call, from a reachable store that holds only what the view the call before
left has: each is admissible, and the store holds only what the view this call leaves has. -/
theorem hookEvents_replay {ctx : Ctx} {c : Staking.HookCall} {u : Staking.View} (hmade : c.Made u)
    (hs : Reachable (stakingKeeper commission) k s) (hc : Covered u s)
    (h : replay commission k s (hookEvents ctx c) = .ok s') :
    Reachable (stakingKeeper commission) k s' ∧ Covered c.after s' := by
  cases c with
  | AfterValidatorCreated valAddr view =>
    rw [hookEvents, replay_singleton] at h
    -- a validator created at a new address has no rewards yet
    have hadm : s.currentRewards.lookup valAddr = none := by
      cases hl : s.currentRewards.lookup valAddr with
      | none => rfl
      | some _ => exact absurd (hc.rewards valAddr (AList.lookup_isSome.mp (by rw [hl]; rfl))) hmade.1
    obtain ⟨_, hc'⟩ := runHook_of_ewp (AfterValidatorCreated_covered ((hc.mono hmade.2).setStaking view)) h
    exact ⟨.step (.ValidatorCreated valAddr view) hs hadm h, hc'⟩
  | Delegated delAddr valAddr before after =>
    obtain ⟨hle, hkey, hafter⟩ := hmade
    rw [hookEvents, replay_staking_pair] at h
    have hc₁ : Covered before { s with staking := before } := (hc.mono hle).setStaking before
    -- a delegation the keeper does not find has no starting info
    have hadm : (Event.Delegated ctx delAddr valAddr after).Admissible (stakingKeeper commission) k
        { s with staking := before } := fun hnone => by
      cases hl : s.startingInfos.lookup (valAddr, delAddr) with
      | none => rfl
      | some _ =>
        exact absurd (hc₁.starting _ (AList.lookup_isSome.mp (by rw [hl]; rfl)))
          (stakingKeeper_delegation_none hkey hnone)
    obtain ⟨_, hc'⟩ := runHook_of_ewp (delegateHooks_covered hc₁ hafter) h
    exact ⟨.step (.Delegated ctx delAddr valAddr after) (hs.setStaking before) hadm h, hc'⟩
  | Unbonded delAddr valAddr before after =>
    obtain ⟨hle, hv, hd⟩ := hmade
    rw [hookEvents, replay_staking_pair] at h
    obtain ⟨_, hc'⟩ := runHook_of_ewp (unbondHooks_covered ((hc.mono hle).setStaking before) hv hd) h
    exact ⟨.step (.Unbonded ctx delAddr valAddr after) (hs.setStaking before) trivial h, hc'⟩
  | AfterValidatorRemoved valAddr view =>
    obtain ⟨hv, hd, hno⟩ := hmade
    rw [hookEvents, replay_singleton] at h
    -- no starting info is left of a delegation to the validator, which the staking store has none of
    have hadm : ∀ key ∈ s.startingInfos.keys, key.1 ≠ valAddr :=
      fun key hk => hno _ (hd _ (hc.starting key (AList.mem_keys.mpr hk)))
    obtain ⟨_, hkeys, hstart⟩ := runHook_of_ewp (AfterValidatorRemoved_keys (k := k)) h
    refine ⟨.step (.ValidatorRemoved valAddr view) hs hadm h, fun b hb => ?_, fun key hk => ?_⟩
    · obtain ⟨hba, hb⟩ := hkeys b hb
      exact hv b (hc.rewards b hb) hba
    · exact hd _ (hc.starting key (hstart ▸ hk))
  | BeforeValidatorSlashed valAddr fraction view =>
    rw [hookEvents, replay_staking_pair] at h
    obtain ⟨_, hc'⟩ := runHook_of_ewp (slashHooks_covered ((hc.mono hmade).setStaking view)) h
    exact ⟨.step (.ValidatorSlashed ctx valAddr fraction view) (hs.setStaking view) trivial h, hc'⟩

/-- A log of calls made by the protocol, replayed from a reachable store that holds only what
the view the log starts from has: every event is admissible, and the store holds only what the
view the log ends at has. -/
theorem replay_hookLog {ctx : Ctx} {calls : List Staking.HookCall} {u w : Staking.View}
    (hlog : Staking.HookLog u calls w) (hs : Reachable (stakingKeeper commission) k s) (hc : Covered u s)
    (h : replay commission k s (calls.flatMap (hookEvents ctx)) = .ok s') :
    Reachable (stakingKeeper commission) k s' ∧ Covered w s' := by
  induction calls generalizing u s with
  | nil =>
    cases h
    exact ⟨hs, hc.mono hlog⟩
  | cons c cs ih =>
    rw [List.flatMap_cons, replay_append] at h
    obtain ⟨s₁, h₁, h⟩ := h
    obtain ⟨hs₁, hc₁⟩ := hookEvents_replay hlog.1 hs hc h₁
    exact ih hlog.2 hs₁ hc₁ h

end Replay

/-! ### The chain -/

/-- The staking and the distribution stores of the chain. -/
structure Chain where
  staking : Staking.State
  distribution : State Staking.View

def Chain.ctx (c : Chain) : Ctx := ⟨c.staking.height.toNat⟩

/-- What happens on the chain: an event of the staking module, or one of the distribution
module's own. -/
inductive ChainEvent
  | Staking (e : Staking.Event)
  | BeginBlock (votes : List Slashing.VoteInfo) (proposerAddress : Address)
  | Deliver (msg : Msg)
  | CommunityPoolSpend (recipient : Address) (amount : Coins)
  | Transfer (fromAddr toAddr : Address) (amt : Coins)

section Chain

variable (commission : Staking.Validator → Dec) (k : Keeper)

/-- The distribution store runs its events, and then reads the staking store `st`, which keeps
no calls. -/
def Chain.distribute (c : Chain) (st : Staking.State) (es : List (Event Staking.View)) : Except String Chain := do
  let d ← replay commission k c.distribution (es ++ [.Staking st.view])
  pure ⟨{ st with hooks := [] }, d⟩

namespace ChainEvent

/-- The chain after the event. A staking event runs on the staking store, and the calls it made
to the hooks then run on the distribution store at the block's height. -/
def apply : ChainEvent → Chain → Except String Chain
  | Staking e, c => do
    let st ← e.apply { c.staking with hooks := [] }
    c.distribute commission k st (st.hooks.flatMap (hookEvents c.ctx))
  | BeginBlock votes proposerAddress, c =>
    c.distribute commission k c.staking [.BeginBlock c.ctx votes proposerAddress]
  | Deliver msg, c => c.distribute commission k c.staking [.Deliver c.ctx msg]
  | CommunityPoolSpend recipient amount, c =>
    c.distribute commission k c.staking [.CommunityPoolSpend recipient amount]
  | Transfer fromAddr toAddr amt, c => c.distribute commission k c.staking [.Transfer fromAddr toAddr amt]

/-- What the chain lets happen: what the staking module allows, and a transfer by another
module that neither takes from nor gives to the distribution account. Nothing is assumed of the
calls to the hooks. -/
def Admissible : ChainEvent → Chain → Prop
  | Staking e, c => e.Admissible c.staking
  | Transfer fromAddr toAddr _, _ => fromAddr ≠ k.moduleAddr ∧ toAddr ≠ k.moduleAddr
  | _, _ => True

end ChainEvent

/-- A new chain: no validator yet, and the distribution module's genesis over it. -/
def Chain.genesis (params : Staking.Params) (stakingAccounts : AList (fun _ : Address => Int))
    (supply height time : Int) (p : Params) (accounts : Bank.Balances) : Chain :=
  ⟨Staking.genesisState params stakingAccounts supply height time,
    genesisState p accounts (Staking.genesisState params stakingAccounts supply height time).view⟩

/-- The chains that admissible events reach from a new one whose distribution account is
empty. -/
inductive Chain.Reachable : Chain → Prop
  | genesis (params : Staking.Params) (stakingAccounts : AList (fun _ : Address => Int)) (supply height time : Int)
      (p : Params) (accounts : Bank.Balances) : Bank.Sorted accounts → Bank.GetCoins accounts k.moduleAddr = [] →
      Chain.Reachable (Chain.genesis params stakingAccounts supply height time p accounts)
  | step {c c' : Chain} (e : ChainEvent) :
      Chain.Reachable c → e.Admissible k c → e.apply commission k c = .ok c' → Chain.Reachable c'

/-- The distribution store of the chain agrees with its staking store: it reads the staking
store as it is, holds only what that store has, and is reachable. -/
structure Chain.Synced (c : Chain) : Prop where
  accounted : Staking.Accounted c.staking
  staking : c.distribution.staking = c.staking.view
  covered : Covered c.staking.view c.distribution
  reachable : Distribution.Reachable (stakingKeeper commission) k c.distribution

variable {commission k} {c c' : Chain}

/-- The chain is synced after the distribution store runs events that leave it reachable and
within the staking store `st`. -/
theorem Chain.distribute_synced {st : Staking.State} {es : List (Event Staking.View)} (hst : Staking.Accounted st)
    (hes : ∀ d, replay commission k c.distribution es = .ok d →
      Distribution.Reachable (stakingKeeper commission) k d ∧ Covered st.view d)
    (h : c.distribute commission k st es = .ok c') : c'.Synced commission k := by
  obtain ⟨d, hd, hc'⟩ := except_bind_eq_ok.mp h
  cases hc'
  rw [replay_append] at hd
  obtain ⟨d₁, hd₁, hd⟩ := hd
  rw [replay_singleton] at hd
  cases hd
  obtain ⟨hr, hcov⟩ := hes d₁ hd₁
  exact ⟨hst.setHooks [], rfl, hcov.setStaking _, hr.setStaking _⟩

/-- Every event of the chain keeps it synced. A staking event calls the hooks by their protocol
from the view the distribution store reads, so their replay is admissible; the distribution
module's own events keep what the store holds within the staking store. -/
theorem ChainEvent.apply_synced {e : ChainEvent} (hc : c.Synced commission k) (hadm : e.Admissible k c)
    (h : e.apply commission k c = .ok c') : c'.Synced commission k := by
  cases e with
  | Staking e =>
    obtain ⟨st, hst, h⟩ := except_bind_eq_ok.mp h
    have hs₀ : Staking.Accounted { c.staking with hooks := [] } := hc.accounted.setHooks []
    obtain ⟨calls, hcalls, hlog⟩ := Staking.Event.apply_logsFrom hs₀ hst
    refine Chain.distribute_synced (Staking.Event.apply_hooked ⟨hs₀, Staking.LogsFrom.refl _⟩ hst).toAccounted
      (fun d hd => ?_) h
    rw [hcalls, List.nil_append] at hd
    exact replay_hookLog hlog hc.reachable hc.covered hd
  | BeginBlock votes proposerAddress =>
    refine Chain.distribute_synced hc.accounted (fun d hd => ?_) h
    rw [replay_singleton] at hd
    obtain ⟨_, hd'⟩ := runHook_of_ewp (BeginBlocker_keepsRefs c.distribution c.distribution (SameRefs.refl _)) hd
    exact ⟨.step (.BeginBlock c.ctx votes proposerAddress) hc.reachable trivial hd, hc.covered.of_sameRefs hd'⟩
  | Deliver msg =>
    refine Chain.distribute_synced hc.accounted (fun d hd => ?_) h
    rw [replay_singleton] at hd
    refine ⟨.step (.Deliver c.ctx msg) hc.reachable trivial hd, ?_⟩
    simp only [Event.apply] at hd
    split at hd
    · cases hd
      exact hc.covered
    -- the handler reads the staking store as it is
    · have hcov : Covered c.distribution.staking c.distribution := hc.staking ▸ hc.covered
      rcases runTx_of_ewp (NewHandler_covered msg hcov) hd with rfl | ⟨_, hd'⟩
      · exact hc.covered
      · exact hc.staking ▸ hd'
  | CommunityPoolSpend recipient amount =>
    refine Chain.distribute_synced hc.accounted (fun d hd => ?_) h
    rw [replay_singleton] at hd
    refine ⟨.step (.CommunityPoolSpend recipient amount) hc.reachable trivial hd, ?_⟩
    rcases runTx_of_ewp (HandleCommunityPoolSpendProposal_keepsRefs c.distribution c.distribution
      (SameRefs.refl _)) hd with rfl | ⟨_, hd'⟩
    · exact hc.covered
    · exact hc.covered.of_sameRefs hd'
  | Transfer fromAddr toAddr amt =>
    refine Chain.distribute_synced hc.accounted (fun d hd => ?_) h
    rw [replay_singleton] at hd
    refine ⟨.step (.Transfer fromAddr toAddr amt) hc.reachable hadm hd, ?_⟩
    simp only [Event.apply] at hd
    split at hd
    · cases hd
      exact ⟨hc.covered.rewards, hc.covered.starting⟩
    · cases hd
      exact hc.covered
    · cases hd

theorem Chain.synced_genesis {params : Staking.Params} {stakingAccounts : AList (fun _ : Address => Int)}
    {supply height time : Int} {p : Params} {accounts : Bank.Balances} (hsorted : Bank.Sorted accounts)
    (hmod : Bank.GetCoins accounts k.moduleAddr = []) :
    (Chain.genesis params stakingAccounts supply height time p accounts).Synced commission k :=
  ⟨⟨Staking.Ledger.empty, Staking.RedelegationsWF.empty⟩, rfl,
    ⟨fun a ha => absurd ha (AList.notMem_empty a), fun key hk => absurd hk (AList.notMem_empty key)⟩,
    .genesis _ _ _ hsorted hmod⟩

theorem Chain.Reachable.synced (hc : Chain.Reachable commission k c) : c.Synced commission k := by
  induction hc with
  | genesis params stakingAccounts supply height time p accounts hsorted hmod => exact Chain.synced_genesis hsorted hmod
  | step e _ hadm h ih => exact e.apply_synced ih hadm h

/-- On the chain, the staking keeper keeps what `Event.Admissible` assumes of it: the
distribution store of every reachable chain is reachable, so every invariant of the distribution
module's runs holds of it. -/
theorem Chain.Reachable.distribution (hc : Chain.Reachable commission k c) :
    Distribution.Reachable (stakingKeeper commission) k c.distribution :=
  hc.synced.reachable

/-- The reference counts of the chain's distribution store are right. -/
theorem Chain.Reachable.counted (hc : Chain.Reachable commission k c) : Counted c.distribution :=
  hc.distribution.counted stakingKeeper_keyed

end Chain

end Distribution

end Dipper
