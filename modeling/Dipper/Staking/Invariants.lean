import Dipper.Staking.Shares

/-!
# The staking invariants over runs

`DelegatorSharesInvariant` and `PositiveDelegationInvariant` of
`keeper/invariants.go`, with the self-delegation of each operator and the
non-negative tokens, hold in every state the staking module reaches: each handler
keeps them when it succeeds (a failed message is discarded), and the end-block,
slashing, jailing and unjailing keep them whatever they return.
-/

namespace Dipper

namespace Staking

open Dec Validator StateExcept

/-! ### The message handlers -/

theorem ValidateBasic_amount_pos {msg : Msg} (h : msg.ValidateBasic = .ok ()) :
    match msg with
    | .MsgCreateValidator _ _ _ value _ => 0 < value.amount
    | .MsgEditValidator _ _ => True
    | .MsgDelegate _ _ amount | .MsgBeginRedelegate _ _ _ amount | .MsgUndelegate _ _ amount =>
      0 < amount.amount := by
  cases msg <;> simp only [Msg.ValidateBasic] at h ⊢
  all_goals split_ifs at h <;> first | trivial | omega

section Handlers

variable {s₀ s : State}

theorem handleMsgDelegate_spec {del val : Address} {amount : Coin} (hs : Hooked s₀ s) (hamt : 0 < amount.amount) :
    ewp (handleMsgDelegate del val amount) (fun _ => Hooked s₀) (fun _ _ => True) s := by
  unfold handleMsgDelegate
  rw [ewp_bind, ewp_GetValidator]
  cases hval : s.validators.lookup val with
  | none => trivial
  | some validator =>
  simp only [ewp_bind, ewp_get, ewp_ite, ewp_throw, ewp_discard]
  refine ⟨fun _ => trivial, fun _ => ?_⟩
  have hop : validator.OperatorAddress = val := hs.ledger.val_key hval
  exact ewp_mono (Delegate_spec hs (hop ▸ hval) hamt) (fun _ _ h => h.1) (fun _ _ _ => trivial)

theorem handleMsgUndelegate_spec {del val : Address} {amount : Coin} (hs : Hooked s₀ s) (hamt : 0 < amount.amount) :
    ewp (handleMsgUndelegate del val amount) (fun _ => Hooked s₀) (fun _ _ => True) s := by
  unfold handleMsgUndelegate
  refine ewp_bind_of (ValidateUnbondAmount_spec hs.toAccounted hamt.le) (fun shares s₁ h₁ => ?_) (fun _ _ _ => trivial)
  obtain ⟨rfl, hsh⟩ := h₁
  simp only [ewp_bind, ewp_get, ewp_ite, ewp_throw, ewp_discard]
  exact ⟨fun _ => trivial, fun _ => Undelegate_spec hs hsh⟩

theorem handleMsgBeginRedelegate_spec {del src dst : Address} {amount : Coin} (hs : Hooked s₀ s)
    (hamt : 0 < amount.amount) :
    ewp (handleMsgBeginRedelegate del src dst amount) (fun _ => Hooked s₀) (fun _ _ => True) s := by
  unfold handleMsgBeginRedelegate
  refine ewp_bind_of (ValidateUnbondAmount_spec hs.toAccounted hamt.le) (fun shares s₁ h₁ => ?_) (fun _ _ _ => trivial)
  obtain ⟨rfl, hsh⟩ := h₁
  simp only [ewp_bind, ewp_get, ewp_ite, ewp_throw, ewp_discard]
  exact ⟨fun _ => trivial, fun _ => BeginRedelegation_spec hs hsh⟩

theorem handleMsgEditValidator_spec {val : Address} {minSelfDelegation : Option Int} (hs : Hooked s₀ s) :
    ewp (handleMsgEditValidator val minSelfDelegation) (fun _ => Hooked s₀) (fun _ _ => True) s := by
  unfold handleMsgEditValidator
  rw [ewp_bind, ewp_GetValidator]
  cases hval : s.validators.lookup val with
  | none => trivial
  | some validator =>
  have hop : validator.OperatorAddress = val := hs.ledger.val_key hval
  have hval' : s.validators.lookup validator.OperatorAddress = some validator := hop ▸ hval
  have ht0 := hs.ledger.tokens_nonneg hval
  have ht := hs.ledger.tokens_le hval
  -- the validator is written back with at most its minimum self-delegation changed
  have hset : ∀ m : Int, Hooked s₀
      { s with validators := (s.validators.insert validator.OperatorAddress { validator with MinSelfDelegation := m }) } :=
    fun m => ⟨⟨hs.ledger.insert_validator hval' rfl rfl rfl ht0 ht, hs.reds⟩,
      hs.logs.trans (Grows.of_insert (SameStores.refl _)).logsFrom⟩
  cases minSelfDelegation with
  | none =>
    simp only [ewp_bind, ewp_pure, ewp_SetValidator]
    exact hset validator.MinSelfDelegation
  | some m =>
    simp only [ewp_bind, ewp_ite, ewp_throw, ewp_pure, ewp_SetValidator]
    exact ⟨fun _ => trivial, fun _ => ⟨fun _ => trivial, fun _ => hset m⟩⟩


theorem handleMsgCreateValidator_spec {del val consAddr : Address} {value : Coin} {minSelfDelegation : Int}
    (hs : Hooked s₀ s) (hamt : 0 < value.amount) :
    ewp (handleMsgCreateValidator del val consAddr value minSelfDelegation) (fun _ => Hooked s₀)
      (fun _ _ => True) s := by
  unfold handleMsgCreateValidator
  rw [ewp_bind, ewp_GetValidator]
  extract_lets newValidator validator jpSet jpDenom jpConsAddr
  rw [ewp_ite]
  refine ⟨fun _ => by simp, fun hnew => ?_⟩
  dsimp -zeta only [jpConsAddr]
  rw [ewp_bind]
  refine (GetValidatorByConsAddr_untouched _).ewp_of (fun c s₁ h₁ => ?_) (fun _ _ _ => trivial)
  rw [ewp_ite]
  refine ⟨fun _ => by simp, fun _ => ?_⟩
  dsimp -zeta only [jpDenom]
  rw [ewp_bind, ewp_get, ewp_ite]
  refine ⟨fun _ => by simp, fun _ => ?_⟩
  dsimp -zeta only [jpSet]
  rw [ewp_bind, ewp_SetValidator]
  refine (SetValidatorByConsAddr_untouched _).ewp_bind (fun _ s₂ h₂ => ?_) (fun _ _ _ => trivial)
  refine (SetNewValidatorByPowerIndex_untouched _).ewp_bind (fun _ s₃ h₃ => ?_) (fun _ _ _ => trivial)
  rw [ewp_bind, ewp_callHook, ewp_discard]
  -- the new validator holds nothing yet, at an address no validator had
  have hnone₀ : s.validators.lookup val = none := by simpa using hnew
  have hnone : s₁.validators.lookup val = none := by rw [h₁.1, hnone₀]
  have hs₁ := hs.of_sameStores h₁
  have hs₂ : Accounted { s₁ with validators := s₁.validators.insert validator.OperatorAddress validator } :=
    ⟨hs₁.ledger.insert_new hnone rfl rfl rfl rfl, hs₁.reds⟩
  have hs₃ : Accounted s₃ := hs₂.of_sameStores (h₂.trans h₃)
  have hv : s₃.validators.lookup validator.OperatorAddress = some validator := by
    rw [h₃.1, h₂.1]
    exact AList.lookup_insert _
  -- the hook is called on a validator written at an address no validator had
  have hlog : LogsFrom s { s₃ with hooks := s₃.hooks ++ [.AfterValidatorCreated validator.OperatorAddress s₃.view] } :=
    LogsFrom.created (t := s₃) (fun hm => by
        change val ∈ s.validators at hm
        simp [← AList.lookup_isSome, hnone₀] at hm)
      (h₁.grows.trans (Grows.of_insert (h₂.trans h₃)))
  exact ewp_mono (Delegate_spec ⟨hs₃.setHooks _, hs.logs.trans hlog⟩ hv hamt) (fun _ _ h => h.1) (fun _ _ _ => trivial)

theorem NewHandler_spec {msg : Msg} (hs : Hooked s₀ s) (hvb : msg.ValidateBasic = .ok ()) :
    ewp (NewHandler msg) (fun _ => Hooked s₀) (fun _ _ => True) s := by
  have hpos := ValidateBasic_amount_pos hvb
  cases msg with
  | MsgCreateValidator del val consAddr value m => exact handleMsgCreateValidator_spec hs hpos
  | MsgEditValidator val m => exact handleMsgEditValidator_spec hs
  | MsgDelegate del val amount => exact handleMsgDelegate_spec hs hpos
  | MsgBeginRedelegate del src dst amount => exact handleMsgBeginRedelegate_spec hs hpos
  | MsgUndelegate del val amount => exact handleMsgUndelegate_spec hs hpos

theorem DeliverMsg_hooked {msg : Msg} {r : Option Err} {s' : State} (hs : Hooked s₀ s)
    (h : DeliverMsg msg s = .ok (r, s')) : Hooked s₀ s' := by
  unfold DeliverMsg at h
  split at h
  · cases h
    exact hs
  · rename_i hvb
    cases hrun : (NewHandler msg).run.run s with
    | error e => rw [hrun] at h; cases h
    | ok p =>
      obtain ⟨res, s''⟩ := p
      rw [hrun] at h
      cases res with
      | ok u =>
        cases h
        exact ewp_run_ok (NewHandler_spec hs hvb) hrun
      | error e =>
        cases h
        exact hs

end Handlers

/-! ### Rewriting a validator in place -/

theorem Accounted.writeValidator {s s' : State} {v w : Validator} (hs : Accounted s)
    (hv : s.validators.lookup v.OperatorAddress = some v)
    (h : SameStores { s with validators := s.validators.insert v.OperatorAddress w } s')
    (hop : w.OperatorAddress = v.OperatorAddress) (hds : w.DelegatorShares = v.DelegatorShares)
    (hsd : w.SelfDelegation = v.SelfDelegation) (ht0 : 0 ≤ w.Tokens) (ht : w.Tokens ≤ v.Tokens) :
    Accounted s' := by
  have hL := hs.ledger.insert_validator hv hop hds hsd ht0 (by rw [hds]; exact ht.trans (hs.ledger.tokens_le hv))
  exact (⟨hL, hs.reds⟩ : Accounted { s with validators := s.validators.insert v.OperatorAddress w }).of_sameStores h

theorem Hooked.writeValidator {s₀ s s' : State} {v w : Validator} (hs : Hooked s₀ s)
    (hv : s.validators.lookup v.OperatorAddress = some v)
    (h : SameStores { s with validators := s.validators.insert v.OperatorAddress w } s')
    (hop : w.OperatorAddress = v.OperatorAddress) (hds : w.DelegatorShares = v.DelegatorShares)
    (hsd : w.SelfDelegation = v.SelfDelegation) (ht0 : 0 ≤ w.Tokens) (ht : w.Tokens ≤ v.Tokens) :
    Hooked s₀ s' :=
  ⟨hs.toAccounted.writeValidator hv h hop hds hsd ht0 ht, hs.logs.trans (Grows.of_insert h).logsFrom⟩

theorem Hooked.setValidator {s₀ s s' : State} {v w : Validator} (hs : Hooked s₀ s)
    (hv : s.validators.lookup v.OperatorAddress = some v)
    (h : SameStores { s with validators := s.validators.insert v.OperatorAddress w } s')
    (hop : w.OperatorAddress = v.OperatorAddress) (hds : w.DelegatorShares = v.DelegatorShares)
    (hsd : w.SelfDelegation = v.SelfDelegation) (ht : w.Tokens = v.Tokens) : Hooked s₀ s' :=
  hs.writeValidator hv h hop hds hsd (ht ▸ hs.ledger.tokens_nonneg hv) ht.le

section EndBlock

variable {s₀ s : State}

theorem InsertValidatorQueue_untouched (v : Validator) : Untouched (InsertValidatorQueue v) :=
  Untouched.modify fun s => SameStores.refl s

theorem DeleteValidatorQueue_untouched (v : Validator) : Untouched (DeleteValidatorQueue v) :=
  Untouched.modify fun s => SameStores.refl s

theorem SetLastValidatorPower_untouched (operator : Address) (power : Int) :
    Untouched (SetLastValidatorPower operator power) :=
  Untouched.modify fun s => SameStores.refl s

theorem DeleteLastValidatorPower_untouched (operator : Address) : Untouched (DeleteLastValidatorPower operator) :=
  Untouched.modify fun s => SameStores.refl s

theorem SetLastTotalPower_untouched (power : Int) : Untouched (SetLastTotalPower power) :=
  Untouched.modify fun s => SameStores.refl s

theorem bondValidator_spec {v : Validator} (hs : Hooked s₀ s) (hv : s.validators.lookup v.OperatorAddress = some v) :
    ewp (bondValidator v) (fun _ => Hooked s₀) (fun _ => Hooked s₀) s := by
  simp only [bondValidator, ewp_bind, ewp_DeleteValidatorByPowerIndex, ewp_SetValidator, ewp_pure]
  refine ewp_SetValidatorByPowerIndex_of fun s₂ h₂ => ?_
  have hs₂ : Hooked s₀ s₂ := hs.setValidator hv h₂ rfl rfl rfl rfl
  exact (DeleteValidatorQueue_untouched _).ewp_of (fun _ s₃ h₃ => hs₂.of_sameStores h₃)
    (fun _ s₃ h₃ => hs₂.of_sameStores h₃)


theorem beginUnbondingValidator_spec {v : Validator} (hs : Hooked s₀ s)
    (hv : s.validators.lookup v.OperatorAddress = some v) :
    ewp (beginUnbondingValidator v) (fun _ => Hooked s₀) (fun _ => Hooked s₀) s := by
  simp only [beginUnbondingValidator, ewp_bind, ewp_get, ewp_DeleteValidatorByPowerIndex, ewp_ite, ewp_panicK,
    ewp_SetValidator, ewp_pure]
  refine ⟨fun _ => trivial, fun _ => ewp_SetValidatorByPowerIndex_of fun s₂ h₂ => ?_⟩
  have hs₂ : Hooked s₀ s₂ := hs.setValidator hv h₂ rfl rfl rfl rfl
  exact (InsertValidatorQueue_untouched _).ewp_of (fun _ s₃ h₃ => hs₂.of_sameStores h₃)
    (fun _ s₃ h₃ => hs₂.of_sameStores h₃)

theorem unbondedToBonded_spec {v : Validator} (hs : Hooked s₀ s) (hv : s.validators.lookup v.OperatorAddress = some v) :
    ewp (unbondedToBonded v) (fun _ => Hooked s₀) (fun _ => Hooked s₀) s := by
  rw [unbondedToBonded, ewp_ite]
  exact ⟨fun _ => ewp_panicK _, fun _ => bondValidator_spec hs hv⟩

theorem unbondingToBonded_spec {v : Validator} (hs : Hooked s₀ s) (hv : s.validators.lookup v.OperatorAddress = some v) :
    ewp (unbondingToBonded v) (fun _ => Hooked s₀) (fun _ => Hooked s₀) s := by
  rw [unbondingToBonded, ewp_ite]
  exact ⟨fun _ => ewp_panicK _, fun _ => bondValidator_spec hs hv⟩

theorem bondedToUnbonding_spec {v : Validator} (hs : Hooked s₀ s) (hv : s.validators.lookup v.OperatorAddress = some v) :
    ewp (bondedToUnbonding v) (fun _ => Hooked s₀) (fun _ => Hooked s₀) s := by
  rw [bondedToUnbonding, ewp_ite]
  exact ⟨fun _ => ewp_panicK _, fun _ => beginUnbondingValidator_spec hs hv⟩

/-- The loop over the power index keeps the invariant: each validator it bonds is
read from the store. -/
theorem applyPowerIndex_preserves (maxValidators : Nat) (l : List Address) :
    ∀ count updates last totalPower amt,
      Preserves (Hooked s₀) (applyPowerIndex maxValidators l count updates last totalPower amt) := by
  induction l with
  | nil => intro _ _ _ _ _; exact Preserves.pure _
  | cons valAddr rest ih =>
    intro count updates last totalPower amt s hs
    rw [applyPowerIndex]
    simp only [ewp_bind, ewp_ite, ewp_pure, ewp_mustGetValidator, ewp_panicK]
    refine ⟨fun _ => hs, fun _ v hv => ⟨fun _ => trivial, fun _ => ⟨fun _ => hs, fun _ => ?_⟩⟩⟩
    have hv' : s.validators.lookup v.OperatorAddress = some v := by rw [hs.ledger.val_key hv]; exact hv
    -- a validator not yet bonded is bonded first
    cases v.Status
    all_goals first
      | refine ewp_bind_of (unbondedToBonded_spec hs hv') (fun v' s₁ hs₁ => ?_) (fun _ _ h => h)
      | refine ewp_bind_of (unbondingToBonded_spec hs hv') (fun v' s₁ hs₁ => ?_) (fun _ _ h => h)
      | skip
    -- then its power is recorded if it changed, and the loop goes on
    all_goals
      refine ((Preserves.pure _).bind fun _ => Preserves.ite
        ((SetLastValidatorPower_untouched _ _).hooked.bind fun _ => (Preserves.pure _).bind fun _ => ih _ _ _ _ _)
        ((Preserves.pure _).bind fun _ => ih _ _ _ _ _)) _ ?_
      assumption


theorem unbondNoLongerBonded_preserves (l : List Address) :
    ∀ updates amt, Preserves (Hooked s₀) (unbondNoLongerBonded l updates amt) := by
  induction l with
  | nil => intro _ _; exact Preserves.pure _
  | cons valAddr rest ih =>
    intro updates amt s hs
    rw [unbondNoLongerBonded, ewp_bind, ewp_mustGetValidator]
    intro v hv
    have hv' : s.validators.lookup v.OperatorAddress = some v := by rw [hs.ledger.val_key hv]; exact hv
    refine ewp_bind_of (bondedToUnbonding_spec hs hv') (fun v' s₁ hs₁ => ?_) (fun _ _ h => h)
    exact ((DeleteLastValidatorPower_untouched _).hooked.bind fun _ => ih _ _) s₁ hs₁

theorem ApplyAndReturnValidatorSetUpdates_preserves : Preserves (Hooked s₀) ApplyAndReturnValidatorSetUpdates := by
  intro s hs
  unfold ApplyAndReturnValidatorSetUpdates
  rw [ewp_bind, ewp_get]
  refine ((applyPowerIndex_preserves _ _ _ _ _ _ _).bind fun ⟨updates, last, totalPower, amtIn⟩ => ?_) s hs
  dsimp -zeta only
  refine (unbondNoLongerBonded_preserves _ _ _).bind fun ⟨updates', amtOut⟩ => Untouched.hooked ?_
  dsimp -zeta only
  -- the pool transfers and the total power write none of the stores
  extract_lets jpDone jpTotal
  have htotal : ∀ u, Untouched (jpTotal u) := by
    intro u
    dsimp only [jpTotal, jpDone]
    exact Untouched.ite ((SetLastTotalPower_untouched _).bind fun _ => Untouched.pure _) (Untouched.pure _)
  exact Untouched.ite ((notBondedTokensToBonded_untouched _).bind htotal)
    (Untouched.ite ((bondedTokensToNotBonded_untouched _).bind htotal) (htotal ()))


/-- The mature validators of one queue slice become unbonded, and go once they have
no shares left. -/
theorem unbondMatureValidators_preserves (l : List Address) : Preserves (Hooked s₀) (unbondMatureValidators l) := by
  induction l with
  | nil => exact Preserves.pure _
  | cons valAddr rest ih =>
    intro s hs
    rw [unbondMatureValidators, ewp_bind, ewp_GetValidator]
    cases hv : s.validators.lookup valAddr with
    | none => exact ewp_panicK _
    | some val =>
    simp only [ewp_bind, ewp_ite, ewp_panicK, unbondingToUnbonded, completeUnbondingValidator, ewp_SetValidator,
      ewp_pure]
    refine ⟨fun _ => trivial, fun _ => ⟨fun _ => trivial, fun _ => ⟨fun hz => ?_, fun _ => ih _ ?_⟩⟩⟩
    all_goals
      have hv' : s.validators.lookup val.OperatorAddress = some val := by rw [hs.ledger.val_key hv]; exact hv
      have hs₁ := hs.setValidator hv' (SameStores.refl _) (w := val.UpdateStatus .Unbonded) rfl rfl rfl rfl
    -- a validator left without shares goes
    · refine ewp_mono (RemoveValidator_spec (E := fun _ => Hooked s₀) hs₁ fun v hv₁ => ?_)
        (fun _ s₂ h₂ => ih s₂ h₂.1) (fun _ _ h => h)
      rw [AList.lookup_insert, Option.some.injEq] at hv₁
      subst hv₁
      exact (IsZero_iff _).mp hz
    · exact hs₁

theorem UnbondAllMatureValidatorQueue_preserves : Preserves (Hooked s₀) UnbondAllMatureValidatorQueue := by
  unfold UnbondAllMatureValidatorQueue
  exact Preserves.get_bind fun s => Preserves.forM fun ⟨time, timeslice⟩ _ =>
    (unbondMatureValidators_preserves timeslice).bind fun _ => Untouched.hooked (Untouched.modify fun s => SameStores.refl s)

theorem DequeueAllMatureUBDQueue_untouched : Untouched DequeueAllMatureUBDQueue := by
  unfold DequeueAllMatureUBDQueue
  exact Untouched.get_bind fun s => Untouched.bind (Untouched.modify fun s => SameStores.refl s) fun _ => Untouched.pure _

theorem DequeueAllMatureRedelegationQueue_untouched : Untouched DequeueAllMatureRedelegationQueue := by
  unfold DequeueAllMatureRedelegationQueue
  exact Untouched.get_bind fun s => Untouched.bind (Untouched.modify fun s => SameStores.refl s) fun _ => Untouched.pure _

theorem UpdateMaxValidators_untouched : Untouched UpdateMaxValidators := by
  intro s
  simp only [UpdateMaxValidators, ewp_bind, ewp_get, ewp_ite, ewp_pure, ewp_modify]
  exact ⟨fun _ => SameStores.refl s, fun _ => ⟨fun _ => SameStores.refl s, fun _ => SameStores.refl s⟩⟩

/-- The end-block keeps the invariant, whatever it returns: the completions it skips
on an error wrote nothing to the stores before failing. -/
theorem BlockValidatorUpdates_preserves : Preserves (Hooked s₀) BlockValidatorUpdates := by
  unfold BlockValidatorUpdates
  refine ApplyAndReturnValidatorSetUpdates_preserves.bind fun _ => UnbondAllMatureValidatorQueue_preserves.bind
    fun _ => DequeueAllMatureUBDQueue_untouched.hooked.bind fun _ => Preserves.bind ?_
      fun _ => DequeueAllMatureRedelegationQueue_untouched.hooked.bind fun _ => Preserves.bind ?_
        fun _ => UpdateMaxValidators_untouched.hooked.bind fun _ => Preserves.pure _
  · exact Preserves.forM fun ⟨delAddr, valAddr⟩ _ =>
      Preserves.tryCatch (CompleteUnbonding_untouched delAddr valAddr).hooked fun _ => Preserves.pure _
  · exact Preserves.forM fun ⟨delAddr, valSrcAddr, valDstAddr⟩ _ =>
      Preserves.tryCatch (CompleteRedelegation_preserves delAddr valSrcAddr valDstAddr) fun _ => Preserves.pure _

end EndBlock


/-! ### Slashing, jailing and unjailing -/

section Slashing

variable {E : Err → State → Prop} {s₀ s : State}

@[simp] theorem ewp_GetValidatorByConsAddr {Q : Option Validator → State → Prop} (consAddr : Address) :
    ewp (GetValidatorByConsAddr consAddr) Q E s ↔
      Q ((s.validatorsByConsAddr.lookup consAddr).bind s.validators.lookup) s := by
  simp only [GetValidatorByConsAddr, GetValidator, ewp_bind, ewp_get]
  cases s.validatorsByConsAddr.lookup consAddr <;> rfl

theorem ewp_mustGetValidatorByConsAddr {Q : Validator → State → Prop} (consAddr : Address) :
    ewp (mustGetValidatorByConsAddr consAddr) Q E s ↔
      ∀ v, (s.validatorsByConsAddr.lookup consAddr).bind s.validators.lookup = some v → Q v s := by
  simp only [mustGetValidatorByConsAddr, ewp_bind, ewp_GetValidatorByConsAddr]
  cases (s.validatorsByConsAddr.lookup consAddr).bind s.validators.lookup <;> simp

theorem Accounted.lookup_of_consAddr (hs : Accounted s) {consAddr : Address} {v : Validator}
    (h : (s.validatorsByConsAddr.lookup consAddr).bind s.validators.lookup = some v) :
    s.validators.lookup v.OperatorAddress = some v := by
  obtain ⟨op, -, hv⟩ := Option.bind_eq_some_iff.mp h
  rw [hs.ledger.val_key hv]
  exact hv

theorem Jail_preserves (consAddr : Address) : Preserves (Hooked s₀) (Jail consAddr) := by
  intro s hs
  simp only [Jail, ewp_bind, ewp_mustGetValidatorByConsAddr, ewp_jailValidator]
  intro v hv _
  exact hs.setValidator (hs.lookup_of_consAddr hv) (SameStores.refl _) (w := { v with Jailed := true }) rfl rfl rfl
    rfl

theorem Unjail_preserves (consAddr : Address) : Preserves (Hooked s₀) (Unjail consAddr) := by
  intro s hs
  simp only [Unjail, unjailValidator, ewp_bind, ewp_mustGetValidatorByConsAddr, ewp_ite, ewp_panicK,
    ewp_SetValidator]
  intro v hv
  refine ⟨fun _ => trivial, fun _ => ewp_SetValidatorByPowerIndex_of fun s' h => ?_⟩
  exact hs.setValidator (hs.lookup_of_consAddr hv) h (w := { v with Jailed := false }) rfl rfl rfl rfl


/-- The invariant, with the validator being slashed still stored as it was read. -/
def SlashKept (s₀ : State) (op : Address) (v : Validator) (s : State) : Prop :=
  Hooked s₀ s ∧ s.validators.lookup op = some v

theorem SlashKept.of_sameStores {op : Address} {v : Validator} {s s' : State} (hs : SlashKept s₀ op v s)
    (h : SameStores s s') : SlashKept s₀ op v s' :=
  ⟨hs.1.of_sameStores h, by rw [h.1]; exact hs.2⟩

theorem GetUnbondingDelegationsFromValidator_untouched (valAddr : Address) :
    Untouched (GetUnbondingDelegationsFromValidator valAddr) :=
  fun s => SameStores.refl s

theorem SetUnbondingDelegation_untouched (ubd : UnbondingDelegation) : Untouched (SetUnbondingDelegation ubd) :=
  Untouched.modify fun s => SameStores.refl s

theorem slashUnbondingDelegation_untouched (ubd : UnbondingDelegation) (infractionHeight : Int) (slashFactor : Dec) :
    Untouched (slashUnbondingDelegation ubd infractionHeight slashFactor) := by
  unfold slashUnbondingDelegation
  refine Untouched.get_bind fun s => ?_
  dsimp only
  have hburn : ∀ amt total : Int, Untouched (burnNotBondedTokens amt >>= fun _ => pure total) :=
    fun amt total => (burnNotBondedTokens_untouched amt).bind fun _ => Untouched.pure total
  exact Untouched.ite ((SetUnbondingDelegation_untouched _).bind fun _ => hburn _ _) (hburn _ _)

/-- The redelegations that left a validator, as stored: from it, to another
validator, with non-negative destination shares. -/
theorem GetRedelegationsFromSrcValidator_spec {op : Address} (hs : Accounted s) :
    ewp (GetRedelegationsFromSrcValidator op) (fun reds s' => s' = s ∧ ∀ red ∈ reds,
      red.ValidatorSrcAddress = op ∧ red.ValidatorSrcAddress ≠ red.ValidatorDstAddress ∧
        ∀ e ∈ red.Entries, 0 ≤ e.SharesDst.i) E s := by
  simp only [GetRedelegationsFromSrcValidator, ewp_bind, ewp_get, ewp_pure]
  refine ⟨trivial, fun red hred => ?_⟩
  obtain ⟨e, he, hf⟩ := List.mem_filterMap.mp hred
  split at hf
  · rename_i hsrc
    cases hf
    have hl : s.redelegations.lookup e.1 = some e.2 := AList.mem_lookup_iff.mpr he
    have hk := hs.reds.key hl
    exact ⟨(congrArg (·.2.1) hk).trans hsrc, hs.reds.src_ne_dst hl, hs.reds.sharesDst_nonneg hl⟩
  · cases hf


/-- The loop of `slashRedelegation` unbonds only from the destination, so the
validator being slashed stays as it was read. -/
theorem slashRedelegationEntries_preserves {op : Address} {v : Validator} {red : Redelegation}
    {infractionHeight : Int} {slashFactor : Dec} (hdst : red.ValidatorDstAddress ≠ op) (hsf : 0 ≤ slashFactor.i)
    (entries : List RedelegationEntry) (hent : ∀ e ∈ entries, 0 ≤ e.SharesDst.i) :
    ∀ total bonded notBonded,
      Preserves (SlashKept s₀ op v) (slashRedelegationEntries red infractionHeight slashFactor entries total bonded notBonded) := by
  induction entries with
  | nil => intro _ _ _; exact Preserves.pure _
  | cons entry rest ih =>
    have ih' := ih fun e he => hent e (List.mem_cons_of_mem _ he)
    intro total bonded notBonded s hs
    rw [slashRedelegationEntries, ewp_bind, ewp_get]
    dsimp only
    -- entries not liable, or with nothing to unbond, are skipped
    rw [ewp_ite]
    refine ⟨fun _ => ih' _ _ _ s hs, fun _ => ?_⟩
    rw [ewp_ite]
    refine ⟨fun _ => ih' _ _ _ s hs, fun _ => ?_⟩
    rw [ewp_bind, ewp_GetDelegation]
    cases hdel : s.delegations.lookup (red.DelegatorAddress, red.ValidatorDstAddress) with
    | none => exact ih' _ _ _ s hs
    | some delegation =>
    dsimp only
    -- the destination shares are unbonded, which leaves the source as it was
    rw [ewp_bind, ewp_tryCatch]
    refine ewp_mono (unbond_spec hs.1 ?hsh) (fun amt s₁ h₁ => ?_) (fun _ _ _ => ewp_panicK _)
    case hsh =>
      split
      · exact (hs.1.ledger.del_pos hdel).le
      · exact Mul_nonneg hsf (hent entry List.mem_cons_self)
    have hs₁ : SlashKept s₀ op v s₁ := ⟨h₁.1, by rw [h₁.2.2 op (Ne.symm hdst)]; exact hs.2⟩
    rw [ewp_bind, ewp_GetValidator]
    cases s₁.validators.lookup red.ValidatorDstAddress with
    | none => exact ewp_panicK _
    | some dstValidator => exact ih' _ _ _ s₁ hs₁


theorem slashRedelegation_preserves {op : Address} {v srcValidator : Validator} {red : Redelegation}
    {infractionHeight : Int} {slashFactor : Dec} (hdst : red.ValidatorDstAddress ≠ op) (hsf : 0 ≤ slashFactor.i)
    (hent : ∀ e ∈ red.Entries, 0 ≤ e.SharesDst.i) :
    Preserves (SlashKept s₀ op v) (slashRedelegation srcValidator red infractionHeight slashFactor) := by
  unfold slashRedelegation
  have hI : ∀ s s', SameStores s s' → SlashKept s₀ op v s → SlashKept s₀ op v s' := fun _ _ h hs => hs.of_sameStores h
  exact (slashRedelegationEntries_preserves hdst hsf _ hent 0 0 0).bind fun ⟨_, bonded, notBonded⟩ =>
    ((burnBondedTokens_untouched bonded).preserves_of hI).bind fun _ =>
      ((burnNotBondedTokens_untouched notBonded).preserves_of hI).bind fun _ => Preserves.pure _

theorem RemoveValidatorTokens_spec {v : Validator} {tokens : Int} (hs : Hooked s₀ s)
    (hv : s.validators.lookup v.OperatorAddress = some v) :
    ewp (RemoveValidatorTokens v tokens) (fun _ => Hooked s₀) E s := by
  simp only [RemoveValidatorTokens, ewp_bind, ewp_DeleteValidatorByPowerIndex, ewp_liftPanic, ewp_SetValidator,
    ewp_pure]
  intro w hrem
  obtain ⟨rfl, ht0, ht⟩ := RemoveTokens_ok hrem
  refine ewp_SetValidatorByPowerIndex_of fun s' h => ?_
  exact hs.writeValidator hv h rfl rfl rfl (by simp only; omega) (by simp only; omega)


/-- `Slash` keeps the invariant: the redelegations it slashes unbond only from other
validators, so the validator it burns from is still the one it read, and it burns
at most that validator's tokens. -/
theorem Slash_preserves (consAddr : Address) (infractionHeight power : Int) (slashFactor : Dec) :
    Preserves (Hooked s₀) (Slash consAddr infractionHeight power slashFactor) := by
  intro s hs
  unfold Slash
  extract_lets amount slashAmount jp₁
  rw [ewp_ite]
  refine ⟨fun _ => by simp, fun hsf => ?_⟩
  have hsf' : 0 ≤ slashFactor.i := by simpa using hsf
  dsimp -zeta only [jp₁]
  rw [ewp_bind, ewp_GetValidatorByConsAddr]
  cases hv : (s.validatorsByConsAddr.lookup consAddr).bind s.validators.lookup with
  | none => exact hs
  | some validator =>
  dsimp -zeta only
  extract_lets operatorAddress jpBurn jpRemaining
  have hs₀ : SlashKept s₀ validator.OperatorAddress validator s := ⟨hs, hs.lookup_of_consAddr hv⟩
  have hI : ∀ s s', SameStores s s' → SlashKept s₀ validator.OperatorAddress validator s →
      SlashKept s₀ validator.OperatorAddress validator s' := fun _ _ h hs => hs.of_sameStores h
  -- the tokens burned are at most those of the validator, still as it was read
  have hburn : ∀ remaining s₁, SlashKept s₀ validator.OperatorAddress validator s₁ →
      ewp (jpBurn remaining) (fun _ => Hooked s₀) (fun _ => Hooked s₀) s₁ := by
    intro remaining s₁ hs₁
    dsimp -zeta only [jpBurn]
    extract_lets tokensToBurn jpRest
    have hrest : ∀ s₂, SlashKept s₀ validator.OperatorAddress validator s₂ →
        ewp (jpRest ()) (fun _ => Hooked s₀) (fun _ => Hooked s₀) s₂ := by
      intro s₂ hs₂
      refine ewp_bind_of (RemoveValidatorTokens_spec (E := fun _ => Hooked s₀) hs₂.1 hs₂.2) (fun w s₃ hs₃ => ?_)
        (fun _ _ h => h)
      split
      · exact (burnBondedTokens_untouched _).hooked _ hs₃
      · exact (burnNotBondedTokens_untouched _).hooked _ hs₃
      · exact (burnNotBondedTokens_untouched _).hooked _ hs₃
    rw [ewp_ite]
    refine ⟨fun _ => ?_, fun _ => hrest s₁ hs₁⟩
    -- the hook reads the store before the tokens go, and writes none of it
    rw [ewp_bind, ewp_liftPanic]
    intro _ _
    rw [ewp_bind, ewp_callHook]
    exact hrest _ ⟨⟨hs₁.1.toAccounted.setHooks _, hs₁.1.logs.trans (LogsFrom.slashed (Grows.refl _))⟩, hs₁.2⟩
  rw [ewp_ite]
  refine ⟨fun _ => by simp, fun _ => ?_⟩
  dsimp -zeta only [jpRemaining]
  rw [ewp_bind, ewp_get]
  dsimp only
  rw [ewp_ite]
  refine ⟨fun _ => by simp, fun _ => ?_⟩
  rw [ewp_ite]
  refine ⟨fun _ => ?_, fun _ => ?_⟩
  · rw [ewp_bind, ewp_pure]
    exact hburn _ s hs₀
  -- the unbonding delegations and the redelegations that left the validator
  refine (GetUnbondingDelegationsFromValidator_untouched _).ewp_bind (fun ubds s₁ h₁ => ?_)
    (fun _ _ h => hs.of_sameStores h)
  refine ewp_bind_of (Preserves.foldlM (fun ubd _ c => ((slashUnbondingDelegation_untouched _ _ _).preserves_of hI).bind
    fun _ => Preserves.pure _) s₁ (hs₀.of_sameStores h₁)) (fun remaining s₂ hs₂ => ?_) (fun _ _ h => h.1)
  refine ewp_bind_of (GetRedelegationsFromSrcValidator_spec (E := fun _ => Hooked s₀) hs₂.1.toAccounted)
    (fun reds s₃ h₃ => ?_) (fun _ _ h => h)
  obtain ⟨rfl, hreds⟩ := h₃
  refine ewp_bind_of (Preserves.foldlM (fun red hred c => (slashRedelegation_preserves ?_ hsf' (hreds red hred).2.2).bind
    fun _ => Preserves.pure _) s₃ hs₂) (fun r s₄ hs₄ => hburn r s₄ hs₄) (fun _ _ h => h.1)
  -- a redelegation from the validator ends at another one
  obtain ⟨hsrc, hne, -⟩ := hreds red hred
  exact fun h => hne (hsrc.trans h.symm)

end Slashing

/-! ### Runs -/

theorem Event.apply_hooked {e : Event} {s₀ s s' : State} (hs : Hooked s₀ s) (h : e.apply s = .ok s') :
    Hooked s₀ s' := by
  cases e with
  | Deliver msg =>
    obtain ⟨⟨r, t⟩, hrun, rfl⟩ := eq_ok_of_map h
    exact DeliverMsg_hooked hs hrun
  | EndBlock => exact Preserves.run BlockValidatorUpdates_preserves hs h
  | NewBlock time =>
    -- only the block header moves
    cases h
    exact hs.of_sameStores ⟨rfl, rfl, rfl, rfl⟩
  | Slash consAddr infractionHeight power slashFactor =>
    exact Preserves.run (Slash_preserves consAddr infractionHeight power slashFactor) hs h
  | Jail consAddr => exact Preserves.run (Jail_preserves consAddr) hs h
  | Unjail consAddr => exact Preserves.run (Unjail_preserves consAddr) hs h

theorem Reachable.accounted {s : State} (hs : Reachable s) : Accounted s := by
  induction hs with
  | genesis => exact ⟨Ledger.empty, RedelegationsWF.empty⟩
  | step e _ _ happ ih => exact (e.apply_hooked ⟨ih, LogsFrom.refl _⟩ happ).toAccounted

/-- Every event from a state of the invariant calls the distribution hooks by their protocol. -/
theorem Event.apply_logsFrom {e : Event} {s s' : State} (hs : Accounted s) (h : e.apply s = .ok s') :
    LogsFrom s s' :=
  (e.apply_hooked ⟨hs, LogsFrom.refl s⟩ h).logs

/-- `DelegatorSharesInvariant` and `PositiveDelegationInvariant` of
`keeper/invariants.go`, with the self-delegation and the tokens, in every reachable
state. -/
theorem reachable_delegatorShares_invariant {s : State} (hs : Reachable s) :
    (∀ a v, s.validators.lookup a = some v →
      v.DelegatorShares = totalDelShares s v.OperatorAddress ∧
      v.SelfDelegation =
        ((s.delegations.lookup (v.OperatorAddress, v.OperatorAddress)).map (·.Shares)).getD ZeroDec ∧
      0 ≤ v.Tokens) ∧
    (∀ k d, s.delegations.lookup k = some d → d.Shares.IsPositive = true) := by
  have hL := hs.accounted.ledger
  refine ⟨fun a v hv => ?_, fun k d hd => decide_eq_true (hL.del_pos hd)⟩
  -- the validator is stored under its operator address
  obtain rfl := hL.val_key hv
  refine ⟨eq_of_i_eq ?_, eq_of_i_eq ?_, hL.tokens_nonneg hv⟩
  · rw [totalDelShares_i]
    exact hL.shares_eq hv
  · rw [hL.self_eq hv]
    cases hd : s.delegations.lookup (v.OperatorAddress, v.OperatorAddress) <;> simp [sharesAt, hd, ZeroDec]

theorem redelegationRun_delegatorShares_invariant :
    ∃ s, Reachable s ∧ s.validators.entries.length = 2 ∧ s.delegations.entries.length = 3 ∧
      (∀ a v, s.validators.lookup a = some v →
        v.DelegatorShares = totalDelShares s v.OperatorAddress ∧
        v.SelfDelegation = ((s.delegations.lookup (v.OperatorAddress, v.OperatorAddress)).map (·.Shares)).getD ZeroDec ∧
        0 ≤ v.Tokens) ∧
      (∀ k d, s.delegations.lookup k = some d → d.Shares.IsPositive = true) := by
  refine fundedGenesis_reachable.exists_of_runEvents redelegationRun (by decide +kernel) fun s hrun => ?_
  -- validators [1] and [3]; [1]'s self-delegation and [2]'s delegations to both, [3] having undelegated its own
  have hsizes : (Staking.runEvents fundedGenesis redelegationRun).map
      (fun s => (s.validators.entries.length, s.delegations.entries.length)) = .ok (2, 3) := by
    decide +kernel
  rw [hrun] at hsizes
  obtain ⟨hv, hd⟩ := Prod.mk.inj (Except.ok.inj hsizes)
  exact ⟨hv, hd, reachable_delegatorShares_invariant (fundedGenesis_reachable.runEvents hrun)⟩

end Staking

end Dipper
