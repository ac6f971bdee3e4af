import Dipper.Staking.Handler
import Dipper.Staking.Hooks
import Dipper.Staking.Ledger

/-!
# Delegator shares stay accounted for

Every state the staking module reaches keeps its share ledger: the validators' shares are the
sums of their delegations, the self-delegations the operators' own holdings, every delegation
positive, every validator's tokens between zero and its shares; and every stored redelegation
runs between two different validators with non-negative destination shares. Each method keeps
it while calling the distribution hooks by their protocol.
-/

namespace Dipper

namespace Staking

open Dec Validator StateExcept

/-- The invariant of a staking state: the share ledger, and well-formed
redelegations. -/
structure Accounted (s : State) : Prop where
  ledger : Ledger s.validators s.delegations
  reds : RedelegationsWF s.redelegations

/-- The three stores the invariant reads, and the hooks called, are as they were. -/
def SameStores (s s' : State) : Prop :=
  s'.validators = s.validators ∧ s'.delegations = s.delegations ∧ s'.redelegations = s.redelegations ∧
    s'.hooks = s.hooks

theorem SameStores.refl (s : State) : SameStores s s := ⟨rfl, rfl, rfl, rfl⟩

theorem SameStores.trans {s₁ s₂ s₃ : State} (h₁ : SameStores s₁ s₂) (h₂ : SameStores s₂ s₃) :
    SameStores s₁ s₃ :=
  ⟨h₂.1.trans h₁.1, h₂.2.1.trans h₁.2.1, h₂.2.2.1.trans h₁.2.2.1, h₂.2.2.2.trans h₁.2.2.2⟩

theorem Accounted.of_sameStores {s s' : State} (hs : Accounted s) (h : SameStores s s') : Accounted s' := by
  obtain ⟨hv, hd, hr, -⟩ := h
  exact ⟨hv ▸ hd ▸ hs.ledger, hr ▸ hs.reds⟩

/-- A call to the hooks writes none of the stores. -/
theorem Accounted.setHooks {s : State} (hs : Accounted s) (hooks : List HookCall) : Accounted { s with hooks } :=
  ⟨hs.ledger, hs.reds⟩

theorem SameStores.grows {s s' : State} (h : SameStores s s') : Grows s s' := by
  obtain ⟨hv, hd, -, hh⟩ := h
  refine ⟨⟨fun a ha => ?_, fun k hk => ?_⟩, hh⟩
  · show a ∈ s'.validators
    rwa [hv]
  · show k ∈ s'.delegations
    rwa [hd]

/-- Writing a validator adds at most its address. -/
theorem Grows.of_insert {s s' : State} {a : Address} {w : Validator}
    (h : SameStores { s with validators := s.validators.insert a w } s') : Grows s s' := by
  have hins : Grows s { s with validators := s.validators.insert a w } :=
    ⟨⟨fun b hb => (AList.mem_insert _).mpr (.inr hb), fun k hk => hk⟩, rfl⟩
  exact hins.trans h.grows

/-- The invariant, and the calls to the hooks made since `s₀` by their protocol. -/
structure Hooked (s₀ s : State) : Prop extends Accounted s where
  logs : LogsFrom s₀ s

theorem Hooked.of_sameStores {s₀ s s' : State} (hs : Hooked s₀ s) (h : SameStores s s') : Hooked s₀ s' :=
  ⟨hs.toAccounted.of_sameStores h, hs.logs.trans h.grows.logsFrom⟩

theorem Hooked.setRedelegations {s₀ s : State} (hs : Hooked s₀ s)
    {r : AList (fun _ : Address × Address × Address => Redelegation)} (hr : RedelegationsWF r) :
    Hooked s₀ { s with redelegations := r } :=
  ⟨⟨hs.ledger, hr⟩, hs.logs.trans (Grows.refl s).logsFrom⟩

theorem Accounted.keyedAt {s : State} (hs : Accounted s) (d a : Address) : s.view.KeyedAt d a :=
  fun _ hd => Prod.mk.inj (hs.ledger.del_key hd)

/-- No validator but the one at `a` is changed. -/
def OthersKept (a : Address) (s s' : State) : Prop :=
  ∀ b, b ≠ a → s'.validators.lookup b = s.validators.lookup b

theorem OthersKept.refl (a : Address) (s : State) : OthersKept a s s := fun _ _ => rfl

theorem OthersKept.trans {a : Address} {s₁ s₂ s₃ : State} (h₁ : OthersKept a s₁ s₂) (h₂ : OthersKept a s₂ s₃) :
    OthersKept a s₁ s₃ :=
  fun b hb => (h₂ b hb).trans (h₁ b hb)

/-! ### Keeper methods that write none of the three stores -/

/-- A keeper method that writes no validator, delegation or redelegation, whatever it
returns. -/
def Untouched {α : Type} (x : KM α) : Prop :=
  ∀ s, ewp x (fun _ s' => SameStores s s') (fun _ s' => SameStores s s') s

namespace Untouched

variable {α β : Type}

theorem bind {x : KM α} {f : α → KM β} (hx : Untouched x) (hf : ∀ a, Untouched (f a)) : Untouched (x >>= f) := by
  intro s
  rw [ewp_bind]
  exact ewp_mono (hx s) (fun a s₁ h₁ => ewp_mono (hf a s₁) (fun _ _ h₂ => h₁.trans h₂) (fun _ _ h₂ => h₁.trans h₂))
    (fun _ _ h => h)

theorem modify {f : State → State} (hf : ∀ s, SameStores s (f s)) : Untouched (modify f : KM PUnit) :=
  fun s => hf s

theorem pure (a : α) : Untouched (Pure.pure a : KM α) := fun s => SameStores.refl s

theorem ite {c : Prop} [Decidable c] {x y : KM α} (hx : Untouched x) (hy : Untouched y) :
    Untouched (if c then x else y) := by
  by_cases hc : c
  · rw [if_pos hc]; exact hx
  · rw [if_neg hc]; exact hy

theorem get_bind {f : State → KM α} (hf : ∀ s, Untouched (f s)) : Untouched (get >>= f) := by
  intro s
  rw [StateExcept.ewp_bind, ewp_get]
  exact hf s s

theorem ewp_of {x : KM α} (hx : Untouched x) {Q : α → State → Prop} {E : Err → State → Prop} {s : State}
    (hQ : ∀ a s', SameStores s s' → Q a s') (hE : ∀ e s', SameStores s s' → E e s') : ewp x Q E s :=
  ewp_mono (hx s) hQ hE

theorem preserves_of {I : State → Prop} (hI : ∀ s s', SameStores s s' → I s → I s') {x : KM α}
    (hx : Untouched x) : Preserves I x :=
  fun s hs => ewp_mono (hx s) (fun _ s' h => hI s s' h hs) (fun _ s' h => hI s s' h hs)

theorem hooked {s₀ : State} {x : KM α} (hx : Untouched x) : Preserves (Hooked s₀) x :=
  hx.preserves_of fun _ _ h hs => hs.of_sameStores h

theorem hooked_of {x : KM α} (hx : Untouched x) {s₀ s : State} (hs : Hooked s₀ s) :
    ewp x (fun _ => Hooked s₀) (fun _ _ => True) s :=
  ewp_mono (hx s) (fun _ _ h => hs.of_sameStores h) (fun _ _ _ => trivial)

theorem ewp_bind {x : KM α} {f : α → KM β} (hx : Untouched x) {Q : β → State → Prop} {E : Err → State → Prop}
    {s : State} (hf : ∀ a s', SameStores s s' → ewp (f a) Q E s') (hE : ∀ e s', SameStores s s' → E e s') :
    ewp (x >>= f) Q E s := by
  rw [StateExcept.ewp_bind]
  exact ewp_mono (hx s) hf hE

end Untouched

theorem SetValidatorByPowerIndex_untouched (v : Validator) : Untouched (SetValidatorByPowerIndex v) := by
  intro s
  unfold SetValidatorByPowerIndex
  split
  · exact SameStores.refl s
  · exact SameStores.refl s

theorem ewp_SetValidatorByPowerIndex_of {v : Validator} {Q : Unit → State → Prop} {E : Err → State → Prop}
    {s : State} (h : ∀ s', SameStores s s' → Q () s') : ewp (SetValidatorByPowerIndex v) Q E s := by
  unfold SetValidatorByPowerIndex
  split
  · exact h s (SameStores.refl s)
  · exact h _ (SameStores.refl s)

theorem NewCoin_untouched (amt : Int) : Untouched (NewCoin amt) := by
  intro s
  unfold NewCoin
  split
  · simp [panicK]
  · exact SameStores.refl s

theorem DelegateCoinsFromAccountToModule_untouched (delAddr : Address) (pool : Pool) (amt : Int) :
    Untouched (DelegateCoinsFromAccountToModule delAddr pool amt) := by
  refine (NewCoin_untouched amt).bind fun _ s => ?_
  simp only [ewp_bind, ewp_get]
  split
  · exact SameStores.refl s
  · rw [ewp_ite]
    exact ⟨fun _ => SameStores.refl s, fun _ => SameStores.refl s⟩

theorem UndelegateCoinsFromModuleToAccount_untouched (pool : Pool) (delAddr : Address) (amt : Int) :
    Untouched (UndelegateCoinsFromModuleToAccount pool delAddr amt) := by
  refine (NewCoin_untouched amt).bind fun _ s => ?_
  simp only [ewp_bind, ewp_get]
  split
  · exact SameStores.refl s
  · simp only [ewp_bind, ewp_get, ewp_ite]
    exact ⟨fun _ => SameStores.refl s, fun _ => SameStores.refl s⟩

theorem SendCoinsFromModuleToModule_untouched (src dst : Pool) (amt : Int) :
    Untouched (SendCoinsFromModuleToModule src dst amt) := by
  refine (NewCoin_untouched amt).bind fun _ s => ?_
  simp only [ewp_bind, ewp_get, ewp_ite]
  exact ⟨fun _ => SameStores.refl s, fun _ => SameStores.refl s⟩

theorem BurnCoins_untouched (pool : Pool) (amt : Int) : Untouched (BurnCoins pool amt) := by
  refine (NewCoin_untouched amt).bind fun _ s => ?_
  simp only [ewp_bind, ewp_get, ewp_ite, panicK, ewp_lift]
  exact ⟨(fun _ _ h => by cases h), fun _ => SameStores.refl s⟩

theorem moveBetweenPools_untouched (src dst : Pool) (tokens : Int) :
    Untouched (moveBetweenPools src dst tokens) := by
  intro s
  rw [moveBetweenPools, ewp_tryCatch]
  exact ewp_mono (SendCoinsFromModuleToModule_untouched src dst tokens s) (fun _ _ h => h)
    (fun _ _ _ => by simp [panicK])

theorem bondedTokensToNotBonded_untouched (tokens : Int) : Untouched (bondedTokensToNotBonded tokens) :=
  moveBetweenPools_untouched _ _ tokens

theorem notBondedTokensToBonded_untouched (tokens : Int) : Untouched (notBondedTokensToBonded tokens) :=
  moveBetweenPools_untouched _ _ tokens

theorem burnBondedTokens_untouched (amt : Int) : Untouched (burnBondedTokens amt) := by
  intro s
  unfold burnBondedTokens
  split
  · exact SameStores.refl s
  · exact BurnCoins_untouched _ amt s

theorem burnNotBondedTokens_untouched (amt : Int) : Untouched (burnNotBondedTokens amt) := by
  intro s
  unfold burnNotBondedTokens
  split
  · exact SameStores.refl s
  · exact BurnCoins_untouched _ amt s

theorem SetValidatorByConsAddr_untouched (v : Validator) : Untouched (SetValidatorByConsAddr v) :=
  Untouched.modify fun s => SameStores.refl s

theorem SetNewValidatorByPowerIndex_untouched (v : Validator) : Untouched (SetNewValidatorByPowerIndex v) :=
  Untouched.modify fun s => SameStores.refl s

theorem GetValidatorByConsAddr_untouched (consAddr : Address) : Untouched (GetValidatorByConsAddr consAddr) := by
  intro s
  simp only [GetValidatorByConsAddr, GetValidator, ewp_bind, ewp_get]
  split <;> exact SameStores.refl s

theorem HasMaxUnbondingDelegationEntries_untouched (delAddr valAddr : Address) :
    Untouched (HasMaxUnbondingDelegationEntries delAddr valAddr) := by
  intro s
  simp only [HasMaxUnbondingDelegationEntries, GetUnbondingDelegation, ewp_bind, ewp_get, ewp_pure]
  split <;> exact SameStores.refl s

theorem SetUnbondingDelegationEntry_untouched (delAddr valAddr : Address) (creationHeight minTime balance : Int) :
    Untouched (SetUnbondingDelegationEntry delAddr valAddr creationHeight minTime balance) := by
  intro s
  simp only [SetUnbondingDelegationEntry, GetUnbondingDelegation, SetUnbondingDelegation, ewp_bind, ewp_get,
    ewp_pure, ewp_modify]
  exact SameStores.refl s

theorem InsertUBDQueue_untouched (ubd : UnbondingDelegation) (completionTime : Int) :
    Untouched (InsertUBDQueue ubd completionTime) :=
  Untouched.modify fun s => SameStores.refl s

theorem HasReceivingRedelegation_untouched (delAddr valDstAddr : Address) :
    Untouched (HasReceivingRedelegation delAddr valDstAddr) :=
  fun s => SameStores.refl s

theorem HasMaxRedelegationEntries_untouched (delAddr valSrcAddr valDstAddr : Address) :
    Untouched (HasMaxRedelegationEntries delAddr valSrcAddr valDstAddr) := by
  intro s
  simp only [HasMaxRedelegationEntries, GetRedelegation, ewp_bind, ewp_get, ewp_pure]
  split <;> exact SameStores.refl s

theorem getBeginInfo_untouched (valSrcAddr : Address) : Untouched (getBeginInfo valSrcAddr) := by
  intro s
  simp only [getBeginInfo, GetValidator, ewp_bind, ewp_get, ewp_pure]
  split
  · split <;> exact SameStores.refl s
  · exact SameStores.refl s

theorem InsertRedelegationQueue_untouched (red : Redelegation) (completionTime : Int) :
    Untouched (InsertRedelegationQueue red completionTime) :=
  Untouched.modify fun s => SameStores.refl s

/-! ### Reading and writing the stores -/

section Rules

variable {α : Type} {E : Err → State → Prop} {s : State}

@[simp] theorem ewp_panicK {Q : α → State → Prop} (msg : String) : ewp (panicK msg : KM α) Q E s := by
  simp [panicK]

@[simp] theorem ewp_liftPanic {Q : α → State → Prop} (x : Except String α) :
    ewp (liftPanic x) Q E s ↔ ∀ a, x = .ok a → Q a s := by
  simp [liftPanic]

@[simp] theorem ewp_GetValidator {Q : Option Validator → State → Prop} (a : Address) :
    ewp (GetValidator a) Q E s ↔ Q (s.validators.lookup a) s := Iff.rfl

@[simp] theorem ewp_GetDelegation {Q : Option Delegation → State → Prop} (d a : Address) :
    ewp (GetDelegation d a) Q E s ↔ Q (s.delegations.lookup (d, a)) s := Iff.rfl

@[simp] theorem ewp_SetValidator {Q : Unit → State → Prop} (v : Validator) :
    ewp (SetValidator v) Q E s ↔ Q () { s with validators := s.validators.insert v.OperatorAddress v } := Iff.rfl

@[simp] theorem ewp_SetDelegation {Q : Unit → State → Prop} (d : Delegation) :
    ewp (SetDelegation d) Q E s ↔
      Q () { s with delegations := s.delegations.insert (d.DelegatorAddress, d.ValidatorAddress) d } := Iff.rfl

@[simp] theorem ewp_RemoveDelegation {Q : Unit → State → Prop} (d : Delegation) :
    ewp (RemoveDelegation d) Q E s ↔
      Q () { s with delegations := s.delegations.erase (d.DelegatorAddress, d.ValidatorAddress) } := Iff.rfl

@[simp] theorem ewp_callHook {Q : Unit → State → Prop} (call : View → HookCall) :
    ewp (callHook call) Q E s ↔ Q () { s with hooks := s.hooks ++ [call s.view] } := Iff.rfl

@[simp] theorem ewp_DeleteValidatorByPowerIndex {Q : Unit → State → Prop} (v : Validator) :
    ewp (DeleteValidatorByPowerIndex v) Q E s ↔
      Q () { s with validatorsByPower := s.validatorsByPower.erase (GetValidatorsByPowerIndexKey v) } := Iff.rfl

theorem ewp_mustGetValidator {Q : Validator → State → Prop} (a : Address) :
    ewp (mustGetValidator a) Q E s ↔ ∀ v, s.validators.lookup a = some v → Q v s := by
  unfold mustGetValidator
  simp only [ewp_bind, ewp_GetValidator]
  split <;> simp_all

end Rules

/-! ### Delegating -/

theorem Ledger.getD_delegation {vals : AList (fun _ : Address => Validator)}
    {dels : AList (fun _ : Address × Address => Delegation)} (hL : Ledger vals dels) (d a : Address) :
    (dels.lookup (d, a)).getD ⟨d, a, ZeroDec⟩ = ⟨d, a, ⟨sharesAt dels (d, a)⟩⟩ := by
  cases hd : dels.lookup (d, a) with
  | none => simp [sharesAt, hd, ZeroDec]
  | some del =>
    have hk := hL.del_key hd
    simp only [Prod.mk.injEq] at hk
    simp only [Option.getD_some, sharesAt, hd, Option.map_some]
    rw [← hk.1, ← hk.2]

theorem Ledger.sharesAt_nonneg {vals : AList (fun _ : Address => Validator)}
    {dels : AList (fun _ : Address × Address => Delegation)} (hL : Ledger vals dels) (k : Address × Address) :
    0 ≤ sharesAt dels k := by
  cases hd : dels.lookup k with
  | none => simp [sharesAt, hd]
  | some del => simpa [sharesAt, hd] using (hL.del_pos hd).le

theorem Delegate_ledger {s s' s'' : State} {validator v' : Validator} {delAddr : Address} {bondAmt : Int}
    {sh : Dec} {d : Delegation} {p : AList (fun _ : Bytes => Address)} (hs : Accounted s)
    (hv : s.validators.lookup validator.OperatorAddress = some validator) (hamt : 0 < bondAmt)
    (hd : d = (s.delegations.lookup (delAddr, validator.OperatorAddress)).getD
      ⟨delAddr, validator.OperatorAddress, ZeroDec⟩)
    (hadd : validator.AddTokensFromDel bondAmt (d.DelegatorAddress == validator.OperatorAddress) = .ok (v', sh))
    (hs' : SameStores s s')
    (hs'' : SameStores { s' with validators := s'.validators.insert v'.OperatorAddress v', validatorsByPower := p } s'') :
    Accounted { s'' with
      delegations := (s''.delegations.insert (d.DelegatorAddress, d.ValidatorAddress) { d with Shares := d.Shares.Add sh }) }
      ∧ 0 < sh.i := by
  have hL := hs.ledger
  rw [hL.getD_delegation delAddr _] at hd
  subst hd
  obtain ⟨hle, hop, htok, hds, hsd⟩ :=
    AddTokensFromDel_ok hadd (hL.tokens_nonneg hv) (hL.tokens_le hv) hamt.le
  have hold0 := hL.sharesAt_nonneg (delAddr, validator.OperatorAddress)
  -- the new holding is positive, so the record is written rather than erased
  have hput : putShares s.delegations delAddr validator.OperatorAddress
      (sharesAt s.delegations (delAddr, validator.OperatorAddress) + sh.i) =
      s.delegations.insert (delAddr, validator.OperatorAddress)
        ⟨delAddr, validator.OperatorAddress, (⟨sharesAt s.delegations (delAddr, validator.OperatorAddress)⟩ : Dec).Add sh⟩ := by
    rw [putShares, if_neg (by omega)]
    rfl
  have hL' : Ledger (s.validators.insert validator.OperatorAddress v')
      (putShares s.delegations delAddr validator.OperatorAddress
        (sharesAt s.delegations (delAddr, validator.OperatorAddress) + sh.i)) := by
    refine hL.putShares hv hop (by rw [hds]; ring) ?_ (by omega) (by rw [htok]; linarith [hL.tokens_nonneg hv])
      (by rw [htok, hds]; linarith [hL.tokens_le hv])
    rw [hsd]
    by_cases hda : delAddr = validator.OperatorAddress
    · rw [hda, if_pos (beq_self_eq_true _), if_pos rfl, hL.self_eq hv]
    · rw [if_neg (by simpa using hda), if_neg hda, add_zero]
  obtain ⟨h1, h2, h3, -⟩ := hs'
  obtain ⟨h1', h2', h3', -⟩ := hs''
  refine ⟨⟨?_, ?_⟩, by omega⟩
  · rw [hput] at hL'
    simpa only [h1', h2', h1, h2, hop] using hL'
  · simpa only [h3', h3] using hs.reds

/-- `Delegate` writes the validator and then the delegation, and calls the hooks on the store it
read the delegation from. -/
theorem Delegate_logs {s s' s'' : State} {v' : Validator} {p : AList (fun _ : Bytes => Address)}
    {k : Address × Address} {d : Delegation} {delAddr valAddr : Address} (hs : Accounted s) (hs' : SameStores s s')
    (hs'' : SameStores { s' with validators := s'.validators.insert v'.OperatorAddress v', validatorsByPower := p } s'') :
    LogsFrom s { s'' with
      delegations := s''.delegations.insert k d
      hooks := s''.hooks ++ [.Delegated delAddr valAddr s.view (State.view { s'' with delegations := s''.delegations.insert k d })] } := by
  have hadd : Grows s' { s' with validators := s'.validators.insert v'.OperatorAddress v', validatorsByPower := p } :=
    ⟨⟨fun b hb => (AList.mem_insert _).mpr (.inr hb), fun j hj => hj⟩, rfl⟩
  have hput : Grows s'' { s'' with delegations := s''.delegations.insert k d } :=
    ⟨⟨fun b hb => hb, fun j hj => (AList.mem_insert _).mpr (.inr hj)⟩, rfl⟩
  exact LogsFrom.delegated (hs.keyedAt delAddr valAddr) (hs'.grows.trans (hadd.trans (hs''.grows.trans hput)))

/-- `Delegate` from a state of the invariant, for a validator as stored and a
positive amount, keeps the invariant when it returns, and issues positive shares. -/
theorem Delegate_spec {s₀ s : State} {validator : Validator} {delAddr : Address} {bondAmt : Int}
    {tokenSrc : BondStatus} {subtractAccount : Bool} (hs : Hooked s₀ s)
    (hv : s.validators.lookup validator.OperatorAddress = some validator) (hamt : 0 < bondAmt) :
    ewp (Delegate delAddr bondAmt tokenSrc validator subtractAccount) (fun sh s' => Hooked s₀ s' ∧ 0 < sh.i)
      (fun _ _ => True) s := by
  simp only [Delegate, AddValidatorTokensAndShares, ewp_bind, ewp_ite, ewp_throw, ewp_GetDelegation, ewp_get,
    ewp_pure, ewp_liftPanic, ewp_panicK, ewp_SetValidator, ewp_SetDelegation, ewp_DeleteValidatorByPowerIndex,
    ewp_callHook]
  -- the coins move by a transfer that writes none of the stores, or do not move
  refine ⟨fun _ => trivial, fun _ => ⟨fun _ => ⟨fun _ => trivial, fun _ => ?_⟩,
    fun _ => ⟨fun _ => ?_, fun _ => ⟨fun _ => ?_, fun _ => ?_⟩⟩⟩⟩
  all_goals first
    | refine (DelegateCoinsFromAccountToModule_untouched _ _ _).ewp_of (fun _ s' hs' => ?_) (fun _ _ _ => trivial)
    | refine (notBondedTokensToBonded_untouched _).ewp_of (fun _ s' hs' => ?_) (fun _ _ _ => trivial)
    | refine (bondedTokensToNotBonded_untouched _).ewp_of (fun _ s' hs' => ?_) (fun _ _ _ => trivial)
    | have hs' := SameStores.refl s
  -- then the lever check, the new shares and the delegation record, from each of them
  all_goals
    intro lever _
    refine ⟨fun _ => trivial, fun _ => ?_⟩
    rintro ⟨v', sh⟩ hadd
    exact (SetValidatorByPowerIndex_untouched v').ewp_of
      (fun _ s'' hs'' => (Delegate_ledger hs.toAccounted hv hamt rfl hadd hs' hs'').imp_left
        fun h => ⟨h.setHooks _, hs.logs.trans (Delegate_logs hs.toAccounted hs' hs'')⟩)
      (fun _ _ _ => trivial)


/-! ### Unbonding -/

section Writes

variable {E : Err → State → Prop} {s : State}

@[simp] theorem ewp_jailValidator {Q : Unit → State → Prop} (v : Validator) :
    ewp (jailValidator v) Q E s ↔ (v.Jailed = false →
      Q () { s with validators := s.validators.insert v.OperatorAddress { v with Jailed := true },
                    validatorsByPower := s.validatorsByPower.erase (GetValidatorsByPowerIndexKey { v with Jailed := true }) }) := by
  simp [jailValidator, ewp_ite]

theorem ewp_RemoveValidatorTokensAndShares {Q : Validator × Int → State → Prop} {v : Validator} {shares : Dec}
    {isOp : Bool} (h : ∀ v' amt, v.RemoveDelShares shares isOp = .ok (v', amt) → ∀ s',
      SameStores { s with validators := s.validators.insert v'.OperatorAddress v' } s' → Q (v', amt) s') :
    ewp (RemoveValidatorTokensAndShares v shares isOp) Q E s := by
  simp only [RemoveValidatorTokensAndShares, ewp_bind, ewp_DeleteValidatorByPowerIndex, ewp_liftPanic,
    ewp_SetValidator, ewp_pure]
  rintro ⟨v', amt⟩ hrem
  exact ewp_SetValidatorByPowerIndex_of (h v' amt hrem)

/-- `RemoveValidator` of a validator without shares keeps the invariant, and only
that validator goes. -/
theorem RemoveValidator_spec {s₀ : State} {a : Address} (hs : Hooked s₀ s)
    (hz : ∀ v, s.validators.lookup a = some v → v.DelegatorShares.i = 0) :
    ewp (RemoveValidator a) (fun _ s' => Hooked s₀ s' ∧ OthersKept a s s') E s := by
  simp only [RemoveValidator, ewp_bind, ewp_GetValidator]
  split
  · exact ⟨hs, OthersKept.refl a s⟩
  · rename_i v hv
    simp only [ewp_bind, ewp_ite, ewp_panicK, ewp_modify, ewp_callHook, implies_true, true_and]
    intro _ _
    have hop : v.OperatorAddress = a := hs.ledger.val_key hv
    refine ⟨⟨⟨hs.ledger.erase_validator hv (hz v hv), hs.reds⟩, hs.logs.trans ?_⟩, fun b hb => AList.lookup_erase_ne hb⟩
    -- a validator without shares has no delegation left, so the hook may drop its records
    exact LogsFrom.removed (t := { s with
        validators := s.validators.erase a
        validatorsByConsAddr := s.validatorsByConsAddr.erase v.ConsAddress
        validatorsByPower := s.validatorsByPower.erase (GetValidatorsByPowerIndexKey v) })
      (fun b hb hba => AList.mem_erase.mpr ⟨hop ▸ hba, hb⟩) rfl
      (fun k hk => hop ▸ hs.ledger.no_delegation_mem hv (hz v hv) hk) rfl

@[simp] theorem ewp_writeDelegation {α : Type} {Q : α → State → Prop} (da va : Address) (sh : Dec)
    (k : Unit → KM α) :
    ewp (if sh.IsZero then RemoveDelegation ⟨da, va, sh⟩ >>= k else SetDelegation ⟨da, va, sh⟩ >>= k) Q E s ↔
      ewp (k ()) Q E { s with delegations := putShares s.delegations da va sh.i } := by
  by_cases hz : sh.IsZero
  · rw [if_pos hz, ewp_bind, ewp_RemoveDelegation, putShares, if_pos ((IsZero_iff sh).mp hz)]
  · rw [if_neg hz, ewp_bind, ewp_SetDelegation, putShares, if_neg (mt (IsZero_iff sh).mpr hz)]

end Writes

theorem unbond_ledger {s₁ s₃ : State} {v₁ v₂ : Validator} {del : Delegation} {shares : Dec} {amt : Int}
    {valAddr : Address} {hooks : List HookCall} (hs₁ : Accounted s₁) (hv₁ : s₁.validators.lookup valAddr = some v₁)
    (hdel : s₁.delegations.lookup (del.DelegatorAddress, valAddr) = some del) (hsh : 0 ≤ shares.i)
    (hle : shares.i ≤ del.Shares.i)
    (hrem : v₁.RemoveDelShares shares (del.DelegatorAddress == valAddr) = .ok (v₂, amt))
    (hs₃ : SameStores { s₁ with
      delegations := putShares s₁.delegations del.DelegatorAddress del.ValidatorAddress (del.Shares.Sub shares).i,
      validators := s₁.validators.insert v₂.OperatorAddress v₂, hooks } s₃) :
    Accounted s₃ ∧ 0 ≤ amt ∧ s₃.validators.lookup valAddr = some v₂ ∧ OthersKept valAddr s₁ s₃ := by
  have hL := hs₁.ledger
  have hva : v₁.OperatorAddress = valAddr := hL.val_key hv₁
  have hkey : del.ValidatorAddress = valAddr := hL.del_val_addr hdel
  have hat : sharesAt s₁.delegations (del.DelegatorAddress, valAddr) = del.Shares.i := by
    simp [sharesAt, hdel]
  obtain ⟨hamt, hop, -, ht0, ht, hds, hsd⟩ := RemoveDelShares_ok hrem (hL.tokens_nonneg hv₁) (hL.tokens_le hv₁)
    hsh (hle.trans (hL.shares_le hdel hv₁))
  have hop' : v₂.OperatorAddress = valAddr := hop.trans hva
  -- the holding and the validator's shares go down together
  have hL' : Ledger (s₁.validators.insert valAddr v₂)
      (putShares s₁.delegations del.DelegatorAddress valAddr (del.Shares.i - shares.i)) := by
    refine hL.putShares hv₁ hop' (by rw [hds, hat]; ring) ?_ (by omega) ht0 ht
    rw [hsd]
    by_cases hda : del.DelegatorAddress = valAddr
    · rw [if_pos (by simp [hda]), if_pos hda, hL.self_eq hv₁, ← hat, hda]
    · rw [if_neg (by simpa using hda), if_neg hda, sub_zero]
  obtain ⟨h1, h2, h3, -⟩ := hs₃
  refine ⟨⟨?_, ?_⟩, hamt, ?_, fun b hb => ?_⟩
  · simpa only [h1, h2, hkey, Sub_i, hop'] using hL'
  · simpa only [h3] using hs₁.reds
  · rw [h1, hop', AList.lookup_insert]
  · rw [h1, hop', AList.lookup_insert_ne hb]

/-- `unbond` of a non-negative number of shares keeps the invariant and changes no
other validator than the one unbonded from; it returns a non-negative amount, and
it returns its errors before writing anything. -/
theorem unbond_spec {s₀ s : State} {delAddr valAddr : Address} {shares : Dec} (hs : Hooked s₀ s)
    (hsh : 0 ≤ shares.i) :
    ewp (unbond delAddr valAddr shares) (fun amount s' => Hooked s₀ s' ∧ 0 ≤ amount ∧ OthersKept valAddr s s')
      (fun _ s' => s' = s) s := by
  unfold unbond
  rw [ewp_bind, ewp_GetDelegation]
  cases hdel : s.delegations.lookup (delAddr, valAddr) with
  | none => rfl
  | some del =>
  dsimp -zeta only
  extract_lets delegation
  rw [ewp_bind, ewp_get]
  extract_lets before jp₁
  rw [ewp_ite]
  refine ⟨fun _ => by simp, fun hlt => ?_⟩
  dsimp -zeta only [jp₁]
  rw [ewp_bind, ewp_GetValidator]
  cases hval : s.validators.lookup valAddr with
  | none => rfl
  | some validator =>
  dsimp -zeta only
  extract_lets isOp jp jpJail
  have hva : validator.OperatorAddress = valAddr := hs.ledger.val_key hval
  have hda : del.DelegatorAddress = delAddr := congrArg Prod.fst (hs.ledger.del_key hdel)
  have hkey : del.ValidatorAddress = valAddr := congrArg Prod.snd (hs.ledger.del_key hdel)
  -- the rest of the method, from wherever the jail step leaves the validator
  have hjp : ∀ v₁ s₁, Accounted s₁ → s₁.validators.lookup valAddr = some v₁ → s₁.delegations = s.delegations →
      Grows s s₁ → OthersKept valAddr s s₁ →
      ewp (jp v₁) (fun amount s' => Hooked s₀ s' ∧ 0 ≤ amount ∧ OthersKept valAddr s s') (fun _ s' => s' = s) s₁ := by
    intro v₁ s₁ hs₁ hv₁ hdels hg hframe
    simp only [jp, isOp, delegation, ewp_writeDelegation, ewp_bind, ewp_callHook]
    refine ewp_RemoveValidatorTokensAndShares fun v₂ amt hrem s₃ hs₃ => ?_
    have hdel₁ : s₁.delegations.lookup (del.DelegatorAddress, valAddr) = some del := by rw [hdels, hda, hdel]
    rw [hva] at hrem
    obtain ⟨hs₃', hamt, hv₂, hframe₃⟩ := unbond_ledger hs₁ hv₁ hdel₁ hsh (by simpa using hlt) hrem hs₃
    -- the hooks read the store after the delegation's write and before the validator's
    have hlog : LogsFrom s s₃ := by
      refine (LogsFrom.unbonded (t := { s₁ with
          delegations := putShares s₁.delegations del.DelegatorAddress del.ValidatorAddress (del.Shares.Sub shares).i })
        hg.le.validators (fun k hk hne => ?_) hg.hooks).trans (Grows.of_insert hs₃).logsFrom
      rw [hdels, hda, hkey]
      exact mem_putShares_of_ne hk hne
    have hh₃ : Hooked s₀ s₃ := ⟨hs₃', hs.logs.trans hlog⟩
    dsimp only
    rw [ewp_ite]
    refine ⟨fun hz => ?_, fun _ => ⟨hh₃, hamt, hframe.trans hframe₃⟩⟩
    -- a validator left without shares and unbonded goes
    have hop₂ : v₂.OperatorAddress = valAddr := hs₃'.ledger.val_key hv₂
    refine ewp_bind_of (RemoveValidator_spec hh₃ fun v hv => ?_)
      (fun _ s₄ h => (ewp_pure _).mpr ⟨h.1, hamt, (hframe.trans hframe₃).trans (hop₂ ▸ h.2)⟩) (fun _ _ h => h)
    rw [hop₂, hv₂, Option.some.injEq] at hv
    subst hv
    simp only [Bool.and_eq_true, IsZero_iff] at hz
    exact hz.1
  have hjail : ∀ b, ewp (jpJail b) (fun amount s' => Hooked s₀ s' ∧ 0 ≤ amount ∧ OthersKept valAddr s s')
      (fun _ s' => s' = s) s := by
    intro b
    cases b
    · simp only [jpJail, Bool.false_eq_true, if_false, ewp_bind, ewp_pure]
      exact hjp validator s hs.toAccounted hval rfl (Grows.refl s) (OthersKept.refl _ s)
    · simp only [jpJail, if_true, ewp_bind, ewp_jailValidator, ewp_mustGetValidator, AList.lookup_insert,
        Option.some.injEq, forall_eq']
      intro _
      -- jailing rewrites the validator without moving tokens or shares
      have hval' : s.validators.lookup validator.OperatorAddress = some validator := by rw [hva]; exact hval
      have ht0 := hs.ledger.tokens_nonneg hval
      have ht := hs.ledger.tokens_le hval
      refine hjp _ _ ⟨hs.ledger.insert_validator hval' rfl rfl rfl ht0 ht, hs.reds⟩ (by simp [hva]) rfl
        ⟨⟨fun b hb => (AList.mem_insert _).mpr (.inr hb), fun k hk => hk⟩, rfl⟩ (fun b hb => ?_)
      exact AList.lookup_insert_ne (by rw [hva]; exact hb)
  rw [ewp_ite]
  refine ⟨fun _ => ?_, fun _ => ?_⟩
  · simp only [ewp_bind, ewp_liftPanic, ewp_ite, ewp_pure, ewp_get]
    intro remaining _
    exact ⟨fun _ => hjail true, fun _ lever _ => hjail _⟩
  · rw [ewp_bind, ewp_pure]
    exact hjp validator s hs.toAccounted hval rfl (Grows.refl s) (OthersKept.refl _ s)


/-! ### Undelegating and redelegating -/

theorem ValidateUnbondAmount_spec {s : State} {delAddr valAddr : Address} {amt : Int} (hs : Accounted s)
    (hamt : 0 ≤ amt) :
    ewp (ValidateUnbondAmount delAddr valAddr amt) (fun sh s' => s' = s ∧ 0 ≤ sh.i) (fun _ _ => True) s := by
  simp only [ValidateUnbondAmount, ewp_bind, ewp_GetValidator]
  cases hval : s.validators.lookup valAddr with
  | none => trivial
  | some validator =>
  simp only [ewp_bind, ewp_GetDelegation]
  cases hdel : s.delegations.lookup (delAddr, valAddr) with
  | none => trivial
  | some del =>
  simp only [liftStake, ewp_bind, ewp_mk_lift]
  rintro (e | shares) hsh
  · trivial
  rintro (e | sharesTruncated) -
  · trivial
  dsimp only
  rw [ewp_ite]
  refine ⟨fun _ => by simp, fun _ => ⟨rfl, ?_⟩⟩
  -- the shares the amount is worth, or the whole delegation when it is worth less
  have h0 := SharesFromTokens_nonneg hsh (hs.ledger.shares_nonneg hval) (hs.ledger.tokens_nonneg hval) hamt
  split
  · exact (hs.ledger.del_pos hdel).le
  · exact h0

theorem Undelegate_spec {s₀ s : State} {delAddr valAddr : Address} {shares : Dec} (hs : Hooked s₀ s)
    (hsh : 0 ≤ shares.i) :
    ewp (Undelegate delAddr valAddr shares) (fun _ => Hooked s₀) (fun _ _ => True) s := by
  unfold Undelegate
  rw [ewp_bind, ewp_GetValidator]
  cases hval : s.validators.lookup valAddr with
  | none => trivial
  | some validator =>
  dsimp -zeta only
  rw [ewp_bind]
  refine (HasMaxUnbondingDelegationEntries_untouched _ _).ewp_of (fun b s₁ h₁ => ?_) (fun _ _ _ => trivial)
  extract_lets jp
  rw [ewp_ite]
  refine ⟨fun _ => by simp, fun _ => ?_⟩
  dsimp -zeta only [jp]
  refine ewp_bind_of (unbond_spec (hs.of_sameStores h₁) hsh) (fun returnAmount s₂ h₂ => ?_) fun _ _ _ => trivial
  -- what follows moves the coins and records the entry, writing none of the stores
  refine Untouched.hooked_of ?_ h₂.1
  extract_lets jpEntry
  have hentry : ∀ u, Untouched (jpEntry u) := by
    intro u
    dsimp only [jpEntry]
    exact Untouched.get_bind fun s => (SetUnbondingDelegationEntry_untouched _ _ _ _ _).bind
      fun ubd => (InsertUBDQueue_untouched _ _).bind fun _ => Untouched.pure _
  exact Untouched.ite ((bondedTokensToNotBonded_untouched _).bind hentry) (hentry ())

/-- A new redelegation entry, between two different validators and with
non-negative destination shares, keeps the redelegations well formed. -/
theorem SetRedelegationEntry_spec {E : Err → State → Prop} {s : State} {delAddr valSrcAddr valDstAddr : Address}
    {creationHeight minTime balance : Int} {sharesSrc sharesDst : Dec} {s₀ : State} (hs : Hooked s₀ s)
    (hne : valSrcAddr ≠ valDstAddr) (hsh : 0 ≤ sharesDst.i) :
    ewp (SetRedelegationEntry delAddr valSrcAddr valDstAddr creationHeight minTime balance sharesSrc sharesDst)
      (fun _ => Hooked s₀) E s := by
  simp only [SetRedelegationEntry, GetRedelegation, SetRedelegation, ewp_bind, ewp_get, ewp_pure, ewp_modify]
  refine hs.setRedelegations (hs.reds.insert ?_ ?_)
  · cases hr : s.redelegations.lookup (delAddr, valSrcAddr, valDstAddr) with
    | none => exact hne
    | some red =>
      dsimp only
      exact hs.reds.src_ne_dst hr
  · cases hr : s.redelegations.lookup (delAddr, valSrcAddr, valDstAddr) with
    | none => simpa using hsh
    | some red =>
      -- the entries already recorded, and the new one at the end
      simp only [List.mem_append, List.mem_singleton]
      rintro e (he | rfl)
      · exact hs.reds.sharesDst_nonneg hr e he
      · exact hsh

/-- `BeginRedelegation` of non-negative shares keeps the invariant when it returns:
the tokens unbonded from the source are delegated to a destination that the
unbonding left as it was, and the entry records the positive shares created there. -/
theorem BeginRedelegation_spec {s₀ s : State} {delAddr valSrcAddr valDstAddr : Address} {shares : Dec}
    (hs : Hooked s₀ s) (hsh : 0 ≤ shares.i) :
    ewp (BeginRedelegation delAddr valSrcAddr valDstAddr shares) (fun _ => Hooked s₀) (fun _ _ => True) s := by
  unfold BeginRedelegation
  dsimp -zeta only
  extract_lets jp₁
  rw [ewp_ite]
  refine ⟨fun _ => by simp, fun hne => ?_⟩
  dsimp -zeta only [jp₁]
  rw [ewp_bind, ewp_GetValidator]
  cases hdst : s.validators.lookup valDstAddr with
  | none => trivial
  | some dstValidator =>
  dsimp -zeta only
  rw [ewp_bind, ewp_GetValidator]
  cases hsrc : s.validators.lookup valSrcAddr with
  | none => trivial
  | some srcValidator =>
  dsimp -zeta only
  rw [ewp_bind]
  refine (HasReceivingRedelegation_untouched _ _).ewp_of (fun b s₁ h₁ => ?_) (fun _ _ _ => trivial)
  extract_lets jpUnbond jpMax
  rw [ewp_ite]
  refine ⟨fun _ => by simp, fun _ => ?_⟩
  dsimp -zeta only [jpMax]
  rw [ewp_bind]
  refine (HasMaxRedelegationEntries_untouched _ _ _).ewp_of (fun b' s₂ h₂ => ?_) (fun _ _ _ => trivial)
  rw [ewp_ite]
  refine ⟨fun _ => by simp, fun _ => ?_⟩
  dsimp -zeta only [jpUnbond]
  have hs₂ : Hooked s₀ s₂ := (hs.of_sameStores h₁).of_sameStores h₂
  refine ewp_bind_of (unbond_spec hs₂ hsh) (fun returnAmount s₃ h₃ => ?_) (fun _ _ _ => trivial)
  extract_lets jpDelegate
  rw [ewp_ite]
  refine ⟨fun _ => by simp, fun hr => ?_⟩
  dsimp -zeta only [jpDelegate]
  -- the destination is as it was read: unbonding changed only the source
  have hva : dstValidator.OperatorAddress = valDstAddr := hs.ledger.val_key hdst
  have hdst₃ : s₃.validators.lookup dstValidator.OperatorAddress = some dstValidator := by
    rw [hva, h₃.2.2 valDstAddr (Ne.symm hne), h₂.1, h₁.1, hdst]
  refine ewp_bind_of (Delegate_spec h₃.1 hdst₃ (lt_of_le_of_ne h₃.2.1 (Ne.symm hr)))
    (fun sharesCreated s₄ h₄ => ?_) (fun _ _ _ => trivial)
  refine (getBeginInfo_untouched _).ewp_bind (fun info s₅ h₅ => ?_) (fun _ _ _ => trivial)
  have hs₅ := h₄.1.of_sameStores h₅
  rw [ewp_ite]
  refine ⟨fun _ => (ewp_pure _).mpr hs₅, fun _ => ?_⟩
  -- the entry records the shares created at the destination
  exact ewp_bind_of (SetRedelegationEntry_spec (E := fun _ _ => True) hs₅ hne h₄.2.le)
    (fun red s₆ hs₆ => ((InsertRedelegationQueue_untouched _ _).bind fun _ => Untouched.pure _).hooked_of hs₆)
    (fun _ _ _ => trivial)

/-! ### Completing unbondings and redelegations -/

theorem completeEntries_untouched (delAddr : Address) (ctxTime : Int) (entries : List UnbondingDelegationEntry) :
    Untouched (completeEntries delAddr ctxTime entries) := by
  induction entries with
  | nil => exact Untouched.pure _
  | cons entry rest ih =>
    unfold completeEntries
    refine Untouched.ite ?_ (ih.bind fun _ => Untouched.pure _)
    -- a mature entry is paid out, if anything is left of it, before the rest
    dsimp only
    exact Untouched.ite ((UndelegateCoinsFromModuleToAccount_untouched _ _ _).bind fun _ => ih) ih

theorem CompleteUnbonding_untouched (delAddr valAddr : Address) : Untouched (CompleteUnbonding delAddr valAddr) := by
  intro s
  simp only [CompleteUnbonding, GetUnbondingDelegation, ewp_bind, ewp_get, ewp_pure]
  cases s.ubds.lookup (delAddr, valAddr) with
  | none => exact SameStores.refl s
  | some ubd =>
    simp only [ewp_bind, ewp_get]
    refine (completeEntries_untouched _ _ _).ewp_of (fun entries s₁ h₁ => ?_) (fun _ _ h => h)
    rw [ewp_ite]
    exact ⟨fun _ => h₁, fun _ => h₁⟩

/-- `CompleteRedelegation` drops the mature entries, or the whole record, keeping the
redelegations well formed; its error comes before any write. -/
theorem CompleteRedelegation_preserves {s₀ : State} (delAddr valSrcAddr valDstAddr : Address) :
    Preserves (Hooked s₀) (CompleteRedelegation delAddr valSrcAddr valDstAddr) := by
  intro s hs
  simp only [CompleteRedelegation, GetRedelegation, ewp_bind, ewp_get, ewp_pure]
  cases hr : s.redelegations.lookup (delAddr, valSrcAddr, valDstAddr) with
  | none => exact hs
  | some red =>
    simp only [ewp_bind, ewp_get, ewp_ite, RemoveRedelegation, SetRedelegation, ewp_modify]
    refine ⟨fun _ => hs.setRedelegations (hs.reds.erase _),
      fun _ => hs.setRedelegations (hs.reds.insert (r := { red with Entries := red.Entries.filter _ }) ?_ ?_)⟩
    · exact hs.reds.src_ne_dst (r := red) hr
    -- the entries kept are some of those recorded
    · intro e he
      exact hs.reds.sharesDst_nonneg hr e (List.mem_filter.mp he).1

end Staking

end Dipper
