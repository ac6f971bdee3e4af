import Dipper.Slashing.Runs

/-!
# Tombstones

A validator caught double signing is tombstoned: its signing info is marked for good. No keeper
method deletes a signing info, clears the mark or moves the start height, so over every run a
tombstone stays; evidence against the address is then ignored, and `MsgUnjail` never lets a
validator with that consensus address back.
-/

namespace Dipper

namespace Slashing

open Dec State

variable {σ : Type} (sk : StakingKeeper σ)

/-- What a later state keeps of each signing info: the info is still there, from the same start
height, and tombstoned if it was. -/
def KeepsInfos (s s' : State σ) : Prop :=
  ∀ a info, s.GetValidatorSigningInfo a = some info →
    ∃ info', s'.GetValidatorSigningInfo a = some info' ∧ info'.StartHeight = info.StartHeight ∧
      (info.Tombstoned = true → info'.Tombstoned = true)

section Keeps

variable {s s' s'' : State σ}

theorem keepsInfos_refl (s : State σ) : KeepsInfos s s := fun _ info h => ⟨info, h, rfl, id⟩

theorem KeepsInfos.trans (h₁ : KeepsInfos s s') (h₂ : KeepsInfos s' s'') : KeepsInfos s s'' := by
  intro a info h
  obtain ⟨info', h', hstart, htomb⟩ := h₁ a info h
  obtain ⟨info'', h'', hstart', htomb'⟩ := h₂ a info' h'
  exact ⟨info'', h'', hstart'.trans hstart, htomb' ∘ htomb⟩

theorem keepsInfos_set {addr : Address} {info info' : ValidatorSigningInfo}
    (hinfo : s.GetValidatorSigningInfo addr = some info) (hnew : s'.GetValidatorSigningInfo addr = some info')
    (hstart : info'.StartHeight = info.StartHeight) (htomb : info.Tombstoned = true → info'.Tombstoned = true)
    (hrest : ∀ a, a ≠ addr → s'.GetValidatorSigningInfo a = s.GetValidatorSigningInfo a) : KeepsInfos s s' := by
  intro a i h
  by_cases ha : a = addr
  · subst ha
    rw [hinfo] at h
    cases h
    exact ⟨info', hnew, hstart, htomb⟩
  · rw [← hrest a ha] at h
    exact ⟨i, h, rfl, id⟩

variable {ctx : Ctx} {addr : Address} {power : Int}

theorem keepsInfos_handleValidatorSignature {signed : Bool}
    (h : HandleValidatorSignature sk ctx addr power signed s = .ok s') : KeepsInfos s s' := by
  obtain ⟨info, t, info'', hinfo, -, hr, hcases⟩ := HandleValidatorSignature_eq_ok h
  obtain ⟨-, hframe⟩ := HandleValidatorSignature_frame h
  have hsnd : info'' = (recordSignature s addr (info.IndexOffset.tmod s.params.SignedBlocksWindow) (!signed)
      { info with IndexOffset := info.IndexOffset + 1 }).2 := by rw [hr]
  rw [recordSignature_snd] at hsnd
  have hstart : info''.StartHeight = info.StartHeight := by rw [hsnd]
  have htomb : info''.Tombstoned = info.Tombstoned := by rw [hsnd]
  rcases hcases with ⟨-, rfl⟩ | ⟨-, hpun⟩
  · have hnew : (t.SetValidatorSigningInfo addr info'').GetValidatorSigningInfo addr = some info'' := by simp
    exact keepsInfos_set hinfo hnew hstart (fun h => htomb.trans h) (fun a ha => (hframe a ha).1)
  · obtain ⟨staking, rfl⟩ := punishDowntime_eq_ok hpun
    have hnew : ((({ t with staking }).clearValidatorMissedBlockBitArray addr).SetValidatorSigningInfo addr
        (downtimeReset ctx t info'')).GetValidatorSigningInfo addr = some (downtimeReset ctx t info'') := by simp
    exact keepsInfos_set hinfo hnew hstart (fun h => htomb.trans h) (fun a ha => (hframe a ha).1)

theorem keepsInfos_handleDoubleSign {infractionHeight timestamp : Int}
    (h : HandleDoubleSign sk ctx addr infractionHeight timestamp power s = .ok s') : KeepsInfos s s' := by
  rcases HandleDoubleSign_eq_ok h with rfl | ⟨info, staking, hinfo, -, rfl⟩
  · exact keepsInfos_refl _
  · have hnew : (({ s with staking }).SetValidatorSigningInfo addr
        { info with Tombstoned := true, JailedUntil := DoubleSignJailEndTime }).GetValidatorSigningInfo addr =
        some { info with Tombstoned := true, JailedUntil := DoubleSignJailEndTime } := by simp
    exact keepsInfos_set hinfo hnew rfl (fun _ => rfl) fun a ha => by simp [ha]

theorem keepsInfos_beginBlocker {votes : List VoteInfo} {evidence : List Evidence}
    (h : BeginBlocker sk ctx votes evidence s = .ok s') : KeepsInfos s s' := by
  unfold BeginBlocker at h
  obtain ⟨t, hvotes, hev⟩ := StateExcept.except_bind_eq_ok.mp h
  refine (Runs.foldlM_rel keepsInfos_refl (fun _ _ _ => KeepsInfos.trans)
    (fun _ _ _ hstep => keepsInfos_handleValidatorSignature sk hstep) hvotes).trans ?_
  refine Runs.foldlM_rel keepsInfos_refl (fun _ _ _ => KeepsInfos.trans) (fun s e s' hstep => ?_) hev
  split_ifs at hstep
  · exact keepsInfos_handleDoubleSign sk hstep
  · cases hstep
    exact keepsInfos_refl s

theorem keepsInfos_afterValidatorBonded : KeepsInfos s (AfterValidatorBonded ctx addr s) := by
  unfold AfterValidatorBonded
  cases hinfo : s.GetValidatorSigningInfo addr with
  | some _ => exact keepsInfos_refl s
  | none =>
    intro a info h
    refine ⟨info, ?_, rfl, id⟩
    rw [GetValidatorSigningInfo_Set, if_neg]
    · exact h
    · rintro rfl
      rw [hinfo] at h
      cases h

theorem keepsInfos_of_infos (h : ∀ a, s'.GetValidatorSigningInfo a = s.GetValidatorSigningInfo a) :
    KeepsInfos s s' :=
  fun a info ha => ⟨info, (h a).trans ha, rfl, id⟩

theorem keepsInfos_step (e : Event σ) (h : e.apply sk s = .ok s') : KeepsInfos s s' := by
  cases e with
  | BeginBlock ctx votes evidence => exact keepsInfos_beginBlocker sk h
  | Unjail ctx validatorAddr =>
    obtain ⟨r, hr, rfl⟩ := StateExcept.eq_ok_of_map h
    cases r with
    | error _ => exact keepsInfos_refl s
    | ok t =>
      obtain ⟨-, -, -, -, -, -, -, staking, -, rfl⟩ := handleMsgUnjail_eq_ok hr
      exact keepsInfos_of_infos fun _ => rfl
  | ValidatorCreated valAddr =>
    change AfterValidatorCreated sk valAddr s = .ok s' at h
    unfold AfterValidatorCreated at h
    split at h
    · cases h
    · cases h
      exact keepsInfos_of_infos fun _ => rfl
  | ValidatorBonded ctx consAddr =>
    cases h
    exact keepsInfos_afterValidatorBonded
  | ValidatorRemoved consAddr =>
    cases h
    exact keepsInfos_of_infos fun _ => rfl
  | Staking staking =>
    cases h
    exact keepsInfos_of_infos fun _ => rfl

end Keeps

/-! ### A tombstoned validator -/

section Tombstoned

variable {s : State σ} {addr : Address} {info : ValidatorSigningInfo}

theorem handleMsgUnjail_of_tombstoned {ctx : Ctx} {validatorAddr : Address} {validator : Staking.Validator}
    (hv : sk.Validator s.staking validatorAddr = some validator) (hcons : validator.ConsAddress = addr)
    (hinfo : s.GetValidatorSigningInfo addr = some info) (ht : info.Tombstoned = true) (s' : State σ) :
    handleMsgUnjail sk ctx validatorAddr s ≠ .ok (.ok s') := by
  intro h
  obtain ⟨v, selfDel, tokens, hv', -, -, hallowed, -⟩ := handleMsgUnjail_eq_ok h
  rw [hv, Option.some.injEq] at hv'
  subst hv'
  obtain ⟨info', hinfo', ht', -⟩ := hallowed.info
  rw [hcons, hinfo, Option.some.injEq] at hinfo'
  subst hinfo'
  rw [ht] at ht'
  cases ht'

/-- Once a consensus address is tombstoned, it stays so over every run of the module: its signing
info is still there, from the same start height and tombstoned, evidence against it changes
nothing, and `MsgUnjail` never lets a validator with that consensus address back. -/
theorem tombstone_permanent {es : List (Event σ)} {s' : State σ} (h : runEvents sk s es = .ok s')
    (hinfo : s.GetValidatorSigningInfo addr = some info) (ht : info.Tombstoned = true) :
    ∃ info', s'.GetValidatorSigningInfo addr = some info' ∧ info'.StartHeight = info.StartHeight ∧
      info'.Tombstoned = true ∧
      (∀ ctx infractionHeight timestamp power,
        HandleDoubleSign sk ctx addr infractionHeight timestamp power s' = .ok s') ∧
      ∀ ctx validatorAddr validator s'', sk.Validator s'.staking validatorAddr = some validator →
        validator.ConsAddress = addr → handleMsgUnjail sk ctx validatorAddr s' ≠ .ok (.ok s'') := by
  have hkeep : KeepsInfos s s' :=
    Runs.run_rel keepsInfos_refl (fun _ _ _ => KeepsInfos.trans) (fun _ _ e _ happ => keepsInfos_step sk e happ) h
  obtain ⟨info', hinfo', hstart, htomb⟩ := hkeep addr info hinfo
  have ht' := htomb ht
  exact ⟨info', hinfo', hstart, ht', fun _ _ _ _ => HandleDoubleSign_of_tombstoned hinfo' ht',
    fun _ _ _ s'' hv hcons => handleMsgUnjail_of_tombstoned sk hv hcons hinfo' ht' s''⟩

/-- The signing info of `bondedConsAddr`, tombstoned. -/
def tombstonedStore : State Staking.State :=
  bondedStore.SetValidatorSigningInfo bondedConsAddr { NewValidatorSigningInfo 1 0 0 false 0 with Tombstoned := true }

theorem tombstone_permanent_rebonded :
    ∃ s' info', runEvents stakingKeeper tombstonedStore [.ValidatorBonded ⟨2, 0⟩ bondedConsAddr] = .ok s' ∧
      s'.GetValidatorSigningInfo bondedConsAddr = some info' ∧ info'.Tombstoned = true := by
  have hrun : runEvents stakingKeeper tombstonedStore [.ValidatorBonded ⟨2, 0⟩ bondedConsAddr] =
      .ok (AfterValidatorBonded ⟨2, 0⟩ bondedConsAddr tombstonedStore) := rfl
  have hinfo : tombstonedStore.GetValidatorSigningInfo bondedConsAddr =
      some { NewValidatorSigningInfo 1 0 0 false 0 with Tombstoned := true } := by
    simp [tombstonedStore]
  obtain ⟨info', hinfo', -, ht', -⟩ := tombstone_permanent stakingKeeper hrun hinfo rfl
  exact ⟨_, info', hrun, hinfo', ht'⟩

end Tombstoned
end Slashing

end Dipper
