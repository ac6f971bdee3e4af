import Dipper.Slashing.Keeper
import Dipper.Lib.Runs
import Dipper.Lib.AListSum
import Dipper.Lib.RingWindow

/-!
# Liveness tracking

What the keeper's writes do to each validator's signing info and missed-block bit array, and the
two invariants they keep over every run of the module. The counter of a signing info is the
number of missed bits of its array (the comment in `HandleValidatorSignature` says so), and the
array only has bits in the window `0 … W-1` of the validators that have a signing info. Read as a
ring buffer over the signatures a validator has been asked for since its array was last cleared,
the array holds the last `W` of them, and the counter counts the misses among these: downtime is
punished exactly when, past the validator's first window, more than `W - MinSignedPerWindow` of
its last `W` signatures are missing.
-/

namespace Dipper

namespace Slashing

open Dec State

variable {σ : Type}

/-! ### Views of the store -/

/-- The misses stored for an address: the `true` bits of its array. -/
def missedCount (s : State σ) (address : Address) : ℤ :=
  (s.missedBlockBitArray address).sumBy fun _ missed => if missed then 1 else 0

/-- The bit array of an address read at every index, as `getValidatorMissedBlockBitArray`
reads it. -/
def bitsOf (s : State σ) (address : Address) (j : ℕ) : Bool :=
  s.getValidatorMissedBlockBitArray address j

section Views

variable (s : State σ) (a a' : Address)

theorem valueAt_bit (m : AList (fun _ : Int => Bool)) (i : Int) :
    m.valueAt (fun _ missed => if missed then (1 : ℤ) else 0) i = if (m.lookup i).getD false then 1 else 0 := by
  cases h : m.lookup i <;> simp [AList.valueAt, h]

@[simp] theorem getValidatorMissedBlockBitArray_set (i j : Int) (b : Bool) :
    (s.setValidatorMissedBlockBitArray a i b).getValidatorMissedBlockBitArray a' j =
      if a' = a ∧ j = i then b else s.getValidatorMissedBlockBitArray a' j := by
  unfold getValidatorMissedBlockBitArray
  rw [missedBlockBitArray_set]
  by_cases ha : a' = a
  · by_cases hj : j = i
    · subst hj
      simp [ha]
    · simp [ha, hj, AList.lookup_insert_ne hj]
  · simp [ha]

@[simp] theorem getValidatorMissedBlockBitArray_clear (j : Int) :
    (s.clearValidatorMissedBlockBitArray a).getValidatorMissedBlockBitArray a' j =
      if a' = a then false else s.getValidatorMissedBlockBitArray a' j := by
  unfold getValidatorMissedBlockBitArray
  rw [missedBlockBitArray_clear]
  split_ifs <;> rfl

@[simp] theorem getValidatorMissedBlockBitArray_SetValidatorSigningInfo (info) (j : Int) :
    (s.SetValidatorSigningInfo a info).getValidatorMissedBlockBitArray a' j =
      s.getValidatorMissedBlockBitArray a' j := rfl

@[simp] theorem getValidatorMissedBlockBitArray_staking (t : σ) (j : Int) :
    ({ s with staking := t }).getValidatorMissedBlockBitArray a j = s.getValidatorMissedBlockBitArray a j := rfl

theorem missedCount_set (i : Int) (b : Bool) :
    missedCount (s.setValidatorMissedBlockBitArray a i b) a' =
      if a' = a then
        missedCount s a - (if s.getValidatorMissedBlockBitArray a i then 1 else 0) + (if b then 1 else 0)
      else missedCount s a' := by
  unfold missedCount
  rw [missedBlockBitArray_set]
  by_cases ha : a' = a
  · rw [if_pos ha, if_pos ha, AList.sumBy_insert_eq, valueAt_bit]
    rfl
  · rw [if_neg ha, if_neg ha]

theorem missedCount_clear : missedCount (s.clearValidatorMissedBlockBitArray a) a' =
    if a' = a then 0 else missedCount s a' := by
  unfold missedCount
  rw [missedBlockBitArray_clear]
  split_ifs <;> rfl

@[simp] theorem missedCount_SetValidatorSigningInfo (info) :
    missedCount (s.SetValidatorSigningInfo a info) a' = missedCount s a' := rfl

@[simp] theorem missedCount_staking (t : σ) : missedCount { s with staking := t } a = missedCount s a := rfl

@[simp] theorem GetValidatorSigningInfo_setBit (i : Int) (b : Bool) :
    (s.setValidatorMissedBlockBitArray a i b).GetValidatorSigningInfo a' = s.GetValidatorSigningInfo a' := rfl

@[simp] theorem GetValidatorSigningInfo_clear :
    (s.clearValidatorMissedBlockBitArray a).GetValidatorSigningInfo a' = s.GetValidatorSigningInfo a' := rfl

@[simp] theorem GetValidatorSigningInfo_staking (t : σ) :
    ({ s with staking := t }).GetValidatorSigningInfo a = s.GetValidatorSigningInfo a := rfl

end Views

/-! ### What the keeper's writes do -/

section Writes

variable (s : State σ) (addr : Address) (index : Int) (missed : Bool) (signInfo : ValidatorSigningInfo)

theorem recordSignature_fst :
    (recordSignature s addr index missed signInfo).1 = s ∧
        s.getValidatorMissedBlockBitArray addr index = missed ∨
      (recordSignature s addr index missed signInfo).1 = s.setValidatorMissedBlockBitArray addr index missed := by
  unfold recordSignature
  cases missed <;> cases s.getValidatorMissedBlockBitArray addr index <;> simp

theorem recordSignature_snd :
    (recordSignature s addr index missed signInfo).2 = { signInfo with
      MissedBlocksCounter := signInfo.MissedBlocksCounter -
        (if s.getValidatorMissedBlockBitArray addr index then 1 else 0) + (if missed then 1 else 0) } := by
  unfold recordSignature
  cases missed <;> cases s.getValidatorMissedBlockBitArray addr index <;> simp

theorem recordSignature_keeps {β : Type*} (f : State σ → β)
    (hf : f (s.setValidatorMissedBlockBitArray addr index missed) = f s) :
    f (recordSignature s addr index missed signInfo).1 = f s := by
  rcases recordSignature_fst s addr index missed signInfo with ⟨h, -⟩ | h
  · rw [h]
  · rw [h, hf]

@[simp] theorem recordSignature_params : (recordSignature s addr index missed signInfo).1.params = s.params :=
  recordSignature_keeps s addr index missed signInfo State.params rfl

@[simp] theorem recordSignature_signingInfos :
    (recordSignature s addr index missed signInfo).1.signingInfos = s.signingInfos :=
  recordSignature_keeps s addr index missed signInfo State.signingInfos rfl

@[simp] theorem recordSignature_addrPubkeyRelation :
    (recordSignature s addr index missed signInfo).1.addrPubkeyRelation = s.addrPubkeyRelation :=
  recordSignature_keeps s addr index missed signInfo State.addrPubkeyRelation rfl

@[simp] theorem recordSignature_staking :
    (recordSignature s addr index missed signInfo).1.staking = s.staking :=
  recordSignature_keeps s addr index missed signInfo State.staking rfl

theorem recordSignature_bits (a : Address) (j : Int) :
    (recordSignature s addr index missed signInfo).1.getValidatorMissedBlockBitArray a j =
      if a = addr ∧ j = index then missed else s.getValidatorMissedBlockBitArray a j := by
  rcases recordSignature_fst s addr index missed signInfo with ⟨h, hb⟩ | h
  · rw [h]
    split_ifs with hj
    · rw [hj.1, hj.2, hb]
    · rfl
  · rw [h]
    exact getValidatorMissedBlockBitArray_set s addr a index j missed

theorem recordSignature_missedCount (a : Address) :
    missedCount (recordSignature s addr index missed signInfo).1 a =
      if a = addr then
        missedCount s addr - (if s.getValidatorMissedBlockBitArray addr index then 1 else 0) +
          (if missed then 1 else 0)
      else missedCount s a := by
  rcases recordSignature_fst s addr index missed signInfo with ⟨h, hb⟩ | h
  · -- the bit already was `missed`: the count does not move
    rw [h]
    split_ifs with ha <;> simp_all
  · rw [h]
    exact missedCount_set s addr a index missed

@[simp] theorem recordSignature_GetValidatorSigningInfo (a : Address) :
    (recordSignature s addr index missed signInfo).1.GetValidatorSigningInfo a = s.GetValidatorSigningInfo a := by
  unfold GetValidatorSigningInfo
  rw [recordSignature_signingInfos]

theorem recordSignature_missedBlockBitArray_ne {a : Address} (ha : a ≠ addr) :
    (recordSignature s addr index missed signInfo).1.missedBlockBitArray a = s.missedBlockBitArray a := by
  refine recordSignature_keeps s addr index missed signInfo (·.missedBlockBitArray a) ?_
  rw [missedBlockBitArray_set, if_neg ha]

theorem recordSignature_lookup {a : Address} {j : Int} {b : Bool}
    (h : ((recordSignature s addr index missed signInfo).1.missedBlockBitArray a).lookup j = some b) :
    (s.missedBlockBitArray a).lookup j = some b ∨ (a = addr ∧ j = index) := by
  rcases recordSignature_fst s addr index missed signInfo with ⟨hs, -⟩ | hs
  · rw [hs] at h
    exact .inl h
  · rw [hs, missedBlockBitArray_set] at h
    split_ifs at h with ha
    · rcases AList.lookup_insert_eq_some h with ⟨hj, -⟩ | ⟨-, h'⟩
      · exact .inr ⟨ha, hj⟩
      · exact .inl (ha ▸ h')
    · exact .inl h

end Writes

/-! ### What the keeper methods can do -/

section Methods

variable (sk : StakingKeeper σ)

/-- The condition of the downtime punishment: past the first window, more misses than the window
allows, and a validator that is there and not jailed. -/
def DowntimePunishable (ctx : Ctx) (addr : Address) (s : State σ) (signInfo : ValidatorSigningInfo) : Prop :=
  ctx.BlockHeight > signInfo.StartHeight + s.params.SignedBlocksWindow ∧
    signInfo.MissedBlocksCounter > s.params.SignedBlocksWindow - s.MinSignedPerWindow ∧
    ∃ v, sk.ValidatorByConsAddr s.staking addr = some v ∧ v.Jailed = false

/-- The signing info a downtime punishment leaves: jailed for the jail duration, and the window
started again. -/
def downtimeReset (ctx : Ctx) (s : State σ) (signInfo : ValidatorSigningInfo) : ValidatorSigningInfo :=
  { signInfo with JailedUntil := ctx.Time + s.params.DowntimeJailDuration, MissedBlocksCounter := 0, IndexOffset := 0 }

variable {sk}

theorem punishDowntime_eq_ok {ctx : Ctx} {addr : Address} {power : Int} {signInfo : ValidatorSigningInfo}
    {s s' : State σ} (h : punishDowntime sk ctx addr power signInfo s = .ok s') :
    ∃ staking, s' = ({ s with staking }.clearValidatorMissedBlockBitArray addr).SetValidatorSigningInfo addr
      (downtimeReset ctx s signInfo) := by
  unfold punishDowntime at h
  obtain ⟨t, -, h⟩ := StateExcept.except_bind_eq_ok.mp h
  obtain ⟨t', -, h⟩ := StateExcept.except_bind_eq_ok.mp h
  exact ⟨t', (Except.ok.inj h).symm⟩

/-- What `HandleValidatorSignature` can do: with a signing info and a window that is not zero, it
records the signature at the offset's slot, then punishes exactly when the punishment's
condition holds. -/
theorem HandleValidatorSignature_eq_ok {ctx : Ctx} {addr : Address} {power : Int} {signed : Bool}
    {s s' : State σ} (h : HandleValidatorSignature sk ctx addr power signed s = .ok s') :
    ∃ info t info', s.GetValidatorSigningInfo addr = some info ∧ s.params.SignedBlocksWindow ≠ 0 ∧
      recordSignature s addr (info.IndexOffset.tmod s.params.SignedBlocksWindow) (!signed)
        { info with IndexOffset := info.IndexOffset + 1 } = (t, info') ∧
      (¬ DowntimePunishable sk ctx addr s info' ∧ s' = t.SetValidatorSigningInfo addr info' ∨
        DowntimePunishable sk ctx addr s info' ∧ punishDowntime sk ctx addr power info' t = .ok s') := by
  unfold HandleValidatorSignature at h
  split_ifs at h with hpk
  cases hinfo : s.GetValidatorSigningInfo addr with
  | none => rw [hinfo] at h; cases h
  | some info =>
    rw [hinfo] at h
    dsimp only at h
    by_cases hW : s.params.SignedBlocksWindow = 0
    · rw [if_pos hW] at h; cases h
    rw [if_neg hW] at h
    rcases hr : recordSignature s addr (info.IndexOffset.tmod s.params.SignedBlocksWindow) (!signed)
      { info with IndexOffset := info.IndexOffset + 1 } with ⟨t, info'⟩
    rw [hr] at h
    dsimp only at h
    refine ⟨info, t, info', rfl, hW, hr, ?_⟩
    -- the write of the bit leaves the params and the staking state alone
    have ht := congrArg Prod.fst hr
    dsimp only at ht
    have hmin : t.MinSignedPerWindow = s.MinSignedPerWindow := by
      unfold MinSignedPerWindow; rw [← ht, recordSignature_params]
    have hts : t.staking = s.staking := by rw [← ht, recordSignature_staking]
    rw [hmin, hts] at h
    by_cases hc : DowntimePunishable sk ctx addr s info'
    · obtain ⟨h1, h2, v, hv, hj⟩ := hc
      rw [if_pos ⟨h1, h2⟩, hv] at h
      simp only [hj, Bool.not_false, if_true] at h
      exact .inr ⟨⟨h1, h2, v, hv, hj⟩, h⟩
    · refine .inl ⟨hc, ?_⟩
      split_ifs at h with hcond
      · cases hv : sk.ValidatorByConsAddr s.staking addr with
        | none => rw [hv] at h; exact (Except.ok.inj h).symm
        | some v =>
          rw [hv] at h
          cases hj : v.Jailed
          · exact absurd ⟨hcond.1, hcond.2, v, hv, hj⟩ hc
          · simp only [hj, Bool.not_true] at h
            exact (Except.ok.inj h).symm
      · exact (Except.ok.inj h).symm

/-- What `HandleDoubleSign` can do: nothing, or tombstone a validator with a signing info that is
not tombstoned yet, jailed until the end of time, with the staking state it slashed. -/
theorem HandleDoubleSign_eq_ok {ctx : Ctx} {addr : Address} {infractionHeight timestamp power : Int}
    {s s' : State σ} (h : HandleDoubleSign sk ctx addr infractionHeight timestamp power s = .ok s') :
    s' = s ∨ ∃ info staking, s.GetValidatorSigningInfo addr = some info ∧ info.Tombstoned = false ∧
      s' = { s with staking }.SetValidatorSigningInfo addr
        { info with Tombstoned := true, JailedUntil := DoubleSignJailEndTime } := by
  unfold HandleDoubleSign at h
  dsimp only at h
  by_cases hpk : s.getPubkey addr = none
  · rw [if_pos hpk] at h; exact .inl (Except.ok.inj h).symm
  rw [if_neg hpk] at h
  by_cases hage : ctx.Time - timestamp > s.params.MaxEvidenceAge
  · rw [if_pos hage] at h; exact .inl (Except.ok.inj h).symm
  rw [if_neg hage] at h
  cases hv : sk.ValidatorByConsAddr s.staking addr with
  | none => rw [hv] at h; exact .inl (Except.ok.inj h).symm
  | some v =>
    rw [hv] at h
    dsimp only at h
    by_cases hu : v.IsUnbonded = true
    · rw [if_pos hu] at h; exact .inl (Except.ok.inj h).symm
    rw [if_neg hu] at h
    cases hinfo : s.GetValidatorSigningInfo addr with
    | none => rw [hinfo] at h; cases h
    | some info =>
      rw [hinfo] at h
      dsimp only at h
      cases ht : info.Tombstoned
      · rw [if_neg (by simp [ht])] at h
        obtain ⟨t, -, h⟩ := StateExcept.except_bind_eq_ok.mp h
        -- jailed again only if not jailed yet; the signing info is written either way
        cases hj : v.Jailed
        · rw [if_pos (by simp [hj])] at h
          obtain ⟨t', -, h⟩ := StateExcept.except_bind_eq_ok.mp h
          exact .inr ⟨info, t', rfl, ht, (Except.ok.inj h).symm⟩
        · rw [if_neg (by simp [hj])] at h
          exact .inr ⟨info, t, rfl, ht, (Except.ok.inj h).symm⟩
      · rw [if_pos ht] at h
        exact .inl (Except.ok.inj h).symm

theorem HandleDoubleSign_of_tombstoned {ctx : Ctx} {addr : Address} {infractionHeight timestamp power : Int}
    {s : State σ} {info : ValidatorSigningInfo} (hinfo : s.GetValidatorSigningInfo addr = some info)
    (ht : info.Tombstoned = true) : HandleDoubleSign sk ctx addr infractionHeight timestamp power s = .ok s := by
  unfold HandleDoubleSign
  dsimp only
  split_ifs
  · rfl
  · rfl
  cases sk.ValidatorByConsAddr s.staking addr with
  | none => rfl
  | some v =>
    dsimp only
    by_cases hu : v.IsUnbonded = true
    · rw [if_pos hu]
    · rw [if_neg hu, hinfo]
      dsimp only
      rw [if_pos ht]

variable (sk) in
/-- What `MsgUnjail` asks of a validator, with the tokens of its self-delegation, before it lets
it back: enough self-delegation, jailed, a signing info that is not tombstoned and whose jail time
is over, and a lever within the bound. -/
structure UnjailAllowed (ctx : Ctx) (s : State σ) (validator : Staking.Validator) (tokens : Dec) : Prop where
  selfDelegation : validator.MinSelfDelegation ≤ tokens.TruncateInt
  jailed : validator.Jailed = true
  info : ∃ info, s.GetValidatorSigningInfo validator.ConsAddress = some info ∧ info.Tombstoned = false ∧
    info.JailedUntil ≤ ctx.Time
  lever : ∃ lever, validator.BondedLever true ZeroDec = .ok lever ∧ lever.GT (sk.MaxLever s.staking) = false

theorem unjailChecks_eq_ok {ctx : Ctx} {validator : Staking.Validator} {tokens : Dec} {s s' : State σ}
    (h : unjailChecks sk ctx validator tokens s = .ok (.ok s')) :
    UnjailAllowed sk ctx s validator tokens ∧
      ∃ staking, sk.Unjail validator.ConsAddress s.staking = .ok staking ∧ s' = { s with staking } := by
  unfold unjailChecks at h
  by_cases h1 : tokens.TruncateInt < validator.MinSelfDelegation
  · rw [if_pos h1] at h; cases h
  rw [if_neg h1] at h
  by_cases h2 : (!validator.Jailed) = true
  · rw [if_pos h2] at h; cases h
  rw [if_neg h2] at h
  dsimp only at h
  cases hinfo : s.GetValidatorSigningInfo validator.ConsAddress with
  | none => rw [hinfo] at h; cases h
  | some info =>
    rw [hinfo] at h
    dsimp only at h
    by_cases h3 : info.Tombstoned = true
    · rw [if_pos h3] at h; cases h
    rw [if_neg h3] at h
    by_cases h4 : ctx.Time < info.JailedUntil
    · rw [if_pos h4] at h; cases h
    rw [if_neg h4] at h
    obtain ⟨lever, hlever, h⟩ := StateExcept.except_bind_eq_ok.mp h
    by_cases h5 : lever.GT (sk.MaxLever s.staking) = true
    · rw [if_pos h5] at h; cases h
    rw [if_neg h5] at h
    obtain ⟨staking, hunjail, h⟩ := StateExcept.except_bind_eq_ok.mp h
    refine ⟨⟨by omega, by simpa using h2, ⟨info, hinfo, Bool.eq_false_iff.mpr h3, by omega⟩,
      ⟨lever, hlever, Bool.eq_false_iff.mpr h5⟩⟩,
      staking, hunjail, (Except.ok.inj (Except.ok.inj h)).symm⟩

/-- A successful unjail: the validator, its self-delegation and the tokens of that pass the
checks, and only the staking state changes, by the staking keeper's `Unjail`. -/
theorem handleMsgUnjail_eq_ok {ctx : Ctx} {validatorAddr : Address} {s s' : State σ}
    (h : handleMsgUnjail sk ctx validatorAddr s = .ok (.ok s')) :
    ∃ validator selfDel tokens, sk.Validator s.staking validatorAddr = some validator ∧
      sk.Delegation s.staking validatorAddr validatorAddr = some selfDel ∧
      validator.TokensFromShares selfDel.Shares = .ok tokens ∧ UnjailAllowed sk ctx s validator tokens ∧
      ∃ staking, sk.Unjail validator.ConsAddress s.staking = .ok staking ∧ s' = { s with staking } := by
  unfold handleMsgUnjail at h
  cases hv : sk.Validator s.staking validatorAddr with
  | none => rw [hv] at h; cases h
  | some validator =>
    rw [hv] at h
    dsimp only at h
    cases hd : sk.Delegation s.staking validatorAddr validatorAddr with
    | none => rw [hd] at h; cases h
    | some selfDel =>
      rw [hd] at h
      dsimp only at h
      obtain ⟨tokens, htokens, h⟩ := StateExcept.except_bind_eq_ok.mp h
      exact ⟨validator, selfDel, tokens, rfl, rfl, htokens, unjailChecks_eq_ok h⟩

end Methods

theorem HandleValidatorSignature_frame {ctx : Ctx} {addr : Address} {power : Int} {signed : Bool}
    {s s' : State σ} (h : HandleValidatorSignature sk ctx addr power signed s = .ok s') :
    s'.params = s.params ∧ ∀ a, a ≠ addr →
      s'.GetValidatorSigningInfo a = s.GetValidatorSigningInfo a ∧ s'.missedBlockBitArray a = s.missedBlockBitArray a := by
  obtain ⟨info, t, info', -, -, hr, hcases⟩ := HandleValidatorSignature_eq_ok h
  have ht : t = (recordSignature s addr (info.IndexOffset.tmod s.params.SignedBlocksWindow) (!signed)
      { info with IndexOffset := info.IndexOffset + 1 }).1 := by rw [hr]
  rcases hcases with ⟨-, rfl⟩ | ⟨-, hpun⟩
  · refine ⟨by simp [ht], fun a ha => ⟨?_, ?_⟩⟩
    · rw [GetValidatorSigningInfo_Set, if_neg ha, ht, recordSignature_GetValidatorSigningInfo]
    · rw [missedBlockBitArray_SetValidatorSigningInfo, ht, recordSignature_missedBlockBitArray_ne _ _ _ _ _ ha]
  · obtain ⟨staking, rfl⟩ := punishDowntime_eq_ok hpun
    refine ⟨by simp [ht], fun a ha => ⟨?_, ?_⟩⟩
    · rw [GetValidatorSigningInfo_Set, if_neg ha, GetValidatorSigningInfo_clear, GetValidatorSigningInfo_staking, ht,
        recordSignature_GetValidatorSigningInfo]
    · rw [missedBlockBitArray_SetValidatorSigningInfo, missedBlockBitArray_clear, if_neg ha,
        missedBlockBitArray_staking, ht, recordSignature_missedBlockBitArray_ne _ _ _ _ _ ha]

/-! ### The sliding window -/

/-- A validator's array and counter implement the sliding window of width `W` over `hist`, the
signatures it has been asked for since its array was last cleared (`true` for a miss): the offset
counts them, the array holds the last `W` of them as a ring buffer, and the counter counts the
misses among those. -/
structure Tracks (W : ℕ) (hist : List Bool) (info : ValidatorSigningInfo) (bits : ℕ → Bool) : Prop where
  offset : info.IndexOffset = hist.length
  holds : RingWindow.Holds W false hist bits
  counter : info.MissedBlocksCounter = (RingWindow.window W hist).count true

theorem Tracks.of_eq {W : ℕ} {hist : List Bool} {info info' : ValidatorSigningInfo} {bits bits' : ℕ → Bool}
    (h : Tracks W hist info bits) (hoff : info'.IndexOffset = info.IndexOffset)
    (hcnt : info'.MissedBlocksCounter = info.MissedBlocksCounter) (hbits : bits' = bits) :
    Tracks W hist info' bits' :=
  ⟨hoff.trans h.offset, hbits ▸ h.holds, hcnt.trans h.counter⟩

theorem tracks_nil (W : ℕ) {info : ValidatorSigningInfo} (hoff : info.IndexOffset = 0)
    (hcnt : info.MissedBlocksCounter = 0) : Tracks W [] info (fun _ => false) :=
  ⟨hoff, RingWindow.holds_nil W false, by simp [hcnt, RingWindow.window]⟩

/-- The downtime punishment's condition read on the history: past the first window, more misses
among the last `W` signatures than the window allows, and a validator that is there and not
jailed. -/
def DowntimeDue (sk : StakingKeeper σ) (ctx : Ctx) (addr : Address) (s : State σ) (startHeight : Int)
    (hist : List Bool) : Prop :=
  ctx.BlockHeight > startHeight + s.params.SignedBlocksWindow ∧
    ((RingWindow.window s.params.SignedBlocksWindow.toNat hist).count true : Int) >
      s.params.SignedBlocksWindow - s.MinSignedPerWindow ∧
    ∃ v, sk.ValidatorByConsAddr s.staking addr = some v ∧ v.Jailed = false

theorem bitsOf_eq_of_lookup {s s' : State σ} {a a' : Address}
    (h : ∀ j, (s'.missedBlockBitArray a').lookup j = (s.missedBlockBitArray a).lookup j) :
    bitsOf s' a' = bitsOf s a := by
  funext j
  unfold bitsOf getValidatorMissedBlockBitArray
  rw [h]

section Window

variable {s : State σ} {addr : Address} {hist : List Bool} {info : ValidatorSigningInfo} {W : ℕ}

theorem recordSignature_tracks (hW : 0 < W) (hWs : s.params.SignedBlocksWindow = W)
    (htr : Tracks W hist info (bitsOf s addr)) (missed : Bool) :
    Tracks W (hist ++ [missed])
      (recordSignature s addr (info.IndexOffset.tmod s.params.SignedBlocksWindow) missed
        { info with IndexOffset := info.IndexOffset + 1 }).2
      (bitsOf (recordSignature s addr (info.IndexOffset.tmod s.params.SignedBlocksWindow) missed
        { info with IndexOffset := info.IndexOffset + 1 }).1 addr) := by
  -- the slot of the offset is the next one of the ring buffer
  have hindex : info.IndexOffset.tmod s.params.SignedBlocksWindow = ((hist.length % W : ℕ) : ℤ) := by
    rw [htr.offset, hWs]; rfl
  rw [hindex]
  have hbits : bitsOf (recordSignature s addr ((hist.length % W : ℕ) : ℤ) missed
      { info with IndexOffset := info.IndexOffset + 1 }).1 addr =
      Function.update (bitsOf s addr) (hist.length % W) missed := by
    funext j
    unfold bitsOf
    rw [recordSignature_bits, Function.update_apply]
    simp only [true_and, Nat.cast_inj]
  have hcount := htr.holds.count_push hW Bool.false_ne_true missed
  refine ⟨?_, hbits ▸ htr.holds.push missed, ?_⟩
  · rw [recordSignature_snd]
    simp [htr.offset]
  · rw [recordSignature_snd]
    simp only [htr.counter]
    unfold bitsOf at hcount
    split_ifs at hcount ⊢ <;> simp_all
    omega

variable (sk : StakingKeeper σ) {ctx : Ctx} {power : Int} {signed : Bool} {s' : State σ}

/-- `HandleValidatorSignature` implements the sliding window: for a validator whose array holds
the window of `hist`, it punishes exactly when the punishment is due on `hist` with the new
signature, and then starts an empty history jailed for the jail duration; otherwise the array
holds the window of the history with the new signature. -/
theorem HandleValidatorSignature_window (hW : 0 < s.params.SignedBlocksWindow)
    (hinfo : s.GetValidatorSigningInfo addr = some info)
    (htr : Tracks s.params.SignedBlocksWindow.toNat hist info (bitsOf s addr))
    (h : HandleValidatorSignature sk ctx addr power signed s = .ok s') :
    ∃ info', s'.GetValidatorSigningInfo addr = some info' ∧
      (DowntimeDue sk ctx addr s info.StartHeight (hist ++ [!signed]) ∧
          Tracks s.params.SignedBlocksWindow.toNat [] info' (bitsOf s' addr) ∧
          info'.JailedUntil = ctx.Time + s.params.DowntimeJailDuration ∨
        ¬ DowntimeDue sk ctx addr s info.StartHeight (hist ++ [!signed]) ∧
          Tracks s.params.SignedBlocksWindow.toNat (hist ++ [!signed]) info' (bitsOf s' addr) ∧
          info'.JailedUntil = info.JailedUntil) := by
  obtain ⟨info₀, t, info'', hinfo₀, -, hr, hcases⟩ := HandleValidatorSignature_eq_ok h
  rw [hinfo, Option.some.injEq] at hinfo₀
  subst hinfo₀
  have hWs : s.params.SignedBlocksWindow = (s.params.SignedBlocksWindow.toNat : ℤ) := by omega
  have htr' := recordSignature_tracks (by omega) hWs htr (!signed)
  rw [hr] at htr'
  dsimp only at htr'
  have hsnd : info'' = (recordSignature s addr (info.IndexOffset.tmod s.params.SignedBlocksWindow) (!signed)
      { info with IndexOffset := info.IndexOffset + 1 }).2 := by rw [hr]
  rw [recordSignature_snd] at hsnd
  have hstart : info''.StartHeight = info.StartHeight := by rw [hsnd]
  have hjail : info''.JailedUntil = info.JailedUntil := by rw [hsnd]
  -- the counter after the write is the count of the window: the two conditions agree
  have hdue : DowntimePunishable sk ctx addr s info'' ↔ DowntimeDue sk ctx addr s info.StartHeight (hist ++ [!signed]) := by
    unfold DowntimePunishable DowntimeDue
    rw [← htr'.counter, hstart]
  rcases hcases with ⟨hnot, rfl⟩ | ⟨hdue', hpun⟩
  · refine ⟨info'', by simp, .inr ⟨hdue.not.mp hnot, htr', hjail⟩⟩
  · obtain ⟨staking, rfl⟩ := punishDowntime_eq_ok hpun
    have ht := congrArg Prod.fst hr
    dsimp only at ht
    refine ⟨downtimeReset ctx t info'', by simp, .inl ⟨hdue.mp hdue', ?_, ?_⟩⟩
    · have hbits : bitsOf ((({ t with staking }).clearValidatorMissedBlockBitArray addr).SetValidatorSigningInfo
          addr (downtimeReset ctx t info'')) addr = fun _ => false := by
        funext j
        unfold bitsOf
        simp
      rw [hbits]
      exact tracks_nil _ rfl rfl
    · simp [downtimeReset, ← ht]

end Window

theorem Tracks.counter_le {W : ℕ} {hist : List Bool} {info : ValidatorSigningInfo} {bits : ℕ → Bool}
    (h : Tracks W hist info bits) : 0 ≤ info.MissedBlocksCounter ∧ info.MissedBlocksCounter ≤ min info.IndexOffset W := by
  have hle : (RingWindow.window W hist).count true ≤ min hist.length W := by
    calc (RingWindow.window W hist).count true ≤ (RingWindow.window W hist).length := List.count_le_length
      _ = min hist.length W := by unfold RingWindow.window; rw [List.length_drop]; omega
  rw [h.counter, h.offset]
  omega

/-! ### The store invariant -/

/-- The invariant of the slashing store: valid params; every counter is the number of missed
bits of its array; bits only in the window and only for addresses with a signing info, which are
consensus addresses of `AddrLen` bytes; and every array with its counter implements the sliding
window over some history of signatures. -/
structure Consistent (s : State σ) : Prop where
  valid : s.params.Valid
  counter : ∀ a info, s.GetValidatorSigningInfo a = some info → info.MissedBlocksCounter = missedCount s a
  bits : ∀ a j b, (s.missedBlockBitArray a).lookup j = some b →
    (∃ info, s.GetValidatorSigningInfo a = some info) ∧ 0 ≤ j ∧ j < s.params.SignedBlocksWindow
  addrLen : ∀ a info, s.GetValidatorSigningInfo a = some info → a.length = AddrLen
  window : ∀ a info, s.GetValidatorSigningInfo a = some info →
    ∃ hist, Tracks s.params.SignedBlocksWindow.toNat hist info (bitsOf s a)

section Invariant

variable {s s' : State σ}

theorem Consistent.window_pos (hc : Consistent s) : 0 < s.params.SignedBlocksWindow := by
  have := hc.valid.window
  omega

theorem Consistent.offset_nonneg (hc : Consistent s) {a : Address} {info : ValidatorSigningInfo}
    (h : s.GetValidatorSigningInfo a = some info) : 0 ≤ info.IndexOffset := by
  obtain ⟨hist, htr⟩ := hc.window a info h
  rw [htr.offset]
  exact Int.natCast_nonneg _

theorem Consistent.of_store (hc : Consistent s) (hp : s'.params = s.params)
    (hi : ∀ a, s'.GetValidatorSigningInfo a = s.GetValidatorSigningInfo a)
    (hm : ∀ a j, (s'.missedBlockBitArray a).lookup j = (s.missedBlockBitArray a).lookup j) :
    Consistent s' where
  valid := hp ▸ hc.valid
  counter a info h := by
    rw [hi] at h
    rw [hc.counter a info h]
    exact AList.sumBy_of_lookup_eq fun j => (hm a j).symm
  bits a j b h := by
    rw [hm] at h
    rw [hp, hi]
    exact hc.bits a j b h
  addrLen a info h := hc.addrLen a info (hi a ▸ h)
  window a info h := by
    rw [hi] at h
    rw [hp, bitsOf_eq_of_lookup (hm a)]
    exact hc.window a info h

theorem Consistent.setInfo (hc : Consistent s) {addr : Address} {info info' : ValidatorSigningInfo}
    (hinfo : s.GetValidatorSigningInfo addr = some info) (hoff : info'.IndexOffset = info.IndexOffset)
    (hcnt : info'.MissedBlocksCounter = info.MissedBlocksCounter) (t : σ) :
    Consistent (({ s with staking := t }).SetValidatorSigningInfo addr info') where
  valid := hc.valid
  counter a i h := by
    rw [GetValidatorSigningInfo_Set] at h
    split_ifs at h with ha
    · cases h
      rw [hcnt, hc.counter _ _ hinfo, ha]
      rfl
    · exact hc.counter a i h
  bits a j b h := by
    obtain ⟨⟨i, hi⟩, hj⟩ := hc.bits a j b h
    refine ⟨?_, hj⟩
    rw [GetValidatorSigningInfo_Set]
    split_ifs
    · exact ⟨_, rfl⟩
    · exact ⟨i, hi⟩
  addrLen a i h := by
    rw [GetValidatorSigningInfo_Set] at h
    split_ifs at h with ha
    · exact ha ▸ hc.addrLen _ _ hinfo
    · exact hc.addrLen a i h
  window a i h := by
    rw [GetValidatorSigningInfo_Set] at h
    split_ifs at h with ha
    · cases h
      obtain ⟨hist, htr⟩ := hc.window _ _ hinfo
      exact ⟨hist, htr.of_eq hoff hcnt (by rw [ha]; rfl)⟩
    · exact hc.window a i h

variable (sk : StakingKeeper σ) {ctx : Ctx} {addr : Address} {power : Int} {signed : Bool}

theorem Consistent.handleValidatorSignature_self (hc : Consistent s)
    (h : HandleValidatorSignature sk ctx addr power signed s = .ok s') :
    ∃ info', s'.GetValidatorSigningInfo addr = some info' ∧ info'.MissedBlocksCounter = missedCount s' addr ∧
      ∀ j b, (s'.missedBlockBitArray addr).lookup j = some b → 0 ≤ j ∧ j < s.params.SignedBlocksWindow := by
  obtain ⟨info, t, info'', hinfo, -, hr, hcases⟩ := HandleValidatorSignature_eq_ok h
  have ht : t = (recordSignature s addr (info.IndexOffset.tmod s.params.SignedBlocksWindow) (!signed)
      { info with IndexOffset := info.IndexOffset + 1 }).1 := by rw [hr]
  have hsnd : info'' = (recordSignature s addr (info.IndexOffset.tmod s.params.SignedBlocksWindow) (!signed)
      { info with IndexOffset := info.IndexOffset + 1 }).2 := by rw [hr]
  -- the recorded signature moves the counter and the stored misses alike
  have hcnt : info''.MissedBlocksCounter = missedCount t addr := by
    rw [hsnd, recordSignature_snd, ht, recordSignature_missedCount, if_pos rfl, hc.counter addr info hinfo]
  -- the slot written is in the window, the offset being a count
  have hbits : ∀ j b, (t.missedBlockBitArray addr).lookup j = some b → 0 ≤ j ∧ j < s.params.SignedBlocksWindow := by
    intro j b hj
    rw [ht] at hj
    rcases recordSignature_lookup _ _ _ _ _ hj with hold | ⟨-, rfl⟩
    · exact (hc.bits addr j b hold).2
    · exact ⟨Int.tmod_nonneg _ (hc.offset_nonneg hinfo), Int.tmod_lt_of_pos _ hc.window_pos⟩
  rcases hcases with ⟨-, rfl⟩ | ⟨-, hpun⟩
  · exact ⟨info'', by simp, hcnt, hbits⟩
  · obtain ⟨staking, rfl⟩ := punishDowntime_eq_ok hpun
    refine ⟨downtimeReset ctx t info'', by simp, ?_, ?_⟩
    · simp [downtimeReset, missedCount_clear]
    · intro j b hj
      simp at hj

theorem Consistent.handleValidatorSignature (hc : Consistent s)
    (h : HandleValidatorSignature sk ctx addr power signed s = .ok s') : Consistent s' := by
  obtain ⟨hparams, hframe⟩ := HandleValidatorSignature_frame h
  obtain ⟨info', hinfo', hcnt', hbits'⟩ := hc.handleValidatorSignature_self sk h
  obtain ⟨info, -, -, hinfo, -⟩ := HandleValidatorSignature_eq_ok h
  have hW := hc.window_pos
  refine ⟨hparams ▸ hc.valid, fun a i ha => ?_, fun a j b hj => ?_, fun a i ha => ?_, fun a i ha => ?_⟩
  · by_cases hab : a = addr
    · subst hab
      rw [hinfo'] at ha
      cases ha
      exact hcnt'
    · rw [(hframe a hab).1] at ha
      unfold missedCount
      rw [(hframe a hab).2]
      exact hc.counter a i ha
  · rw [hparams]
    by_cases hab : a = addr
    · subst hab
      exact ⟨⟨info', hinfo'⟩, hbits' j b hj⟩
    · rw [(hframe a hab).2] at hj
      rw [(hframe a hab).1]
      exact hc.bits a j b hj
  · by_cases hab : a = addr
    · subst hab
      exact hc.addrLen a info hinfo
    · rw [(hframe a hab).1] at ha
      exact hc.addrLen a i ha
  · rw [hparams]
    by_cases hab : a = addr
    · subst hab
      obtain ⟨hist, htr⟩ := hc.window a info hinfo
      obtain ⟨info'', hinfo'', hcases⟩ := HandleValidatorSignature_window sk hW hinfo htr h
      rw [hinfo', Option.some.injEq] at hinfo''
      subst hinfo''
      rw [hinfo', Option.some.injEq] at ha
      subst ha
      rcases hcases with ⟨-, htr', -⟩ | ⟨-, htr', -⟩
      · exact ⟨[], htr'⟩
      · exact ⟨_, htr'⟩
    · rw [(hframe a hab).1] at ha
      have hbits : bitsOf s' a = bitsOf s a := bitsOf_eq_of_lookup fun j => by rw [(hframe a hab).2]
      rw [hbits]
      exact hc.window a i ha

theorem Consistent.handleDoubleSign (hc : Consistent s) {infractionHeight timestamp : Int}
    (h : HandleDoubleSign sk ctx addr infractionHeight timestamp power s = .ok s') : Consistent s' := by
  rcases HandleDoubleSign_eq_ok h with rfl | ⟨info, staking, hinfo, -, rfl⟩
  · exact hc
  · exact hc.setInfo hinfo (by rfl) (by rfl) staking

theorem Consistent.beginBlocker (hc : Consistent s) {votes : List VoteInfo} {evidence : List Evidence}
    (h : BeginBlocker sk ctx votes evidence s = .ok s') : Consistent s' := by
  unfold BeginBlocker at h
  obtain ⟨t, hvotes, hev⟩ := StateExcept.except_bind_eq_ok.mp h
  have hvotes' := Runs.foldlM_rel (r := fun s s' => Consistent s → Consistent s') (fun _ h => h)
    (fun _ _ _ h₁ h₂ h => h₂ (h₁ h)) (fun _ _ _ hstep hs => hs.handleValidatorSignature sk hstep) hvotes
  refine Runs.foldlM_rel (r := fun s s' => Consistent s → Consistent s') (fun _ h => h)
    (fun _ _ _ h₁ h₂ h => h₂ (h₁ h)) (fun s e s' hstep hs => ?_) hev (hvotes' hc)
  split_ifs at hstep
  · exact hs.handleDoubleSign sk hstep
  · cases hstep
    exact hs

theorem Consistent.afterValidatorBonded (hc : Consistent s) (hlen : addr.length = AddrLen) :
    Consistent (AfterValidatorBonded ctx addr s) := by
  unfold AfterValidatorBonded
  cases hinfo : s.GetValidatorSigningInfo addr with
  | some _ => exact hc
  | none =>
    dsimp only
    -- an address without a signing info has no bits
    have hnone : ∀ j, (s.missedBlockBitArray addr).lookup j = none := by
      intro j
      cases hj : (s.missedBlockBitArray addr).lookup j with
      | none => rfl
      | some b =>
        obtain ⟨⟨i, hi⟩, -⟩ := hc.bits addr j b hj
        rw [hinfo] at hi
        cases hi
    have hbits : bitsOf s addr = fun _ => false := by
      funext j
      unfold bitsOf getValidatorMissedBlockBitArray
      rw [hnone]
      rfl
    have hcount : missedCount s addr = 0 :=
      AList.sumBy_eq_zero _ fun j b hj => by rw [hnone] at hj; cases hj
    refine ⟨hc.valid, fun a i ha => ?_, fun a j b hj => ?_, fun a i ha => ?_, fun a i ha => ?_⟩
    · rw [GetValidatorSigningInfo_Set] at ha
      split_ifs at ha with hab
      · cases ha
        rw [missedCount_SetValidatorSigningInfo, hab, hcount]
        rfl
      · exact hc.counter a i ha
    · obtain ⟨-, hj'⟩ := hc.bits a j b hj
      refine ⟨?_, hj'⟩
      rw [GetValidatorSigningInfo_Set]
      split_ifs
      · exact ⟨_, rfl⟩
      · exact (hc.bits a j b hj).1
    · rw [GetValidatorSigningInfo_Set] at ha
      split_ifs at ha with hab
      · exact hab ▸ hlen
      · exact hc.addrLen a i ha
    · rw [GetValidatorSigningInfo_Set] at ha
      split_ifs at ha with hab
      · cases ha
        refine ⟨[], ?_⟩
        rw [hab]
        change Tracks _ [] _ (bitsOf s addr)
        rw [hbits]
        exact tracks_nil _ rfl rfl
      · exact hc.window a i ha

end Invariant

/-! ### A new chain -/

section Genesis

variable {sk : StakingKeeper σ} {s : State σ}

/-- The store of a new chain: the genesis params, and no signing info or array yet. -/
def genesisState (p : Params) (staking : σ) : State σ := ⟨p, ∅, ∅, [], staking⟩

theorem consistent_of_empty (hp : s.params.Valid) (hi : s.signingInfos = ∅) (hm : s.missedBlocks = ∅) :
    Consistent s := by
  have hnone : ∀ a, s.GetValidatorSigningInfo a = none := fun a => by
    unfold GetValidatorSigningInfo; rw [hi]; rfl
  refine ⟨hp, fun a i h => ?_, fun a j b h => ?_, fun a i h => ?_, fun a i h => ?_⟩
  · rw [hnone] at h; cases h
  · unfold missedBlockBitArray at h
    rw [hm] at h
    cases h
  · rw [hnone] at h; cases h
  · rw [hnone] at h; cases h

theorem foldl_addPubkey_store (l : List Staking.Validator) (t : State σ) :
    (l.foldl (fun s v => s.addPubkey v.ConsAddress) t).signingInfos = t.signingInfos ∧
      (l.foldl (fun s v => s.addPubkey v.ConsAddress) t).missedBlocks = t.missedBlocks := by
  induction l generalizing t with
  | nil => exact ⟨rfl, rfl⟩
  | cons v l ih => exact ih (t.addPubkey v.ConsAddress)

/-- A new chain's store satisfies the invariant: its params passed their checks, and there is
no signing info or array. -/
theorem consistent_genesis {p : Params} {staking : σ}
    (h : InitGenesis sk ⟨p, ∅, ∅⟩ (genesisState p staking) = .ok s) : Consistent s := by
  unfold InitGenesis SetParamSet at h
  dsimp only at h
  split at h
  · cases h
  · rename_i hp
    cases h
    have hfold := foldl_addPubkey_store (sk.IterateValidators staking) (genesisState p staking)
    exact consistent_of_empty (Params.Validate_eq_ok.mp hp) hfold.1 hfold.2

end Genesis

end Slashing

end Dipper
