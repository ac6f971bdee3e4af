import Dipper.Staking.Types
import Dipper.Types.DecString
import Dipper.Lib.GoTime
import Dipper.Lib.StateExcept

/-!
# Slashing types and store

The params of `slashing/types/params.go` with their checks, the signing info of a validator, the
module's errors, the staking keeper as `types/expected_keepers.go` asks for it, and the slashing
store of `signing_info.go` and `keeper.go`: the signing info of each consensus address, its
missed-block bit array and the address-pubkey relation. A consensus key is kept as its address,
times and durations are nanoseconds, and an index never written reads as not missed.
-/

namespace Dipper

namespace Slashing

open Dec

/-- `sdk.ValidatorUpdateDelay`: a validator set change takes effect one block later. -/
def ValidatorUpdateDelay : Int := 1

/-- `sdk.AddrLen`: the length of a consensus address. -/
def AddrLen : ℕ := 20

structure Params where
  MaxEvidenceAge : Int
  SignedBlocksWindow : Int
  MinSignedPerWindow : Dec
  DowntimeJailDuration : Int
  SlashFractionDoubleSign : Dec
  SlashFractionDowntime : Dec
  deriving DecidableEq, Repr

/-- `DoubleSignJailEndTime`: `time.Unix(253402300799, 0)`, the last second Amino encodes. -/
def DoubleSignJailEndTime : Int := 253402300799 * 10 ^ 9

/-- `DefaultParams`; the slash fractions are the quotients `1/100` and `3/10000`, which `Quo`
computes exactly. -/
def DefaultParams : Params :=
  ⟨24 * GoTime.Hour, 34560, NewDecWithPrec 7 1, 36 * GoTime.Hour, NewDecWithPrec 1 2,
    NewDecWithPrec 3 4⟩

/-! ### Param checks -/

def validateSignedBlocksWindow (v : Int) : Except String Unit :=
  if v ≤ 10 then .error ("signed blocks window must be at least 10, is: " ++ toString v) else .ok ()

/-- The check of the three fraction params, named `what` in its errors: not negative and at
most one. -/
def validateFraction (what : String) (v : Dec) : Except String Unit :=
  if v.IsNegative then .error (what ++ " cannot be negative: " ++ .ofList (DecString v))
  else if v.GT OneDec then .error (what ++ " too large: " ++ .ofList (DecString v))
  else .ok ()

def validateMinSignedPerWindow (v : Dec) : Except String Unit := validateFraction "min signed per window" v

def validateSlashFractionDoubleSign (v : Dec) : Except String Unit :=
  validateFraction "double sign slash fraction" v

def validateSlashFractionDowntime (v : Dec) : Except String Unit := validateFraction "downtime slash fraction" v

def validateDowntimeJailDuration (v : Int) : Except String Unit :=
  if v ≤ GoTime.Minute then .error ("downtime jail duration must be at least 1 minute, is: " ++ GoTime.Duration.String v)
  else .ok ()

def validateMaxEvidenceAge (v : Int) : Except String Unit :=
  if v ≤ 0 then .error ("max evidence age must be positive: " ++ GoTime.Duration.String v) else .ok ()

/-- `Params.Validate`: the checks in the order of the fields' pairs. -/
def Params.Validate (p : Params) : Except String Unit := do
  validateMaxEvidenceAge p.MaxEvidenceAge
  validateSignedBlocksWindow p.SignedBlocksWindow
  validateMinSignedPerWindow p.MinSignedPerWindow
  validateDowntimeJailDuration p.DowntimeJailDuration
  validateSlashFractionDoubleSign p.SlashFractionDoubleSign
  validateSlashFractionDowntime p.SlashFractionDowntime

/-- What a set of params passing its checks guarantees: a window of more than ten blocks, and
fractions between zero and one. -/
structure Params.Valid (p : Params) : Prop where
  maxEvidenceAge : 0 < p.MaxEvidenceAge
  window : 10 < p.SignedBlocksWindow
  minSigned : 0 ≤ p.MinSignedPerWindow.i ∧ p.MinSignedPerWindow.i ≤ precisionReuse
  downtimeJailDuration : (GoTime.Minute : Int) < p.DowntimeJailDuration
  doubleSign : 0 ≤ p.SlashFractionDoubleSign.i ∧ p.SlashFractionDoubleSign.i ≤ precisionReuse
  downtime : 0 ≤ p.SlashFractionDowntime.i ∧ p.SlashFractionDowntime.i ≤ precisionReuse

theorem validateSignedBlocksWindow_eq_ok {v : Int} {u : Unit} : validateSignedBlocksWindow v = .ok u ↔ 10 < v := by
  unfold validateSignedBlocksWindow
  split_ifs <;> simp_all

theorem validateFraction_eq_ok {what : String} {v : Dec} {u : Unit} :
    validateFraction what v = .ok u ↔ 0 ≤ v.i ∧ v.i ≤ precisionReuse := by
  unfold validateFraction IsNegative GT OneDec
  split_ifs <;> simp_all

theorem validateDowntimeJailDuration_eq_ok {v : Int} {u : Unit} :
    validateDowntimeJailDuration v = .ok u ↔ (GoTime.Minute : Int) < v := by
  unfold validateDowntimeJailDuration
  split_ifs <;> simp_all

theorem validateMaxEvidenceAge_eq_ok {v : Int} {u : Unit} : validateMaxEvidenceAge v = .ok u ↔ 0 < v := by
  unfold validateMaxEvidenceAge
  split_ifs <;> simp_all

theorem Params.Validate_eq_ok {p : Params} : p.Validate = .ok () ↔ p.Valid := by
  simp only [Params.Validate, StateExcept.except_bind_eq_ok, validateMinSignedPerWindow,
    validateSlashFractionDoubleSign, validateSlashFractionDowntime, validateMaxEvidenceAge_eq_ok,
    validateSignedBlocksWindow_eq_ok, validateFraction_eq_ok, validateDowntimeJailDuration_eq_ok]
  simp only [exists_const]
  exact ⟨fun ⟨h₁, h₂, h₃, h₄, h₅, h₆⟩ => ⟨h₁, h₂, h₃, h₄, h₅, h₆⟩,
    fun ⟨h₁, h₂, h₃, h₄, h₅, h₆⟩ => ⟨h₁, h₂, h₃, h₄, h₅, h₆⟩⟩

theorem DefaultParams_valid : DefaultParams.Valid := Params.Validate_eq_ok.mp (by decide)

/-! ### Signing info and errors -/

/-- `ValidatorSigningInfo`, stored under the address it is about. -/
structure ValidatorSigningInfo where
  StartHeight : Int
  IndexOffset : Int
  JailedUntil : Int
  Tombstoned : Bool
  MissedBlocksCounter : Int
  deriving DecidableEq, Repr

def NewValidatorSigningInfo (startHeight indexOffset jailedUntil : Int) (tombstoned : Bool)
    (missedBlocksCounter : Int) : ValidatorSigningInfo :=
  ⟨startHeight, indexOffset, jailedUntil, tombstoned, missedBlocksCounter⟩

/-- The errors of `types/errors.go`. -/
inductive Err
  | NoValidatorForAddress | BadValidatorAddr | ValidatorJailed | ValidatorNotJailed
  | MissingSelfDelegation | SelfDelegationTooLowToUnjail | NoSigningInfoFound | DelegatorExceedMaxLever
  deriving DecidableEq, Repr

/-- The code and text of each error. -/
def Err.desc : Err → ℕ × String
  | .NoValidatorForAddress => (1, "address is not associated with any known validator")
  | .BadValidatorAddr => (2, "validator does not exist for that address")
  | .ValidatorJailed => (3, "validator still jailed; cannot be unjailed")
  | .ValidatorNotJailed => (4, "validator not jailed; cannot be unjailed")
  | .MissingSelfDelegation => (5, "validator has no self-delegation; cannot be unjailed")
  | .SelfDelegationTooLowToUnjail => (6, "validator's self delegation less than minimum; cannot be unjailed")
  | .NoSigningInfoFound => (7, "no validator signing info found")
  | .DelegatorExceedMaxLever => (8, "delegation exceed max lever")

/-! ### The staking keeper -/

/-- `types.StakingKeeper`: what the slashing keeper asks of staking. A missing validator or
delegation is `none`; `Slash`, `Jail` and `Unjail` return nothing but may panic. -/
structure StakingKeeper (σ : Type) where
  IterateValidators : σ → List Staking.Validator
  Validator : σ → Address → Option Staking.Validator
  ValidatorByConsAddr : σ → Address → Option Staking.Validator
  Slash : Address → Int → Int → Dec → σ → Except String σ
  Jail : Address → σ → Except String σ
  Unjail : Address → σ → Except String σ
  Delegation : σ → Address → Address → Option Staking.Delegation
  MaxLever : σ → Dec

/-! ### The store -/

/-- The slashing store with the params and the staking state it reaches through the
`StakingKeeper`. -/
structure State (σ : Type) where
  params : Params
  signingInfos : AList (fun _ : Address => ValidatorSigningInfo)
  missedBlocks : AList (fun _ : Address => AList (fun _ : Int => Bool))
  addrPubkeyRelation : List Address
  staking : σ

namespace State

variable {σ : Type}

def GetValidatorSigningInfo (s : State σ) (address : Address) : Option ValidatorSigningInfo :=
  s.signingInfos.lookup address

def SetValidatorSigningInfo (s : State σ) (address : Address) (info : ValidatorSigningInfo) : State σ :=
  { s with signingInfos := s.signingInfos.insert address info }

/-- The bit array of one address, the keys under its prefix. -/
def missedBlockBitArray (s : State σ) (address : Address) : AList (fun _ : Int => Bool) :=
  (s.missedBlocks.lookup address).getD ∅

def getValidatorMissedBlockBitArray (s : State σ) (address : Address) (index : Int) : Bool :=
  ((s.missedBlockBitArray address).lookup index).getD false

def setValidatorMissedBlockBitArray (s : State σ) (address : Address) (index : Int) (missed : Bool) :
    State σ :=
  { s with missedBlocks := s.missedBlocks.insert address ((s.missedBlockBitArray address).insert index missed) }

/-- `clearValidatorMissedBlockBitArray` deletes the keys under the address's prefix; with
consensus addresses of one length, those are the address's own. -/
def clearValidatorMissedBlockBitArray (s : State σ) (address : Address) : State σ :=
  { s with missedBlocks := s.missedBlocks.erase address }

/-- `addPubkey`: the relation of the key's address. -/
def addPubkey (s : State σ) (address : Address) : State σ :=
  { s with addrPubkeyRelation := s.addrPubkeyRelation.insert address }

def getPubkey (s : State σ) (address : Address) : Option Address :=
  if address ∈ s.addrPubkeyRelation then some address else none

def deleteAddrPubkeyRelation (s : State σ) (address : Address) : State σ :=
  { s with addrPubkeyRelation := s.addrPubkeyRelation.erase address }

/-- `MinSignedPerWindow`: the fraction of the window, rounded to blocks. -/
def MinSignedPerWindow (s : State σ) : Int :=
  (s.params.MinSignedPerWindow.MulInt s.params.SignedBlocksWindow).RoundInt

section Lemmas

variable (s : State σ) (a a' : Address)

@[simp] theorem SetValidatorSigningInfo_params (info) : (s.SetValidatorSigningInfo a info).params = s.params := rfl
@[simp] theorem SetValidatorSigningInfo_missedBlocks (info) :
    (s.SetValidatorSigningInfo a info).missedBlocks = s.missedBlocks := rfl
@[simp] theorem SetValidatorSigningInfo_addrPubkeyRelation (info) :
    (s.SetValidatorSigningInfo a info).addrPubkeyRelation = s.addrPubkeyRelation := rfl
@[simp] theorem SetValidatorSigningInfo_staking (info) : (s.SetValidatorSigningInfo a info).staking = s.staking := rfl

@[simp] theorem GetValidatorSigningInfo_Set (info) :
    (s.SetValidatorSigningInfo a info).GetValidatorSigningInfo a' =
      if a' = a then some info else s.GetValidatorSigningInfo a' := by
  unfold GetValidatorSigningInfo SetValidatorSigningInfo
  split_ifs with h
  · rw [h, AList.lookup_insert]
  · rw [AList.lookup_insert_ne h]

@[simp] theorem setValidatorMissedBlockBitArray_params (i b) :
    (s.setValidatorMissedBlockBitArray a i b).params = s.params := rfl
@[simp] theorem setValidatorMissedBlockBitArray_signingInfos (i b) :
    (s.setValidatorMissedBlockBitArray a i b).signingInfos = s.signingInfos := rfl
@[simp] theorem setValidatorMissedBlockBitArray_addrPubkeyRelation (i b) :
    (s.setValidatorMissedBlockBitArray a i b).addrPubkeyRelation = s.addrPubkeyRelation := rfl
@[simp] theorem setValidatorMissedBlockBitArray_staking (i b) :
    (s.setValidatorMissedBlockBitArray a i b).staking = s.staking := rfl

@[simp] theorem clearValidatorMissedBlockBitArray_params :
    (s.clearValidatorMissedBlockBitArray a).params = s.params := rfl
@[simp] theorem clearValidatorMissedBlockBitArray_signingInfos :
    (s.clearValidatorMissedBlockBitArray a).signingInfos = s.signingInfos := rfl
@[simp] theorem clearValidatorMissedBlockBitArray_addrPubkeyRelation :
    (s.clearValidatorMissedBlockBitArray a).addrPubkeyRelation = s.addrPubkeyRelation := rfl
@[simp] theorem clearValidatorMissedBlockBitArray_staking :
    (s.clearValidatorMissedBlockBitArray a).staking = s.staking := rfl

@[simp] theorem missedBlockBitArray_set (i b) :
    (s.setValidatorMissedBlockBitArray a i b).missedBlockBitArray a' =
      if a' = a then (s.missedBlockBitArray a).insert i b else s.missedBlockBitArray a' := by
  unfold missedBlockBitArray setValidatorMissedBlockBitArray
  split_ifs with h
  · rw [h, AList.lookup_insert, Option.getD_some]
    rfl
  · rw [AList.lookup_insert_ne h]

@[simp] theorem missedBlockBitArray_clear :
    (s.clearValidatorMissedBlockBitArray a).missedBlockBitArray a' =
      if a' = a then ∅ else s.missedBlockBitArray a' := by
  unfold missedBlockBitArray clearValidatorMissedBlockBitArray
  split_ifs with h
  · rw [h, AList.lookup_erase, Option.getD_none]
  · rw [AList.lookup_erase_ne h]

@[simp] theorem missedBlockBitArray_SetValidatorSigningInfo (info) :
    (s.SetValidatorSigningInfo a info).missedBlockBitArray a' = s.missedBlockBitArray a' := rfl

@[simp] theorem missedBlockBitArray_staking (t : σ) :
    ({ s with staking := t }).missedBlockBitArray a = s.missedBlockBitArray a := rfl

end Lemmas

end State

end Slashing

end Dipper
