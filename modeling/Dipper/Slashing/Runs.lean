import Dipper.Slashing.Genesis
import Dipper.Staking.Handler
import Dipper.Lib.Runs

/-!
# Runs of the slashing module

The events that change the slashing store, and the stores a chain reaches: a new chain's genesis,
the genesis of a new chain from the export of a reached store, and admissible events after either.
Every such store is consistent, so the counter and window invariants of `Liveness` and the export
round trip of `Genesis` hold over every run. A run with a validator that misses blocks up to the
edge of downtime shows them on a store with missed bits.
-/

namespace Dipper

namespace Slashing

open Dec State

variable {σ : Type}

/-- What can happen to the slashing store: a block's begin-block, an unjail message, the staking
hooks, and any change of the staking state. -/
inductive Event (σ : Type)
  | BeginBlock (ctx : Ctx) (votes : List VoteInfo) (byzantineValidators : List Evidence)
  | Unjail (ctx : Ctx) (validatorAddr : Address)
  | ValidatorCreated (valAddr : Address)
  | ValidatorBonded (ctx : Ctx) (consAddr : Address)
  | ValidatorRemoved (consAddr : Address)
  | Staking (staking : σ)

namespace Event

/-- The store after an event; a rejected message leaves it as it was, a panic is an error. -/
def apply (sk : StakingKeeper σ) : Event σ → State σ → Except String (State σ)
  | BeginBlock ctx votes byzantineValidators, s => BeginBlocker sk ctx votes byzantineValidators s
  | Unjail ctx validatorAddr, s => (handleMsgUnjail sk ctx validatorAddr s).map fun r =>
    match r with
    | .ok s' => s'
    | .error _ => s
  | ValidatorCreated valAddr, s => AfterValidatorCreated sk valAddr s
  | ValidatorBonded ctx consAddr, s => .ok (AfterValidatorBonded ctx consAddr s)
  | ValidatorRemoved consAddr, s => .ok (AfterValidatorRemoved consAddr s)
  | Staking staking, s => .ok { s with staking }

/-- Consensus addresses have `AddrLen` bytes. -/
def Admissible : Event σ → State σ → Prop
  | ValidatorBonded _ consAddr, _ => consAddr.length = AddrLen
  | _, _ => True

instance instDecidableAdmissible (e : Event σ) (s : State σ) : Decidable (e.Admissible s) := by
  cases e <;> unfold Admissible <;> infer_instance

end Event

/-- The stores a chain reaches: a new chain's genesis, a new chain's genesis from the export of a
reached store with any staking state, and admissible events. -/
inductive Reachable (sk : StakingKeeper σ) : State σ → Prop
  | genesis (p : Params) (staking : σ) {s : State σ} :
      InitGenesis sk ⟨p, ∅, ∅⟩ (genesisState p staking) = .ok s → Reachable sk s
  | regenesis {s₀ s : State σ} {data : GenesisState} (staking : σ) : Reachable sk s₀ → ExportGenesis s₀ = .ok data →
      InitGenesis sk data (genesisState data.Params staking) = .ok s → Reachable sk s
  | step {s s' : State σ} (e : Event σ) : Reachable sk s → e.Admissible s → e.apply sk s = .ok s' → Reachable sk s'

def runEvents (sk : StakingKeeper σ) : State σ → List (Event σ) → Except String (State σ) :=
  Runs.run (Event.apply sk) Event.Admissible

theorem Reachable.stepClosed {sk : StakingKeeper σ} :
    Runs.StepClosed (Event.apply sk) Event.Admissible (Reachable sk) :=
  fun _ _ e hs hadm happ => .step e hs hadm happ

/-- A new chain's genesis over a staking state, then the events. -/
def runFromGenesis (sk : StakingKeeper σ) (p : Params) (staking : σ) (es : List (Event σ)) :
    Except String (State σ) := do
  let s ← InitGenesis sk ⟨p, ∅, ∅⟩ (genesisState p staking)
  runEvents sk s es

section Reachable

variable {sk : StakingKeeper σ} {s s' : State σ}

theorem Reachable.of_runFromGenesis {p : Params} {staking : σ} {es : List (Event σ)}
    (h : runFromGenesis sk p staking es = .ok s) : Reachable sk s := by
  obtain ⟨s₀, h₀, hrun⟩ := StateExcept.except_bind_eq_ok.mp h
  exact Runs.run_closed Reachable.stepClosed (.genesis p staking h₀) hrun

theorem Consistent.step (hc : Consistent s) (e : Event σ) (hadm : e.Admissible s)
    (h : e.apply sk s = .ok s') : Consistent s' := by
  cases e with
  | BeginBlock ctx votes evidence => exact hc.beginBlocker sk h
  | Unjail ctx validatorAddr =>
    obtain ⟨r, hr, rfl⟩ := StateExcept.eq_ok_of_map h
    cases r with
    | error _ => exact hc
    | ok t =>
      obtain ⟨-, -, -, -, -, -, -, staking, -, rfl⟩ := handleMsgUnjail_eq_ok hr
      exact hc.of_store rfl (fun _ => rfl) (fun _ _ => rfl)
  | ValidatorCreated valAddr =>
    change AfterValidatorCreated sk valAddr s = .ok s' at h
    unfold AfterValidatorCreated at h
    split at h
    · cases h
    · cases h
      exact hc.of_store rfl (fun _ => rfl) (fun _ _ => rfl)
  | ValidatorBonded ctx consAddr =>
    cases h
    exact hc.afterValidatorBonded hadm
  | ValidatorRemoved consAddr =>
    cases h
    exact hc.of_store rfl (fun _ => rfl) (fun _ _ => rfl)
  | Staking staking =>
    cases h
    exact hc.of_store rfl (fun _ => rfl) (fun _ _ => rfl)

theorem Reachable.consistent (hs : Reachable sk s) : Consistent s := by
  induction hs with
  | genesis p staking h => exact consistent_genesis h
  | regenesis staking _ hexport himport ih => exact ih.regenesis hexport himport
  | step e _ hadm happ ih => exact ih.step e hadm happ

end Reachable

/-! ### A validator at the edge of downtime -/

/-- A consensus address of `AddrLen` bytes. -/
def bondedConsAddr : Address := List.replicate 20 1

/-- A new chain with the default params over the staking model's genesis without validators,
after `bondedConsAddr` has bonded at height 1. -/
def bondedStore : State Staking.State :=
  AfterValidatorBonded ⟨1, 0⟩ bondedConsAddr
    (genesisState DefaultParams (Staking.genesisState Staking.DefaultParams ∅ 0 0 0))

/-- The default params with a window of 11 blocks, of which 6 must be signed. -/
def smallWindowParams : Params :=
  { DefaultParams with SignedBlocksWindow := 11, MinSignedPerWindow := NewDecWithPrec 5 1 }

/-- The staking model at height 12, where \[1\] creates a validator with the consensus address
`bondedConsAddr` and 10¹², and the end-block bonds it. -/
def bondingRun : List Staking.Event :=
  [.Deliver (.MsgCreateValidator [1] [1] bondedConsAddr ⟨NativeTokenName, 1000000000000⟩ 1), .EndBlock]

/-- `bondedConsAddr` bonds at height 1, signs the blocks at heights 2 to 7 and misses those at 8
to 12: five misses in the window, one short of downtime. -/
def missedRun : List (Event Staking.State) :=
  .ValidatorBonded ⟨1, 0⟩ bondedConsAddr ::
    (List.range 11).map fun i => .BeginBlock ⟨i + 2, 0⟩ [⟨bondedConsAddr, 1, decide (i < 6)⟩] []

/-- `missedRun` from a new chain with `smallWindowParams`, over the staking state of `bondingRun`. -/
def missedStoreRun : Except String (State Staking.State) := do
  let staking ← Staking.runEvents
    (Staking.genesisState Staking.DefaultParams ((∅ : AList (fun _ : Address => Int)).insert [1] 2000000000000)
      2000000000000 12 0) bondingRun
  runFromGenesis stakingKeeper smallWindowParams staking missedRun

theorem exists_missedStoreRun : ∃ s, missedStoreRun = .ok s ∧ Reachable stakingKeeper s := by
  have hok : missedStoreRun.isOk = true := by decide +kernel
  cases hrun : missedStoreRun with
  | error e => rw [hrun] at hok; cases hok
  | ok s =>
    obtain ⟨staking, -, h⟩ := StateExcept.except_bind_eq_ok.mp hrun
    exact ⟨s, rfl, Reachable.of_runFromGenesis h⟩

section Reachable

variable {sk : StakingKeeper σ} {s s' : State σ}

/-- In every reachable store, each signing info's counter is the number of missed bits of its
array, between zero and the smaller of the offset and the window; and the arrays only have bits in
the window `0 … W-1`, and only for addresses with a signing info. -/
theorem reachable_missedBlocksCounter (hs : Reachable sk s) :
    (∀ a j b, (s.missedBlockBitArray a).lookup j = some b →
      (∃ info, s.GetValidatorSigningInfo a = some info) ∧ 0 ≤ j ∧ j < s.params.SignedBlocksWindow) ∧
    ∀ a info, s.GetValidatorSigningInfo a = some info →
      info.MissedBlocksCounter = missedCount s a ∧ 0 ≤ info.MissedBlocksCounter ∧
        info.MissedBlocksCounter ≤ min info.IndexOffset s.params.SignedBlocksWindow := by
  have hc := hs.consistent
  refine ⟨hc.bits, fun a info hinfo => ⟨hc.counter a info hinfo, ?_⟩⟩
  obtain ⟨hist, htr⟩ := hc.window a info hinfo
  have hbound := htr.counter_le
  have hW := hc.window_pos
  omega

theorem reachable_missedBlocksCounter_missedStore :
    ∃ s, Reachable stakingKeeper s ∧ missedCount s bondedConsAddr = 5 ∧
      (∀ a j b, (s.missedBlockBitArray a).lookup j = some b →
        (∃ info, s.GetValidatorSigningInfo a = some info) ∧ 0 ≤ j ∧ j < s.params.SignedBlocksWindow) ∧
      ∀ a info, s.GetValidatorSigningInfo a = some info →
        info.MissedBlocksCounter = missedCount s a ∧ 0 ≤ info.MissedBlocksCounter ∧
          info.MissedBlocksCounter ≤ min info.IndexOffset s.params.SignedBlocksWindow := by
  obtain ⟨s, hrun, hs⟩ := exists_missedStoreRun
  have hcount : missedStoreRun.map (missedCount · bondedConsAddr) = .ok 5 := by decide +kernel
  rw [hrun] at hcount
  exact ⟨s, hs, Except.ok.inj hcount, reachable_missedBlocksCounter hs⟩

/-- Downtime slashing over every run: in every reachable store, each validator's array and
counter hold the sliding window over a history of its signatures, and the next signature either
extends that history, or, exactly when more than `W - MinSignedPerWindow` of the last `W`
signatures with it are missed past the first window and the validator is there and not jailed,
jails it for the jail duration and starts an empty history. -/
theorem reachable_downtime_window (hs : Reachable sk s) {addr : Address} {info : ValidatorSigningInfo}
    (hinfo : s.GetValidatorSigningInfo addr = some info) :
    ∃ hist, Tracks s.params.SignedBlocksWindow.toNat hist info (bitsOf s addr) ∧
      ∀ ctx power signed s', HandleValidatorSignature sk ctx addr power signed s = .ok s' →
        ∃ info', s'.GetValidatorSigningInfo addr = some info' ∧
          (DowntimeDue sk ctx addr s info.StartHeight (hist ++ [!signed]) ∧
              Tracks s.params.SignedBlocksWindow.toNat [] info' (bitsOf s' addr) ∧
              info'.JailedUntil = ctx.Time + s.params.DowntimeJailDuration ∨
            ¬ DowntimeDue sk ctx addr s info.StartHeight (hist ++ [!signed]) ∧
              Tracks s.params.SignedBlocksWindow.toNat (hist ++ [!signed]) info' (bitsOf s' addr) ∧
              info'.JailedUntil = info.JailedUntil) := by
  have hc := hs.consistent
  obtain ⟨hist, htr⟩ := hc.window addr info hinfo
  exact ⟨hist, htr, fun ctx power signed s' h => HandleValidatorSignature_window sk hc.window_pos hinfo htr h⟩

theorem reachable_downtime_window_missedStore :
    ∃ s, Reachable stakingKeeper s ∧ ∃ info, s.GetValidatorSigningInfo bondedConsAddr = some info ∧
      info.MissedBlocksCounter = 5 ∧ ∃ hist, Tracks s.params.SignedBlocksWindow.toNat hist info (bitsOf s bondedConsAddr) ∧
        (∀ ctx power signed s', HandleValidatorSignature stakingKeeper ctx bondedConsAddr power signed s = .ok s' →
          ∃ info', s'.GetValidatorSigningInfo bondedConsAddr = some info' ∧
            (DowntimeDue stakingKeeper ctx bondedConsAddr s info.StartHeight (hist ++ [!signed]) ∧
                Tracks s.params.SignedBlocksWindow.toNat [] info' (bitsOf s' bondedConsAddr) ∧
                info'.JailedUntil = ctx.Time + s.params.DowntimeJailDuration ∨
              ¬ DowntimeDue stakingKeeper ctx bondedConsAddr s info.StartHeight (hist ++ [!signed]) ∧
                Tracks s.params.SignedBlocksWindow.toNat (hist ++ [!signed]) info' (bitsOf s' bondedConsAddr) ∧
                info'.JailedUntil = info.JailedUntil)) ∧
        DowntimeDue stakingKeeper ⟨13, 0⟩ bondedConsAddr s info.StartHeight (hist ++ [true]) := by
  obtain ⟨s, hrun, hs⟩ := exists_missedStoreRun
  have hinfo : missedStoreRun.map (·.GetValidatorSigningInfo bondedConsAddr) = .ok (some ⟨1, 11, 0, false, 5⟩) := by
    decide +kernel
  have hjail : (missedStoreRun.bind (HandleValidatorSignature stakingKeeper ⟨13, 0⟩ bondedConsAddr 1 false)).map
      (fun s' => (s'.GetValidatorSigningInfo bondedConsAddr).map (·.JailedUntil)) = .ok (some 129600000000000) := by
    decide +kernel
  rw [hrun] at hinfo hjail
  obtain ⟨s', hs', hjailed⟩ := StateExcept.eq_ok_of_map hjail
  obtain ⟨hist, htr, hnext⟩ := reachable_downtime_window hs (Except.ok.inj hinfo)
  refine ⟨s, hs, _, Except.ok.inj hinfo, rfl, hist, htr, hnext, ?_⟩
  -- the next missed signature jails the validator, so it is the downtime branch that was taken
  obtain ⟨info', hinfo', hdue | ⟨-, -, hkept⟩⟩ := hnext _ _ _ _ hs'
  · exact hdue.1
  · rw [hinfo', Option.map_some, Option.some.injEq] at hjailed
    rw [hkept] at hjailed
    cases hjailed

/-- Exporting a reachable store and importing it into a new chain with the same staking state
gives back its params, every signing info and every bit of every array: the export does not
panic, and the window it reads holds all the bits there are. -/
theorem reachable_genesis_roundtrip (sk : StakingKeeper σ) {s : State σ} (hs : Reachable sk s) :
    ∃ data s', ExportGenesis s = .ok data ∧ InitGenesis sk data (genesisState s.params s.staking) = .ok s' ∧
      s'.params = s.params ∧ (∀ a, s'.GetValidatorSigningInfo a = s.GetValidatorSigningInfo a) ∧
      ∀ a j, (s'.missedBlockBitArray a).lookup j = (s.missedBlockBitArray a).lookup j := by
  have hc := hs.consistent
  obtain ⟨data, hexport, hparams, -, -⟩ := ExportGenesis_eq_ok hc.addrLen
  obtain ⟨s', himport, -⟩ := InitGenesis_eq_ok sk (hparams ▸ hc.valid) s.params s.staking
  exact ⟨data, s', hexport, himport, hc.roundtrip hexport himport⟩

theorem reachable_genesis_roundtrip_missedStore :
    ∃ s, Reachable stakingKeeper s ∧ (s.missedBlockBitArray bondedConsAddr).lookup 10 = some true ∧
      ∃ data s', ExportGenesis s = .ok data ∧
        InitGenesis stakingKeeper data (genesisState s.params s.staking) = .ok s' ∧
        s'.params = s.params ∧ (∀ a, s'.GetValidatorSigningInfo a = s.GetValidatorSigningInfo a) ∧
        ∀ a j, (s'.missedBlockBitArray a).lookup j = (s.missedBlockBitArray a).lookup j := by
  obtain ⟨s, hrun, hs⟩ := exists_missedStoreRun
  have hbit : missedStoreRun.map (fun s => (s.missedBlockBitArray bondedConsAddr).lookup 10) = .ok (some true) := by
    decide +kernel
  rw [hrun] at hbit
  exact ⟨s, hs, Except.ok.inj hbit, reachable_genesis_roundtrip stakingKeeper hs⟩

end Reachable

end Slashing

end Dipper
