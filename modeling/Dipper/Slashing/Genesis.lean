import Dipper.Slashing.Liveness

/-!
# Exporting and importing the slashing store

`ExportGenesis` writes the params, every signing info and, for each, the bits its array has at
the indices `0 … W-1`; `InitGenesis` writes them back into a new chain's store. The export reads
only the window, so the round trip keeps the arrays because every bit of a consistent store lies
in the window of an address with a signing info. Reading the address back from a signing info's
key panics unless it has `AddrLen` bytes, which the consensus addresses of a consistent store have.
-/

namespace Dipper

namespace Slashing

open Dec State

variable {σ : Type}

/-! ### The bits of one address -/

section Bits

variable (s : State σ) (a : Address)

theorem map_missedBlocksOf :
    ((missedBlocksOf s a).map fun m => (⟨m.Index, m.Missed⟩ : Σ _ : Int, Bool)) =
      (List.range s.params.SignedBlocksWindow.toNat).filterMap fun i : ℕ =>
        ((s.missedBlockBitArray a).lookup (i : Int)).map fun b => (⟨(i : Int), b⟩ : Σ _ : Int, Bool) := by
  unfold missedBlocksOf
  rw [List.map_filterMap]
  congr 1
  funext i
  cases (s.missedBlockBitArray a).lookup (i : Int) <;> rfl

theorem nodupKeys_map_missedBlocksOf :
    ((missedBlocksOf s a).map fun m => (⟨m.Index, m.Missed⟩ : Σ _ : Int, Bool)).NodupKeys := by
  rw [map_missedBlocksOf]
  unfold List.NodupKeys List.keys
  rw [List.map_filterMap]
  refine List.Nodup.filterMap ?_ List.nodup_range
  -- an index comes from one position of the range
  intro i i' k hi hi'
  cases h : (s.missedBlockBitArray a).lookup (i : Int) <;> cases h' : (s.missedBlockBitArray a).lookup (i' : Int) <;>
    simp_all
  omega

variable {s a}

theorem dlookup_missedBlocksOf
    (hbits : ∀ j b, (s.missedBlockBitArray a).lookup j = some b → 0 ≤ j ∧ j < s.params.SignedBlocksWindow)
    (j : Int) :
    ((missedBlocksOf s a).map fun m => (⟨m.Index, m.Missed⟩ : Σ _ : Int, Bool)).dlookup j =
      (s.missedBlockBitArray a).lookup j := by
  ext b
  rw [← Option.mem_def, List.mem_dlookup_iff (nodupKeys_map_missedBlocksOf s a), map_missedBlocksOf,
    List.mem_filterMap]
  constructor
  · rintro ⟨i, -, hi⟩
    cases h : (s.missedBlockBitArray a).lookup (i : Int) with
    | none => rw [h] at hi; cases hi
    | some b' =>
      rw [h] at hi
      simp only [Option.map_some, Option.some.injEq, Sigma.mk.injEq] at hi
      obtain ⟨rfl, hb⟩ := hi
      rw [heq_iff_eq] at hb
      subst hb
      exact h
  · intro hj
    obtain ⟨h0, hW⟩ := hbits j b hj
    refine ⟨j.toNat, List.mem_range.mpr (by omega), ?_⟩
    rw [Int.toNat_of_nonneg h0, hj]
    rfl

end Bits

/-! ### Export -/

section Export

variable {s : State σ}

/-- One iteration of the export's loop: a signing info and the bits of its window. -/
def exportEntry (s : State σ) (data : GenesisState) (e : Σ _ : Address, ValidatorSigningInfo) : GenesisState :=
  { data with
    SigningInfos := data.SigningInfos.insert e.1 e.2
    MissedBlocks := data.MissedBlocks.insert e.1 (missedBlocksOf s e.1) }

theorem foldl_exportEntry (l : List (Σ _ : Address, ValidatorSigningInfo)) (data : GenesisState) :
    (l.foldl (exportEntry s) data).Params = data.Params ∧
      (l.foldl (exportEntry s) data).SigningInfos = l.foldl (fun m e => m.insert e.1 e.2) data.SigningInfos ∧
      (l.foldl (exportEntry s) data).MissedBlocks =
        (l.map fun e => (⟨e.1, missedBlocksOf s e.1⟩ : Σ _ : Address, List MissedBlock)).foldl
          (fun m e => m.insert e.1 e.2) data.MissedBlocks := by
  induction l generalizing data with
  | nil => exact ⟨rfl, rfl, rfl⟩
  | cons e l ih => exact ih (exportEntry s data e)

/-- With signing infos only at addresses of `AddrLen` bytes, the export does not panic: it
writes the params, every signing info, and for each address with a signing info the bits of its
window. -/
theorem ExportGenesis_eq_ok (hlen : ∀ a info, s.GetValidatorSigningInfo a = some info → a.length = AddrLen) :
    ∃ data, ExportGenesis s = .ok data ∧ data.Params = s.params ∧
      (∀ a, data.SigningInfos.lookup a = s.GetValidatorSigningInfo a) ∧
      ∀ a, data.MissedBlocks.lookup a = (s.GetValidatorSigningInfo a).map fun _ => missedBlocksOf s a := by
  have hexport : ExportGenesis s = .ok (s.signingInfos.entries.foldl (exportEntry s) ⟨s.params, ∅, ∅⟩) := by
    refine StateExcept.foldlM_eq_ok _ fun data e he => ?_
    rw [if_neg (by rw [hlen e.1 e.2 (AList.mem_lookup_iff.mpr he)]; exact not_not.mpr rfl)]
    rfl
  obtain ⟨hparams, hinfos, hmissed⟩ := foldl_exportEntry (s := s) s.signingInfos.entries ⟨s.params, ∅, ∅⟩
  refine ⟨_, hexport, hparams, fun a => ?_, fun a => ?_⟩
  · -- the infos are written entry by entry, each key once
    rw [hinfos, AList.lookup_foldl_insert s.signingInfos.nodupKeys, AList.lookup_empty, Option.or_none]
    rfl
  · have hkeys : (s.signingInfos.entries.map fun e =>
        (⟨e.1, missedBlocksOf s e.1⟩ : Σ _ : Address, List MissedBlock)).NodupKeys := by
      unfold List.NodupKeys List.keys
      rw [List.map_map]
      exact s.signingInfos.nodupKeys
    rw [hmissed, AList.lookup_foldl_insert hkeys, AList.lookup_empty, Option.or_none,
      AList.dlookup_map_val (fun a (_ : ValidatorSigningInfo) => missedBlocksOf s a)]
    rfl

end Export

/-! ### Import -/

section Import

variable (sk : StakingKeeper σ)

theorem foldl_SetValidatorSigningInfo (l : List (Σ _ : Address, ValidatorSigningInfo)) (s : State σ) :
    (l.foldl (fun s e => s.SetValidatorSigningInfo e.1 e.2) s).signingInfos =
        l.foldl (fun m e => m.insert e.1 e.2) s.signingInfos ∧
      (l.foldl (fun s e => s.SetValidatorSigningInfo e.1 e.2) s).missedBlocks = s.missedBlocks := by
  induction l generalizing s with
  | nil => exact ⟨rfl, rfl⟩
  | cons e l ih => exact ih (s.SetValidatorSigningInfo e.1 e.2)

theorem foldl_setValidatorMissedBlockBitArray (L : List MissedBlock) (a a' : Address) (s : State σ) :
    (L.foldl (fun s m => s.setValidatorMissedBlockBitArray a m.Index m.Missed) s).missedBlockBitArray a' =
        (if a' = a then (L.map fun m => (⟨m.Index, m.Missed⟩ : Σ _ : Int, Bool)).foldl
          (fun m e => m.insert e.1 e.2) (s.missedBlockBitArray a) else s.missedBlockBitArray a') ∧
      (L.foldl (fun s m => s.setValidatorMissedBlockBitArray a m.Index m.Missed) s).signingInfos = s.signingInfos := by
  induction L generalizing s with
  | nil => exact ⟨by split_ifs with h <;> simp [h], rfl⟩
  | cons m L ih =>
    obtain ⟨ih₁, ih₂⟩ := ih (s.setValidatorMissedBlockBitArray a m.Index m.Missed)
    refine ⟨?_, ih₂⟩
    rw [List.foldl_cons, ih₁]
    split_ifs with h
    · rw [missedBlockBitArray_set, if_pos rfl]
      rfl
    · rw [missedBlockBitArray_set, if_neg h]

theorem foldl_missedBlocks {l : List (Σ _ : Address, List MissedBlock)} (hl : l.NodupKeys) (s : State σ)
    (a : Address) :
    (l.foldl (fun s e => e.2.foldl (fun s m => s.setValidatorMissedBlockBitArray e.1 m.Index m.Missed) s)
      s).missedBlockBitArray a =
        (((l.dlookup a).map fun L => (L.map fun m => (⟨m.Index, m.Missed⟩ : Σ _ : Int, Bool)).foldl
          (fun m e => m.insert e.1 e.2) (s.missedBlockBitArray a)).getD (s.missedBlockBitArray a)) ∧
      (l.foldl (fun s e => e.2.foldl (fun s m => s.setValidatorMissedBlockBitArray e.1 m.Index m.Missed) s)
        s).signingInfos = s.signingInfos := by
  induction l generalizing s with
  | nil => exact ⟨rfl, rfl⟩
  | cons e l ih =>
    obtain ⟨k, L⟩ := e
    obtain ⟨hk, hl⟩ := List.nodupKeys_cons.mp hl
    obtain ⟨ih₁, ih₂⟩ := ih hl (L.foldl (fun s m => s.setValidatorMissedBlockBitArray k m.Index m.Missed) s)
    obtain ⟨hbits, hinfos⟩ := foldl_setValidatorMissedBlockBitArray L k a s
    refine ⟨?_, ih₂.trans hinfos⟩
    rw [List.foldl_cons, ih₁, hbits]
    by_cases ha : a = k
    · subst ha
      rw [List.dlookup_eq_none.mpr hk, if_pos rfl, List.dlookup_cons_eq]
      rfl
    · rw [if_neg ha, List.dlookup_cons_ne _ _ ha]

/-- A new chain's store imports valid genesis data: the params, the signing infos, and for each
address the bits of its list. -/
theorem InitGenesis_eq_ok {data : GenesisState} (hp : data.Params.Valid) (p : Params) (t : σ) :
    ∃ s', InitGenesis sk data (genesisState p t) = .ok s' ∧ s'.params = data.Params ∧
      (∀ a, s'.GetValidatorSigningInfo a = data.SigningInfos.lookup a) ∧
      ∀ a, s'.missedBlockBitArray a = ((data.MissedBlocks.lookup a).map fun L =>
        (L.map fun m => (⟨m.Index, m.Missed⟩ : Σ _ : Int, Bool)).foldl (fun m e => m.insert e.1 e.2) ∅).getD ∅ := by
  unfold InitGenesis SetParamSet
  dsimp only
  rw [Params.Validate_eq_ok.mpr hp]
  set s₁ := (sk.IterateValidators (genesisState p t).staking).foldl
    (fun s v => s.addPubkey v.ConsAddress) (genesisState p t) with hs₁
  set s₂ := data.SigningInfos.entries.foldl (fun s e => s.SetValidatorSigningInfo e.1 e.2) s₁ with hs₂
  have h₁ := foldl_addPubkey_store (sk.IterateValidators (genesisState p t).staking) (genesisState p t)
  have h₂ := foldl_SetValidatorSigningInfo data.SigningInfos.entries s₁
  have h₃ := foldl_missedBlocks data.MissedBlocks.nodupKeys s₂
  refine ⟨_, rfl, rfl, fun a => ?_, fun a => ?_⟩
  · change AList.lookup a (List.foldl _ s₂ data.MissedBlocks.entries).signingInfos = _
    rw [(h₃ a).2, h₂.1, h₁.1, AList.lookup_foldl_insert data.SigningInfos.nodupKeys]
    exact Option.or_none
  · change (List.foldl _ s₂ data.MissedBlocks.entries).missedBlockBitArray a = _
    have hempty : s₂.missedBlockBitArray a = ∅ := by
      unfold missedBlockBitArray
      rw [h₂.2, h₁.2]
      rfl
    rw [(h₃ a).1, hempty]
    rfl

end Import

/-! ### The round trip -/

section Roundtrip

variable {sk : StakingKeeper σ} {s s' : State σ} {data : GenesisState} {p : Params} {t : σ}

/-- Importing the export of a consistent store into a new chain, with any staking state, gives
back its params, every signing info and every bit of every array: the export reads the window,
which holds all the bits there are. -/
theorem Consistent.roundtrip (hc : Consistent s) (hexport : ExportGenesis s = .ok data)
    (himport : InitGenesis sk data (genesisState p t) = .ok s') :
    s'.params = s.params ∧ (∀ a, s'.GetValidatorSigningInfo a = s.GetValidatorSigningInfo a) ∧
      ∀ a j, (s'.missedBlockBitArray a).lookup j = (s.missedBlockBitArray a).lookup j := by
  obtain ⟨data', hexport', hparams, hinfos, hmissed⟩ := ExportGenesis_eq_ok hc.addrLen
  obtain rfl : data' = data := Except.ok.inj (hexport'.symm.trans hexport)
  obtain ⟨s'', himport', hparams', hinfos', hmissed'⟩ := InitGenesis_eq_ok sk (hparams ▸ hc.valid) p t
  obtain rfl : s'' = s' := Except.ok.inj (himport'.symm.trans himport)
  refine ⟨hparams'.trans hparams, fun a => (hinfos' a).trans (hinfos a), fun a j => ?_⟩
  rw [hmissed', hmissed]
  cases hinfo : s.GetValidatorSigningInfo a with
  | none =>
    -- no signing info, no bits
    cases hj : (s.missedBlockBitArray a).lookup j with
    | none => rfl
    | some b =>
      obtain ⟨⟨i, hi⟩, -⟩ := hc.bits a j b hj
      rw [hinfo] at hi
      cases hi
  | some info =>
    rw [Option.map_some, Option.map_some, Option.getD_some,
      AList.lookup_foldl_insert (nodupKeys_map_missedBlocksOf s a), AList.lookup_empty, Option.or_none]
    exact dlookup_missedBlocksOf (fun j b hj => (hc.bits a j b hj).2) j

theorem Consistent.regenesis (hc : Consistent s) (hexport : ExportGenesis s = .ok data)
    (himport : InitGenesis sk data (genesisState p t) = .ok s') : Consistent s' :=
  have ⟨hp, hi, hm⟩ := hc.roundtrip hexport himport
  hc.of_store hp hi hm

end Roundtrip

end Slashing

end Dipper
