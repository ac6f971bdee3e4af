import Dipper.Vm.Interp.Interpreter

/-!
# The memory fee

`memoryGasCost` charges the quadratic fee of the words a memory grows to and records
it as paid. The invariant `MemInv` (whole words, and their fee paid) makes each fee
exactly the difference of the fees of the new and the old size, never a wrapped
negative, and the interpreter's resize to the charged size keeps it. Every dynamic
gas of the table either charges its row's memory size through `memoryGasCost` first
or, for the rows without one, leaves the memory alone; `RowMem` says so of a row.
-/

namespace Dipper

open StateExcept

theorem u64_sub_of_le {a b : Nat} (h : b ≤ a) (ha : a < 2^64) : u64 ((a : Int) - b) = a - b := by
  unfold u64; omega

theorem memFee_mono {a b : Nat} (h : a ≤ b) : memFee a ≤ memFee b := by
  unfold memFee
  have := Nat.div_le_div_right (c := QuadCoeffDiv) (Nat.mul_le_mul h h)
  have := Nat.mul_le_mul_right MemoryGas h
  omega

theorem memFee_lt {w : Nat} (h : w < 2^32) : memFee w < 2^64 := by
  unfold memFee MemoryGas QuadCoeffDiv
  have : w * w < 2^32 * 2^32 := Nat.mul_lt_mul'' h h
  omega

theorem toWordSize_eq {size : Nat} (h : size < 2^64) : toWordSize size = (size + 31) / 32 := by
  unfold toWordSize MaxUint64
  split <;> omega

/-- The memory invariant: whole words, and the fee of its words paid. -/
structure MemInv (m : Memory) : Prop where
  aligned : 32 ∣ m.Len
  paid : m.lastGasCost = memFee (m.Len / 32)

theorem MemInv.NewMemory : MemInv Memory.NewMemory := ⟨by decide, by decide⟩

theorem memoryGasCost_fee {m m' : Memory} {size fee : Nat} (hm : MemInv m)
    (hc : memoryGasCost m size = (m', .ok fee)) :
    m'.Len = m.Len ∧ m'.lastGasCost = memFee (max (m.Len / 32) (toWordSize size)) ∧
      m'.lastGasCost = m.lastGasCost + fee := by
  unfold memoryGasCost at hc
  dsimp only at hc
  split_ifs at hc with h0 hbig hgrow
  · cases hc
    subst h0
    simp [toWordSize, hm.paid]
  · cases hc
  · -- the memory grows: the new fee is paid, and it is at least the old one
    cases hc
    have hw : toWordSize size < 2^32 := by rw [toWordSize_eq (by omega)]; omega
    have hlt : m.Len / 32 < toWordSize size := by omega
    have hmono := memFee_mono hlt.le
    have hfee := memFee_lt hw
    refine ⟨rfl, by rw [max_eq_right hlt.le]; rfl, ?_⟩
    have htotal : toWordSize size * MemoryGas + toWordSize size * toWordSize size / QuadCoeffDiv =
        memFee (toWordSize size) := rfl
    show memFee _ = _
    rw [htotal, hm.paid, u64_sub_of_le hmono hfee]
    omega
  · cases hc
    have hle : toWordSize size ≤ m.Len / 32 := by omega
    exact ⟨rfl, by rw [max_eq_left hle, hm.paid], rfl⟩

theorem memoryGasCost_size {m m' : Memory} {size fee : Nat}
    (hc : memoryGasCost m size = (m', .ok fee)) : size ≤ 0x1FFFFFFFE0 := by
  unfold memoryGasCost at hc
  dsimp only at hc
  split_ifs at hc <;> first | omega | cases hc

theorem MemInv.resize {m m' : Memory} {size fee : Nat} (hm : MemInv m) (hsize : 32 ∣ size)
    (hc : memoryGasCost m size = (m', .ok fee)) : MemInv (if size > 0 then m'.Resize size else m') := by
  obtain ⟨hlen, hpaid, -⟩ := memoryGasCost_fee hm hc
  have hbound := memoryGasCost_size hc
  have haligned := hm.aligned
  rw [toWordSize_eq (by omega)] at hpaid
  split
  · refine ⟨?_, ?_⟩
    · rw [Memory.Resize_Len, hlen]; omega
    · rw [Memory.Resize_lastGasCost, hpaid, Memory.Resize_Len, hlen]
      congr 1
      omega
  · refine ⟨hlen ▸ haligned, ?_⟩
    rw [hpaid, hlen]
    congr 1
    omega

theorem memoryGas_ok {mem : Memory} {size fee : Nat} (h : (memoryGas mem size).2 = .ok fee) :
    memoryGasCost mem size = ((memoryGas mem size).1, .ok fee) := by
  unfold memoryGas at h ⊢
  rcases hmc : memoryGasCost mem size with ⟨m, r⟩
  rw [hmc] at h
  cases r with
  | error e => cases h
  | ok a => cases h; rfl

/-- A dynamic gas that charges the memory expansion to `memorySize`: whenever it
succeeds, the memory it returns is the one `memoryGasCost` computed. -/
def ChargesMemory (g : GasFn) : Prop :=
  ∀ env contract stack mem memorySize, Always (g env contract stack mem memorySize) fun p =>
    ∀ cost, p.2 = .ok cost → ∃ fee, memoryGasCost mem memorySize = (p.1, .ok fee)

/-- A dynamic gas that leaves the memory alone. -/
def KeepsMemory (g : GasFn) : Prop :=
  ∀ env contract stack mem memorySize, Always (g env contract stack mem memorySize) fun p => p.1 = mem

theorem memoryGas_then {mem : Memory} {size : Nat} {f : Nat → Except VmError Nat} {cost : Nat}
    (h : (memoryGas mem size).2.bind f = .ok cost) :
    ∃ fee, memoryGasCost mem size = ((memoryGas mem size).1, .ok fee) := by
  cases hr : (memoryGas mem size).2 with
  | error e => rw [hr] at h; cases h
  | ok fee => exact ⟨fee, memoryGas_ok hr⟩

theorem memoryWordGas_charges (stackpos perWord : Nat) : ChargesMemory (memoryWordGas stackpos perWord) :=
  fun _ _ _ _ _ => Always.pure fun _ h => memoryGas_then h

theorem pureMemoryGascost_charges : ChargesMemory pureMemoryGascost :=
  fun _ _ _ _ _ => Always.pure fun _ h => ⟨_, memoryGas_ok h⟩

theorem makeGasLog_charges (n : Nat) : ChargesMemory (makeGasLog n) := by
  intro env contract stack mem memorySize
  unfold makeGasLog
  dsimp only
  split
  · exact Always.pure fun _ h => by cases h
  · exact Always.pure fun _ h => memoryGas_then h
theorem chargeCallGas_mem (contract : Contract) (stack : Stack) (mem : Memory) (gas : Nat) :
    Always (chargeCallGas contract stack mem gas) fun p => p.1 = mem := by
  unfold chargeCallGas
  split <;> exact Always.bind fun _ => Always.pure rfl

theorem gasCall_charges : ChargesMemory gasCall := by
  intro env contract stack mem memorySize
  unfold gasCall
  dsimp only
  split <;> refine Always.bind fun _ => ?_ <;> split
  all_goals first
    | exact Always.pure fun _ h => by cases h
    | rename_i hbind
      exact (chargeCallGas_mem contract stack _ _).mono fun p hp _ _ => hp ▸ memoryGas_then hbind

theorem gasCallCode_charges : ChargesMemory gasCallCode := by
  intro env contract stack mem memorySize
  unfold gasCallCode
  dsimp only
  split
  · exact Always.pure fun _ h => by cases h
  · rename_i fee hfee
    split
    · exact Always.pure fun _ h => by cases h
    · exact (chargeCallGas_mem contract stack _ _).mono fun p hp _ _ => hp ▸ ⟨fee, memoryGas_ok hfee⟩

theorem gasDelegateCall_charges : ChargesMemory gasDelegateCall := by
  intro env contract stack mem memorySize
  unfold gasDelegateCall
  dsimp only
  split
  · exact Always.pure fun _ h => by cases h
  · rename_i fee hfee
    exact (chargeCallGas_mem contract stack _ _).mono fun p hp _ _ => hp ▸ ⟨fee, memoryGas_ok hfee⟩

theorem gasExp_keeps : KeepsMemory gasExp := fun _ _ _ _ _ => Always.pure rfl

theorem gasSStore_keeps : KeepsMemory gasSStore := by
  intro env contract stack mem memorySize
  unfold gasSStore
  dsimp only
  refine Always.ite (fun _ => Always.pure rfl) fun _ => ?_
  refine Always.bind fun current => Always.ite (fun _ => Always.pure rfl) fun _ => ?_
  refine Always.bind fun original => ?_
  -- the refunds go to the state database; the memory passes through every branch
  have hdirty : Always (if original = BigToHash (Back stack 1) then
      (if original = Hash.zero then do sdb (CommitStateDB.AddRefund SstoreInitRefund); pure (mem, Except.ok SstoreDirtyGas)
       else do sdb (CommitStateDB.AddRefund SstoreCleanRefund); pure (mem, Except.ok SstoreDirtyGas))
      else pure (mem, Except.ok SstoreDirtyGas)) fun p : Memory × Except VmError Nat => p.1 = mem :=
    Always.ite (fun _ => Always.ite (fun _ => Always.bind fun _ => Always.pure rfl)
      fun _ => Always.bind fun _ => Always.pure rfl) fun _ => Always.pure rfl
  refine Always.ite (fun _ => Always.ite (fun _ => Always.pure rfl) fun _ => ?_) fun _ => ?_
  · exact Always.ite (fun _ => Always.bind fun _ => Always.pure rfl) fun _ => Always.pure rfl
  · refine Always.ite (fun _ => Always.ite (fun _ => Always.bind fun _ => hdirty) fun _ => ?_) fun _ => hdirty
    exact Always.ite (fun _ => Always.bind fun _ => hdirty) fun _ => hdirty

theorem gasSelfdestruct_keeps : KeepsMemory gasSelfdestruct := by
  intro env contract stack mem memorySize
  unfold gasSelfdestruct
  dsimp only
  repeat' first
    | refine Always.ite (fun _ => ?_) (fun _ => ?_)
    | refine Always.bind fun _ => ?_
    | exact Always.pure rfl

/-! ### Memory sizes -/

theorem calcMemSize64WithUint_exact {off : Int} {length64 v : Nat} (hlen : length64 < 2^64)
    (h : calcMemSize64WithUint off length64 = (v, false)) :
    (length64 = 0 ∧ v = 0) ∨ (IsUint64 off ∧ v = Uint64 off + length64 ∧ v < 2^64) := by
  unfold calcMemSize64WithUint at h
  split_ifs at h with hzero hbig
  · cases h
    exact .inl ⟨hzero, rfl⟩
  · cases h
  · simp only [Prod.mk.injEq, decide_eq_false_iff_not, not_lt] at h
    obtain ⟨hv, hno⟩ := h
    have hoff : Uint64 off < 2^64 := by unfold Uint64; omega
    subst hv
    refine .inr ⟨by simpa using hbig, ?_, u64_lt _⟩
    unfold u64 at hno ⊢
    omega

theorem calcMemSize64_exact {off l : Int} {v : Nat} (h : calcMemSize64 off l = (v, false)) :
    IsUint64 l ∧ ((Uint64 l = 0 ∧ v = 0) ∨ (IsUint64 off ∧ v = Uint64 off + Uint64 l ∧ v < 2^64)) := by
  unfold calcMemSize64 at h
  split at h
  · cases h
  · rename_i hl
    have hlen : Uint64 l < 2^64 := by unfold Uint64; omega
    exact ⟨by simpa using hl, calcMemSize64WithUint_exact hlen h⟩

theorem operationMemorySize_aligned {o : Operation} {stack : Stack} {size : Nat}
    (h : operationMemorySize o stack = some size) : 32 ∣ size ∧ (o.memorySize = none → size = 0) := by
  unfold operationMemorySize at h
  split at h
  · cases h
    exact ⟨dvd_zero 32, fun _ => rfl⟩
  · rename_i f hf
    dsimp only at h
    split at h
    · cases h
    · split at h
      · cases h
      · rename_i hover
        cases h
        rw [SafeMul_ok (by simpa using hover)]
        exact ⟨dvd_mul_left 32 _, fun h => by rw [hf] at h; cases h⟩

/-! ### The rows -/

/-- A row's dynamic gas charges the memory size the interpreter computed for it
(zero for a row without a size function) through `memoryGasCost`: whenever it
succeeds, the memory it hands on is the one `memoryGasCost` returned. -/
def RowMem (o : Operation) : Prop :=
  ∀ env contract stack mem memorySize, (o.memorySize = none → memorySize = 0) →
    Always (chargeDynamicGas env o contract stack mem memorySize) fun r =>
      ∀ c m, r = some (c, m) → ∃ fee, memoryGasCost mem memorySize = (m, .ok fee)

theorem memoryGasCost_zero (mem : Memory) : memoryGasCost mem 0 = (mem, .ok 0) := rfl

theorem RowMem.of_none {o : Operation} (hg : o.dynamicGas = none) (hsize : o.memorySize = none) :
    RowMem o := by
  intro env contract stack mem memorySize hzero
  rw [hzero hsize]
  unfold chargeDynamicGas
  rw [hg]
  exact Always.pure fun _ _ h => by cases h; exact ⟨0, memoryGasCost_zero mem⟩

theorem RowMem.of_gas {o : Operation} {g : GasFn} (hg : o.dynamicGas = some g)
    (hmem : ∀ env contract stack mem memorySize, (o.memorySize = none → memorySize = 0) →
      Always (g env contract stack mem memorySize) fun p =>
        ∀ cost, p.2 = .ok cost → ∃ fee, memoryGasCost mem memorySize = (p.1, .ok fee)) :
    RowMem o := by
  intro env contract stack mem memorySize hzero
  unfold chargeDynamicGas
  rw [hg]
  refine Always.bind_of (hmem env contract stack mem memorySize hzero) fun p hp => ?_
  obtain ⟨m, r⟩ := p
  dsimp only
  split
  · exact Always.pure fun _ _ h => by cases h
  · rename_i _ cost
    refine Always.pure fun c m' h => ?_
    obtain ⟨fee, hfee⟩ := hp cost rfl
    cases hc : contract.UseGas cost with
    | none => rw [hc] at h; cases h
    | some c' => rw [hc] at h; cases h; exact ⟨fee, hfee⟩

theorem RowMem.of_charges {o : Operation} {g : GasFn} (hg : o.dynamicGas = some g)
    (hc : ChargesMemory g) : RowMem o :=
  .of_gas hg fun env contract stack mem memorySize _ => hc env contract stack mem memorySize

theorem RowMem.of_keeps {o : Operation} {g : GasFn} (hg : o.dynamicGas = some g)
    (hsize : o.memorySize = none) (hk : KeepsMemory g) : RowMem o := by
  refine .of_gas hg fun env contract stack mem memorySize hzero => ?_
  rw [hzero hsize]
  exact (hk env contract stack mem 0).mono fun p hp _ _ => by rw [hp]; exact ⟨0, memoryGasCost_zero mem⟩

end Dipper
