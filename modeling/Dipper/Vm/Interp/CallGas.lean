import Dipper.Vm.Interp.Frame

/-!
# Gas handed across a frame boundary

No call hands back more gas than it was given. The entry points of `evm.go` return
at most their `gas` argument whenever the function that runs a contract does; an
operation that starts a frame gives its frame back at most what it passed on, and
the call operations pass on `callGasTemp`, plus the stipend when value moves, which
their dynamic gas has charged (with the value-transfer fee, which covers the
stipend). `GasSafe` packages this for one row of the table: what its execution may
hand back beyond the frame's gas is paid by its dynamic gas.
-/

namespace Dipper

open StateExcept

/-- A function that runs contracts hands back at most the gas each contract came with. -/
def RunBounded (run : RunFn) : Prop :=
  ∀ contract input readOnly, Always (run contract input readOnly) fun r => r.2.1 ≤ contract.Gas

/-! ### The entry points -/

section EntryPoints

variable (env : Env) {run : RunFn}

theorem loadCode_gas (c : Contract) (addr : Address) :
    Always (EVM.loadCode c addr) fun c' => c'.Gas = c.Gas :=
  Always.bind fun _ => Always.bind fun _ => Always.pure rfl

theorem onError_le (snapshot gasLeft : Nat) (err : VmError) :
    Always (EVM.onError snapshot gasLeft err) (· ≤ gasLeft) := by
  refine Always.bind fun _ => Always.pure ?_
  split <;> omega

theorem runFrame_gas (hrun : RunBounded run) {gas : Nat} (contract : Contract)
    (hc : contract.Gas = gas) (input : Bytes) (readOnly : Bool) (snapshot : Nat) :
    Always (do
      let (ret, gasLeft, err) ← run contract input readOnly
      match err with
      | none => return (ret, gasLeft, none)
      | some e => return (ret, ← EVM.onError snapshot gasLeft e, some e)) fun r => r.2.1 ≤ gas := by
  refine Always.bind_of (hrun contract input readOnly) fun r hr => ?_
  obtain ⟨ret, gasLeft, err⟩ := r
  dsimp only at hr
  cases err with
  | none => exact Always.pure (hc ▸ hr)
  | some e =>
    exact Always.bind_of (onError_le _ _ e) fun g hg => Always.pure (by dsimp only; omega)

theorem Call_gas (hrun : RunBounded run) (caller : ContractRef) (addr : Address) (input : Bytes)
    (gas : Nat) (value : Int) :
    Always (EVM.Call env run caller addr input gas value) fun r => r.2.1 ≤ gas := by
  unfold EVM.Call
  refine Always.bind fun st => ?_
  -- recursion, depth and balance checks return the gas untouched
  refine Always.ite (fun _ => Always.pure le_rfl) fun _ => Always.ite (fun _ => Always.pure le_rfl) fun _ => ?_
  refine Always.bind fun _ => Always.ite (fun _ => Always.pure le_rfl) fun _ => ?_
  refine Always.bind fun _ => Always.bind fun snapshot => Always.bind fun _ => ?_
  refine Always.ite (fun _ => Always.ite (fun _ => Always.pure le_rfl) fun _ => ?_) fun _ => ?_
  · exact Always.bind fun _ => Always.bind fun _ =>
      Always.bind_of (loadCode_gas _ _) fun c hc => runFrame_gas hrun c hc _ _ _
  · exact Always.bind fun _ =>
      Always.bind_of (loadCode_gas _ _) fun c hc => runFrame_gas hrun c hc _ _ _

theorem CallCode_gas (hrun : RunBounded run) (caller : ContractRef) (addr : Address)
    (input : Bytes) (gas : Nat) (value : Int) :
    Always (EVM.CallCode env run caller addr input gas value) fun r => r.2.1 ≤ gas := by
  unfold EVM.CallCode
  refine Always.bind fun st => ?_
  refine Always.ite (fun _ => Always.pure le_rfl) fun _ => Always.ite (fun _ => Always.pure le_rfl) fun _ => ?_
  refine Always.bind fun _ => Always.ite (fun _ => Always.pure le_rfl) fun _ => ?_
  exact Always.bind fun _ => Always.bind fun _ =>
    Always.bind_of (loadCode_gas _ _) fun c hc => runFrame_gas hrun c hc _ _ _

theorem DelegateCall_gas (hrun : RunBounded run) (caller : ContractRef) (addr : Address)
    (input : Bytes) (gas : Nat) :
    Always (EVM.DelegateCall env run caller addr input gas) fun r => r.2.1 ≤ gas := by
  unfold EVM.DelegateCall
  refine Always.bind fun st => ?_
  refine Always.ite (fun _ => Always.pure le_rfl) fun _ => Always.ite (fun _ => Always.pure le_rfl) fun _ => ?_
  refine Always.bind fun _ => Always.bind fun _ => ?_
  dsimp only
  split
  · -- the delegate keeps the gas of the contract it was made from
    rename_i c hc
    rw [pure_bind]
    have hgas : c.Gas = gas := by
      unfold Contract.AsDelegate at hc
      split at hc <;> cases hc
      rfl
    exact Always.bind_of (loadCode_gas _ _) fun c' hc' => runFrame_gas hrun c' (hc'.trans hgas) _ _ _
  · rename_i msg _
    have hpanic : Always (vmPanic msg : VM Contract) fun _ => False := Always.throw
    exact Always.bind_of hpanic fun _ h => h.elim

theorem StaticCall_gas (hrun : RunBounded run) (caller : ContractRef) (addr : Address)
    (input : Bytes) (gas : Nat) :
    Always (EVM.StaticCall env run caller addr input gas) fun r => r.2.1 ≤ gas := by
  unfold EVM.StaticCall
  refine Always.bind fun st => ?_
  refine Always.ite (fun _ => Always.pure le_rfl) fun _ => Always.ite (fun _ => Always.pure le_rfl) fun _ => ?_
  refine Always.bind fun _ => Always.bind fun _ => ?_
  exact Always.bind_of (loadCode_gas _ _) fun c hc =>
    Always.bind fun _ => runFrame_gas hrun c hc _ _ _

theorem create_gas (hrun : RunBounded run) (caller : ContractRef) (code : Bytes) (codeHash : Hash)
    (gas : Nat) (value : Int) (address : Address) :
    Always (EVM.create env run caller code codeHash gas value address) fun r => r.2.2.1 ≤ gas := by
  unfold EVM.create
  refine Always.bind fun st => ?_
  refine Always.ite (fun _ => Always.pure le_rfl) fun _ => ?_
  refine Always.bind fun _ => Always.ite (fun _ => Always.pure le_rfl) fun _ => ?_
  refine Always.bind fun _ => Always.bind fun _ => Always.bind fun _ => ?_
  -- an address collision burns all the gas
  refine Always.ite (fun _ => Always.pure (Nat.zero_le _)) fun _ => ?_
  refine Always.bind fun snapshot => Always.bind fun _ => Always.bind fun _ => Always.bind fun _ => ?_
  dsimp only
  refine Always.ite (fun _ => Always.pure le_rfl) fun _ => ?_
  refine Always.bind_of (hrun _ _ _) fun r hr => ?_
  obtain ⟨ret, gasLeft, err⟩ := r
  simp only [Contract.NewContract] at hr
  -- the code is paid for per byte; every error reverts and may burn the rest
  split
  · split
    · refine Always.bind fun _ => ?_
      rw [pure_bind]
      dsimp only
      split
      · exact Always.bind_of (onError_le _ _ _) fun g hg => Always.pure (by dsimp only; omega)
      · rw [pure_bind]; exact Always.pure (by dsimp only; omega)
    · rw [pure_bind]
      exact Always.bind_of (onError_le _ _ _) fun g hg => Always.pure (by dsimp only; omega)
  · rw [pure_bind]
    dsimp only
    split
    · exact Always.bind_of (onError_le _ _ _) fun g hg => Always.pure (by dsimp only; omega)
    · split
      · exact Always.bind_of (onError_le _ _ _) fun g hg => Always.pure (by dsimp only; omega)
      · rw [pure_bind]; exact Always.pure (by dsimp only; omega)

theorem Create_gas (hrun : RunBounded run) (caller : ContractRef) (code : Bytes) (gas : Nat)
    (value : Int) : Always (EVM.Create env run caller code gas value) fun r => r.2.2.1 ≤ gas :=
  Always.bind fun _ => create_gas env hrun _ _ _ _ _ _

theorem Create2_gas (hrun : RunBounded run) (caller : ContractRef) (code : Bytes) (gas : Nat)
    (endowment salt : Int) :
    Always (EVM.Create2 env run caller code gas endowment salt) fun r => r.2.2.1 ≤ gas :=
  create_gas env hrun _ _ _ _ _ _

end EntryPoints

/-! ### The operations that start a frame -/

section Operations

variable (env : Env) {run : RunFn}

theorem callReturn_gas (fr : Frame) (pops : Nat) (retOffset retSize : Int) (ret : Bytes)
    (returnGas : Nat) (err : Option VmError) :
    Always (callReturn fr pops retOffset retSize (ret, returnGas, err)) fun r =>
      r.1.contract.Gas ≤ fr.contract.Gas + returnGas := by
  dsimp only [callReturn]
  split
  · exact Always.bind fun _ => Always.pure (u64_add_le _ _)
  · rw [pure_bind]
    exact Always.pure (u64_add_le _ _)

/-- What a call may hand its frame back: `callGasTemp`, and the stipend when the word
read as the value is not zero. -/
def callReserve (s : EVMState) (stack : Stack) : Nat :=
  s.callGasTemp + if Sign (Back stack 2) ≠ 0 then CallStipend else 0

theorem stipend_le (s : EVMState) (stack : Stack) :
    (if Sign (U256 (Back stack 2)) ≠ 0 then u64 (s.callGasTemp + CallStipend) else s.callGasTemp) ≤
      callReserve s stack := by
  unfold callReserve
  split_ifs with h256 h
  · exact u64_le _
  · exact absurd (Sign_of_Sign_U256 h256) h
  · omega
  · omega

theorem opCall_gas (hrun : RunBounded run) (fr : Frame) (s : EVMState) :
    wp (opCall env run fr) (fun r _ => r.1.contract.Gas ≤ fr.contract.Gas + callReserve s fr.stack)
      (fun _ => True) s := by
  unfold opCall
  rw [wp_bind, wp_get]
  refine wp_of_always (Always.bind fun _ => Always.bind_of (Call_gas env hrun _ _ _ _ _) fun res hres => ?_) s
  obtain ⟨ret, returnGas, err⟩ := res
  refine (callReturn_gas fr 7 _ _ ret returnGas err).mono fun r hr => ?_
  have := stipend_le s fr.stack
  dsimp only at hres
  omega

theorem opCallCode_gas (hrun : RunBounded run) (fr : Frame) (s : EVMState) :
    wp (opCallCode env run fr) (fun r _ => r.1.contract.Gas ≤ fr.contract.Gas + callReserve s fr.stack)
      (fun _ => True) s := by
  unfold opCallCode
  rw [wp_bind, wp_get]
  refine wp_of_always
    (Always.bind fun _ => Always.bind_of (CallCode_gas env hrun _ _ _ _ _) fun res hres => ?_) s
  obtain ⟨ret, returnGas, err⟩ := res
  refine (callReturn_gas fr 7 _ _ ret returnGas err).mono fun r hr => ?_
  have := stipend_le s fr.stack
  dsimp only at hres
  omega

theorem opDelegateCall_gas (hrun : RunBounded run) (fr : Frame) (s : EVMState) :
    wp (opDelegateCall env run fr) (fun r _ => r.1.contract.Gas ≤ fr.contract.Gas + s.callGasTemp)
      (fun _ => True) s := by
  unfold opDelegateCall
  rw [wp_bind, wp_get]
  refine wp_of_always
    (Always.bind fun _ => Always.bind_of (DelegateCall_gas env hrun _ _ _ _) fun res hres => ?_) s
  obtain ⟨ret, returnGas, err⟩ := res
  refine (callReturn_gas fr 6 _ _ ret returnGas err).mono fun r hr => ?_
  dsimp only at hres
  omega

theorem opStaticCall_gas (hrun : RunBounded run) (fr : Frame) (s : EVMState) :
    wp (opStaticCall env run fr) (fun r _ => r.1.contract.Gas ≤ fr.contract.Gas + s.callGasTemp)
      (fun _ => True) s := by
  unfold opStaticCall
  rw [wp_bind, wp_get]
  refine wp_of_always
    (Always.bind fun _ => Always.bind_of (StaticCall_gas env hrun _ _ _ _) fun res hres => ?_) s
  obtain ⟨ret, returnGas, err⟩ := res
  refine (callReturn_gas fr 6 _ _ ret returnGas err).mono fun r hr => ?_
  dsimp only at hres
  omega

theorem opCreate_gas (hrun : RunBounded run) (fr : Frame) :
    Always (opCreate env run fr) fun r => r.1.contract.Gas ≤ fr.contract.Gas := by
  refine Always.bind fun _ => Always.bind_of (Create_gas env hrun _ _ _ _) fun res hres => ?_
  obtain ⟨ret, addr, returnGas, err⟩ := res
  refine Always.pure ?_
  have := u64_add_le (fr.contract.Gas - (fr.contract.Gas - fr.contract.Gas / 64)) returnGas
  simp only [Frame.push_contract, Frame.pop_contract, Frame.withGas_gas] at hres ⊢
  omega

theorem opCreate2_gas (hrun : RunBounded run) (fr : Frame) :
    Always (opCreate2 env run fr) fun r => r.1.contract.Gas ≤ fr.contract.Gas := by
  refine Always.bind fun _ => Always.bind_of (Create2_gas env hrun _ _ _ _ _) fun res hres => ?_
  obtain ⟨ret, addr, returnGas, err⟩ := res
  refine Always.pure ?_
  have := u64_add_le (fr.contract.Gas - (fr.contract.Gas - fr.contract.Gas / 64)) returnGas
  simp only [Frame.push_contract, Frame.pop_contract, Frame.withGas_gas] at hres ⊢
  omega

end Operations

/-! ### Dynamic gas -/

theorem addGas_ok {x y g : Nat} (h : addGas x y = .ok g) :
    ¬ y > MaxUint64 - x ∧ g = u64 ((x : Int) + y) := by
  by_cases hover : y > MaxUint64 - x
  · simp [addGas, SafeAdd, hover] at h
  · simp only [addGas, SafeAdd, hover, decide_false, Bool.false_eq_true, if_false, Except.ok.injEq] at h
    exact ⟨hover, h.symm⟩

theorem addGas_lt {x y g : Nat} (h : addGas x y = .ok g) : g < 2^64 := by
  rw [(addGas_ok h).2]
  exact u64_lt _

theorem addGas_eq {x y g : Nat} (hx : x < 2^64) (h : addGas x y = .ok g) : g = x + y := by
  obtain ⟨hover, rfl⟩ := addGas_ok h
  unfold MaxUint64 at hover
  unfold u64
  omega

theorem addGas_ge_right {x y g : Nat} (h : addGas x y = .ok g) : y ≤ g := by
  obtain ⟨hover, rfl⟩ := addGas_ok h
  unfold MaxUint64 at hover
  unfold u64
  omega

theorem chargeCallGas_paid (contract : Contract) (stack : Stack) (mem : Memory) (gas : Nat)
    (s : EVMState) :
    wp (chargeCallGas contract stack mem gas)
      (fun r s' => ∀ cost, r.2 = .ok cost →
        s'.callGasTemp ≤ cost ∧ (gas < 2^64 → cost = gas + s'.callGasTemp)) (fun _ => True) s := by
  unfold chargeCallGas
  split
  · simp
  · simp only [wp_bind, wp_modify, wp_pure]
    intro cost hcost
    exact ⟨addGas_ge_right hcost, fun hgas => addGas_eq hgas hcost⟩

theorem bind_addGas_ok {r : Except VmError Nat} {gas g : Nat} (h : r.bind (addGas gas) = .ok g)
    (hgas : gas < 2^64) : gas ≤ g ∧ g < 2^64 := by
  cases r with
  | error e => cases h
  | ok m =>
    have h' : addGas gas m = .ok g := h
    exact ⟨(addGas_eq hgas h').symm ▸ Nat.le_add_right gas m, addGas_lt h'⟩

theorem chargeCall_paid (contract : Contract) (stack : Stack) (mem : Memory) (r : Except VmError Nat)
    (fee : Nat) (hfee : fee < 2^64) (hcover : (if Sign (Back stack 2) ≠ 0 then CallStipend else 0) ≤ fee)
    (s : EVMState) :
    wp (match r.bind (addGas fee) with
        | .error e => pure (mem, .error e)
        | .ok gas => chargeCallGas contract stack mem gas)
      (fun r s' => ∀ cost, r.2 = .ok cost → callReserve s' stack ≤ cost) (fun _ => True) s := by
  split
  · simp
  · rename_i g hg
    obtain ⟨hle, hlt⟩ := bind_addGas_ok hg hfee
    refine wp_mono (fun r s' h cost hcost => ?_) (fun _ h => h) (chargeCallGas_paid contract stack mem g s)
    have := (h cost hcost).2 hlt
    unfold callReserve
    omega

theorem gasCall_paid (env : Env) (contract : Contract) (stack : Stack) (mem : Memory) (size : Nat)
    (s : EVMState) :
    wp (gasCall env contract stack mem size)
      (fun r s' => ∀ cost, r.2 = .ok cost → callReserve s' stack ≤ cost) (fun _ => True) s := by
  unfold gasCall
  dsimp only
  -- whether the value is zero decides both the transfer fee and the stipend
  split
  · rename_i hv
    refine wp_bind_of_forall fun newAccount s1 => chargeCall_paid _ _ _ _ _ ?_ ?_ s1
    · unfold CallNewAccountGas CallValueTransferGas; split <;> omega
    · rw [if_pos hv]; unfold CallStipend CallValueTransferGas; omega
  · rename_i hv
    refine wp_bind_of_forall fun newAccount s1 => chargeCall_paid _ _ _ _ _ ?_ ?_ s1
    · unfold CallNewAccountGas; split <;> omega
    · rw [if_neg hv]; omega
theorem gasCallCode_paid (env : Env) (contract : Contract) (stack : Stack) (mem : Memory)
    (size : Nat) (s : EVMState) :
    wp (gasCallCode env contract stack mem size)
      (fun r s' => ∀ cost, r.2 = .ok cost → callReserve s' stack ≤ cost) (fun _ => True) s := by
  unfold gasCallCode
  dsimp only
  split
  · simp
  · rename_i memoryGas _
    split
    · simp
    · rename_i g hg
      -- the transfer fee, which covers the stipend, is part of what is added
      have hfee : (if Sign (Back stack 2) ≠ 0 then CallValueTransferGas else 0) < 2^64 := by
        unfold CallValueTransferGas; split <;> omega
      have hcover : (if Sign (Back stack 2) ≠ 0 then CallStipend else 0) ≤
          if Sign (Back stack 2) ≠ 0 then CallValueTransferGas else 0 := by
        unfold CallStipend CallValueTransferGas; split <;> omega
      have hg' := addGas_eq hfee hg
      refine wp_mono (fun r s' h cost hcost => ?_) (fun _ h => h)
        (chargeCallGas_paid contract stack _ g s)
      have := (h cost hcost).2 (addGas_lt hg)
      unfold callReserve
      omega

theorem gasDelegateCall_paid (env : Env) (contract : Contract) (stack : Stack) (mem : Memory)
    (size : Nat) (s : EVMState) :
    wp (gasDelegateCall env contract stack mem size)
      (fun r s' => ∀ cost, r.2 = .ok cost → s'.callGasTemp ≤ cost) (fun _ => True) s := by
  unfold gasDelegateCall
  dsimp only
  split
  · simp
  · exact wp_mono (fun r s' h cost hcost => (h cost hcost).1) (fun _ h => h)
      (chargeCallGas_paid contract stack _ _ s)

/-! ### What a row may hand back -/

theorem UseGas_map {contract c : Contract} {cost : Nat} {mem m : Memory}
    (h : (contract.UseGas cost).map (fun c => (c, mem)) = some (c, m)) : c.Gas + cost = contract.Gas := by
  cases hc : contract.UseGas cost with
  | none => rw [hc] at h; cases h
  | some c' =>
    rw [hc] at h
    cases h
    exact Contract.UseGas_Gas hc

theorem chargeDynamicGas_le (env : Env) (o : Operation) (contract : Contract) (stack : Stack)
    (mem : Memory) (memorySize : Nat) :
    Always (chargeDynamicGas env o contract stack mem memorySize) fun r =>
      ∀ c m, r = some (c, m) → c.Gas ≤ contract.Gas := by
  unfold chargeDynamicGas
  split
  · exact Always.pure fun c m h => by cases h; exact le_rfl
  · refine Always.bind fun r => ?_
    dsimp only
    split
    · exact Always.pure fun _ _ h => by cases h
    · exact Always.pure fun c m h => by have := UseGas_map h; omega

theorem chargeDynamicGas_paid {env : Env} {o : Operation} {g : GasFn} (hg : o.dynamicGas = some g)
    {reserve : EVMState → Stack → Nat} {contract : Contract} {stack : Stack} {mem : Memory}
    {memorySize : Nat} {s : EVMState}
    (hpaid : wp (g env contract stack mem memorySize)
      (fun r s' => ∀ cost, r.2 = .ok cost → reserve s' stack ≤ cost) (fun _ => True) s) :
    wp (chargeDynamicGas env o contract stack mem memorySize)
      (fun r s' => ∀ c m, r = some (c, m) → c.Gas + reserve s' stack ≤ contract.Gas) (fun _ => True) s := by
  unfold chargeDynamicGas
  rw [hg]
  dsimp only
  rw [wp_bind]
  refine wp_mono (fun r s' h => ?_) (fun _ h => h) hpaid
  obtain ⟨mem', r⟩ := r
  dsimp only
  split
  · intro _ _ h; cases h
  · rename_i _ cost
    intro c m hcm
    have := UseGas_map hcm
    have := h cost rfl
    omega

/-- A row is gas safe when what its execution may hand its frame back beyond the
frame's own gas, as it reads in the state it starts in, is charged by its dynamic
gas, as read in the state that leaves. -/
def GasSafe (o : Operation) : Prop :=
  ∃ reserve : EVMState → Stack → Nat,
    (∀ env contract stack mem memorySize s,
      wp (chargeDynamicGas env o contract stack mem memorySize)
        (fun r s' => ∀ c m, r = some (c, m) → c.Gas + reserve s' stack ≤ contract.Gas) (fun _ => True) s) ∧
    (∀ env run, RunBounded run → ∀ fr s,
      wp (o.execute env run fr) (fun r _ => r.1.contract.Gas ≤ fr.contract.Gas + reserve s fr.stack)
        (fun _ => True) s)

theorem GasSafe.of_frameGas {o : Operation}
    (h : ∀ env run, RunBounded run → ∀ fr,
      Always (o.execute env run fr) fun r => r.1.contract.Gas ≤ fr.contract.Gas) : GasSafe o := by
  refine ⟨fun _ _ => 0, fun env contract stack mem memorySize s => ?_, fun env run hrun fr s => ?_⟩
  · exact wp_of_always ((chargeDynamicGas_le env o contract stack mem memorySize).mono
      fun r h c m hr => h c m hr) s
  · exact wp_of_always (h env run hrun fr) s

theorem GasSafe.of_keeps {o : Operation} {forward : Bool} (hk : ExecKeeps forward o.execute) :
    GasSafe o :=
  .of_frameGas fun env run _ fr => (hk env run fr).mono fun r h => by rw [h.1]

theorem GasSafe.of_paid {o : Operation} {g : GasFn} (hg : o.dynamicGas = some g)
    (reserve : EVMState → Stack → Nat)
    (hpaid : ∀ env contract stack mem memorySize s, wp (g env contract stack mem memorySize)
      (fun r s' => ∀ cost, r.2 = .ok cost → reserve s' stack ≤ cost) (fun _ => True) s)
    (hexec : ∀ env run, RunBounded run → ∀ fr s,
      wp (o.execute env run fr) (fun r _ => r.1.contract.Gas ≤ fr.contract.Gas + reserve s fr.stack)
        (fun _ => True) s) : GasSafe o :=
  ⟨reserve, fun _ _ _ _ _ _ => chargeDynamicGas_paid hg (hpaid _ _ _ _ _ _), hexec⟩

end Dipper
