import Dipper.Vm.Interp.Rows
import Dipper.Vm.StateTransition

/-!
# No gas is created

Along every run of the interpreter a frame's gas only goes down: each iteration of
the loop leaves the frame, or stops it, with at most the gas it had, given that the
frames it starts hand back at most what they were given. With the interpreter as the
function that runs contracts this holds at every level of the call tree, by
induction on the fuel, so every entry point of `evm.go` returns at most its gas, and
the gas `TransitionCSDB` charges for the VM is at most the VM's gas limit.
-/

namespace Dipper

open StateExcept

/-- A step hands its frame back at most the gas it had. -/
def StepGasLe (fr : Frame) : Step → Prop
  | .next fr' => fr'.contract.Gas ≤ fr.contract.Gas
  | .done _ gas _ => gas ≤ fr.contract.Gas

theorem afterExecute_gas {o : Operation} {fr fr₀ : Frame} {res : Bytes} {err : Option VmError}
    (h : fr.contract.Gas ≤ fr₀.contract.Gas) : StepGasLe fr₀ (afterExecute o fr res err) := by
  have hc : (if o.returns then { fr with returnData := res } else fr).contract = fr.contract := by
    split <;> rfl
  unfold afterExecute
  dsimp only
  split
  · simpa only [StepGasLe, hc] using h
  · split_ifs <;> simpa only [StepGasLe, hc] using h

section Interpreter

variable (env : Env) {run : RunFn}

theorem step_gas (hrun : RunBounded run) (fr : Frame) : Always (step env run fr) (StepGasLe fr) := by
  unfold step
  dsimp only
  refine Always.ite (fun _ => Always.pure le_rfl) fun _ => ?_
  refine Always.ite (fun _ => Always.pure le_rfl) fun _ => ?_
  refine Always.ite (fun _ => Always.pure le_rfl) fun _ => ?_
  refine Always.bind fun _ => Always.ite (fun _ => Always.pure le_rfl) fun _ => ?_
  split
  · rename_i contract hcontract
    have hc : contract.Gas ≤ fr.contract.Gas := by
      have := Contract.UseGas_Gas hcontract
      omega
    split
    · rename_i memorySize _
      obtain ⟨reserve, hdyn, hexec⟩ := (istanbulInstructionSet_spec (fr.contract.GetOp fr.pc)).gas
      -- the reserve is read in the state the dynamic gas leaves, where the execution starts
      refine Always.bind_wp (hdyn env contract fr.stack fr.mem memorySize) fun r s hr => ?_
      split
      · rename_i c mem
        have hcm := hr c mem rfl
        rw [wp_bind]
        refine wp_mono (fun r' _ h' => ?_) (fun _ h => h) (hexec env run hrun _ s)
        refine afterExecute_gas ?_
        dsimp only at h'
        omega
      · exact (wp_pure _).mpr hc
    · exact Always.pure hc
  · exact Always.pure le_rfl

theorem loop_gas (hrun : RunBounded run) (fuel : Nat) (fr : Frame) :
    Always (loop env run fuel fr) fun r => r.2.1 ≤ fr.contract.Gas := by
  induction fuel generalizing fr with
  | zero => exact Always.throw
  | succ fuel ih =>
    refine Always.bind_of (step_gas env hrun fr) fun r hr => ?_
    cases r with
    | next fr' => exact (ih fr').mono fun _ h => h.trans hr
    | done ret gas err => exact Always.pure hr

theorem Run_gas (hrun : RunBounded run) (fuel : Nat) (contract : Contract) (input : Bytes)
    (readOnly : Bool) :
    Always (Run env run fuel contract input readOnly) fun r => r.2.1 ≤ contract.Gas := by
  have hbody : Always (if contract.Code.isEmpty then pure ([], contract.Gas, none)
      else loop env run fuel ⟨0, [], Memory.NewMemory, { contract with Input := input }, []⟩)
      fun r : Bytes × Nat × Option VmError => r.2.1 ≤ contract.Gas :=
    Always.ite (fun _ => Always.pure le_rfl) fun _ => loop_gas env hrun fuel _
  refine Always.of_wp fun s => (wp_Run env run fuel contract input readOnly s).mpr ?_
  exact wp_mono (fun _ _ h => h) (fun _ h => h) (wp_of_always hbody _)

theorem RunPrecompiledContract_gas (pre : Precompiles) (p : Nat) (input : Bytes)
    (contract : Contract) : (RunPrecompiledContract pre p input contract).2.1 ≤ contract.Gas := by
  unfold RunPrecompiledContract
  split
  · rename_i c hc
    have := Contract.UseGas_Gas hc
    dsimp only
    omega
  · exact le_rfl

theorem runWith_bounded (fuel : Nat) : RunBounded (runWith env fuel) := by
  induction fuel with
  | zero => exact fun _ _ _ => Always.throw
  | succ fuel ih =>
    intro contract input readOnly
    unfold runWith
    split
    · exact Always.pure (RunPrecompiledContract_gas _ _ _ _)
    · exact Run_gas env ih fuel contract input readOnly

end Interpreter

/-! ### The gas a transaction is charged -/

theorem always_runEVM {α : Type} {x : VM α} {P : α → Prop} (h : Always x P) : Always (runEVM x) P := by
  intro db a db' hrun
  have hrun : runEVM x db = .ok (a, db') := hrun
  unfold runEVM at hrun
  cases hx : x.run ⟨db, 0, 0, false⟩ with
  | error e => rw [hx] at hrun; cases hrun
  | ok p => rw [hx] at hrun; cases hrun; exact h.run hx

theorem ConsumeGas_ok {limit consumed amount c : Nat} {descriptor : String}
    (h : ConsumeGas limit consumed amount descriptor = .ok c) : c = consumed + amount := by
  unfold ConsumeGas at h
  split at h
  · cases h
  · cases h; rfl

theorem TransitionCSDB_gas (cr : Crypto) (pre : Precompiles) (fuel : Nat) (st : StateTransition)
    (ctx : TxContext) (params : Params) :
    Always (st.TransitionCSDB cr pre fuel ctx params) fun r => ∀ ret consumed, r = .ok (ret, consumed) →
      consumed ≤ ctx.gasConsumed + (if ctx.simulate then ctx.blockGasLimit.getD DefaultBlockGasLimit
        else u64 ((ctx.gasLimit : Int) - ctx.gasConsumed - GasReservedForOutOfVm)) := by
  unfold StateTransition.TransitionCSDB
  dsimp only
  generalize (if ctx.simulate = true then ctx.blockGasLimit.getD DefaultBlockGasLimit
    else u64 ((ctx.gasLimit : Int) - ctx.gasConsumed - GasReservedForOutOfVm)) = g
  refine Always.ite (fun _ => Always.pure fun _ _ h => by cases h) fun _ => ?_
  refine Always.bind fun _ => Always.bind fun _ => ?_
  -- the entry point leaves at most the VM's gas limit
  have hrun := runWith_bounded (st.NewEVM ctx.header g params cr pre) fuel
  refine Always.bind_of (always_runEVM (Always.ite
    (fun _ => Always.bind_of (Create_gas _ hrun _ _ _ _) fun r hr => Always.pure hr)
    fun _ => Call_gas _ hrun _ _ _ _ _)) fun r hr => ?_
  obtain ⟨ret, leftOverGas, vmerr⟩ := r
  dsimp only at hr ⊢
  split
  · exact Always.bind fun _ => Always.pure fun _ _ h => by cases h
  · refine Always.bind fun _ => Always.bind_of (Always.lift fun c hc => ConsumeGas_ok hc) fun c hc => ?_
    refine Always.pure fun ret consumed h => ?_
    cases h
    rw [hc]
    refine Nat.add_le_add_left ?_ _
    unfold u64
    omega

/-- No gas is created by nested execution. With the interpreter as the function that
runs contracts, every entry point of `evm.go` returns at most the gas it is given,
precompiled contracts and the stipend included; every iteration of the loop, a call
or a create among them, leaves its frame at most the gas it had; and the gas
`TransitionCSDB` charges for the VM stays within the VM's gas limit. -/
theorem nested_execution_gas_bounded (env : Env) (fuel : Nat) :
    (∀ caller addr input gas value,
      Always (EVM.Call env (runWith env fuel) caller addr input gas value) fun r => r.2.1 ≤ gas) ∧
    (∀ caller addr input gas value,
      Always (EVM.CallCode env (runWith env fuel) caller addr input gas value) fun r => r.2.1 ≤ gas) ∧
    (∀ caller addr input gas,
      Always (EVM.DelegateCall env (runWith env fuel) caller addr input gas) fun r => r.2.1 ≤ gas) ∧
    (∀ caller addr input gas,
      Always (EVM.StaticCall env (runWith env fuel) caller addr input gas) fun r => r.2.1 ≤ gas) ∧
    (∀ caller code gas value,
      Always (EVM.Create env (runWith env fuel) caller code gas value) fun r => r.2.2.1 ≤ gas) ∧
    (∀ caller code gas endowment salt,
      Always (EVM.Create2 env (runWith env fuel) caller code gas endowment salt) fun r => r.2.2.1 ≤ gas) ∧
    (∀ fr, Always (step env (runWith env fuel) fr) (StepGasLe fr)) ∧
    (∀ cr pre (st : StateTransition) ctx params,
      Always (st.TransitionCSDB cr pre fuel ctx params) fun r => ∀ ret consumed, r = .ok (ret, consumed) →
        consumed ≤ ctx.gasConsumed + (if ctx.simulate then ctx.blockGasLimit.getD DefaultBlockGasLimit
          else u64 ((ctx.gasLimit : Int) - ctx.gasConsumed - GasReservedForOutOfVm))) := by
  have hrun := runWith_bounded env fuel
  exact ⟨Call_gas env hrun, CallCode_gas env hrun, DelegateCall_gas env hrun, StaticCall_gas env hrun,
    Create_gas env hrun, Create2_gas env hrun, step_gas env hrun,
    fun cr pre st ctx params => TransitionCSDB_gas cr pre fuel st ctx params⟩

/-- `PUSH1 0` five times, `PUSH1 0xcc`, `PUSH2 0x0fff`, `CALL`, `STOP`: a call to
\[0xcc\] with no value. -/
def callingCode : Bytes :=
  [0x60, 0, 0x60, 0, 0x60, 0, 0x60, 0, 0x60, 0, 0x60, 0xcc, 0x61, 0x0f, 0xff, 0xf1, 0x00]

/-- The contract \[0xbb\] with `callingCode`. -/
def callingStore : Store :=
  { auth := Store.empty.auth.SetAccount ⟨⟨[0xbb], [], 0, 0, [7]⟩, true⟩,
    vm := { Store.empty.vm with codes := Store.empty.vm.codes.insert [7] callingCode } }

theorem nested_execution_gas_bounded_call :
    ∃ r st', (EVM.Call defaultEnv (runWith defaultEnv 20) (.account [1]) [0xbb] [] 100000 0).run
        ⟨CommitStateDB.new callingStore, 0, 0, false⟩ = .ok (r, st') ∧ r.2.2 = none ∧ r.2.1 ≤ 100000 := by
  -- the call runs `callingCode`, whose `CALL` to \[0xcc\] succeeds
  have hrun : ((EVM.Call defaultEnv (runWith defaultEnv 20) (.account [1]) [0xbb] [] 100000 0).run
      ⟨CommitStateDB.new callingStore, 0, 0, false⟩).map (·.1.2.2) = .ok none := by
    decide +kernel
  obtain ⟨⟨r, st'⟩, hp, herr⟩ := eq_ok_of_map hrun
  exact ⟨r, st', hp, herr, ((nested_execution_gas_bounded defaultEnv 20).1 _ _ _ _ _).run hp⟩

/-! ### A loop that costs nothing

The interpreter's loop ends only because every iteration costs gas, but the constant
gas of each opcode is a governance parameter that `validateVMOpGasParams` never
checks. With `JUMPDEST`, `PUSH1` and `JUMP` free, three iterations bring a frame back
to where it started. -/

/-- The default params with no constant gas for `JUMPDEST`, `PUSH1` and `JUMP`. -/
def zeroGasParams : Params :=
  { DefaultParams with
    VMOpGasParams := fun op => if op = 0x5b ∨ op = 0x60 ∨ op = 0x56 then 0 else DefaultVMOpGasParams op }

/-- The EVM `TransitionCSDB` builds for a transaction from \[1\] to \[0xaa\] under `zeroGasParams`. -/
def zeroGasEnv : Env :=
  StateTransition.NewEVM ⟨[1], [0xaa], 0, [0]⟩ ⟨[], [], 0, 1⟩ 100 zeroGasParams
    ⟨fun _ => [], fun _ => []⟩ ⟨fun _ _ => 0, fun _ _ => ([], none)⟩

/-- The contract `EVM.Call` runs for \[0xaa\] when its code is `JUMPDEST PUSH1 0 JUMP`. -/
def zeroGasLoop : Contract :=
  (Contract.NewContract (.account [1]) [0xaa] 0 100).SetCallCode [0xaa] Hash.zero [0x5b, 0x60, 0x00, 0x56]

theorem runWith_zeroGasLoop :
    zeroGasParams.Validate = .ok () ∧
      ∀ fuel s, (runWith zeroGasEnv fuel zeroGasLoop [] false).run s = .error .outOfFuel := by
  refine ⟨rfl, ?_⟩
  obtain ⟨fr, hfr⟩ : ∃ fr : Frame, fr = ⟨0, [], Memory.NewMemory, { zeroGasLoop with Input := [] }, []⟩ :=
    ⟨_, rfl⟩
  have cycle : ∀ (run : RunFn) (n : Nat) (s : EVMState),
      (loop zeroGasEnv run (n + 3) fr).run s = (loop zeroGasEnv run n fr).run s := by
    intro run n s
    obtain ⟨db, depth, cgt, ro⟩ := s
    subst hfr
    cases ro <;> rfl
  -- whatever the fuel, the loop spends it all
  have stuck : ∀ (run : RunFn) (n : Nat) (s : EVMState), (loop zeroGasEnv run n fr).run s = .error .outOfFuel := by
    intro run n
    induction n using Nat.strong_induction_on with
    | _ n ih =>
      intro s
      obtain ⟨db, depth, cgt, ro⟩ := s
      match n, ih with
      | 0, _ => rfl
      | 1, _ => subst hfr; cases ro <;> rfl
      | 2, _ => subst hfr; cases ro <;> rfl
      | m + 3, ih => rw [cycle run m]; exact ih m (by omega) _
  intro fuel s
  cases fuel with
  | zero => rfl
  | succ f =>
    have hrun : runWith zeroGasEnv (f + 1) zeroGasLoop [] false =
        Run zeroGasEnv (runWith zeroGasEnv f) f zeroGasLoop [] false := rfl
    have hw : wp (Run zeroGasEnv (runWith zeroGasEnv f) f zeroGasLoop [] false) (fun _ _ => False)
        (· = .outOfFuel) s := by
      rw [wp_Run, if_neg (by decide)]
      exact (wp_of_run_error (hfr ▸ stuck (runWith zeroGasEnv f) f _)).mpr rfl
    obtain ⟨e, he, rfl⟩ := error_of_wp hw
    rw [hrun]; exact he

end Dipper
