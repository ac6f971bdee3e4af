import Dipper.Vm.Interp.JumpTable

/-!
# The interpreter loop

`EVMInterpreter.Run` of `interpreter.go`: one iteration of its loop is `step`; the loop runs on
fuel. `Run` counts the call depth and sets the read-only flag for the outermost static frame,
and `run` of `evm.go` dispatches to a precompiled contract or the interpreter. The two are tied
together by `runWith`, where the frames a frame starts run with one unit of fuel less.
-/

namespace Dipper

/-- Where an iteration of the loop leaves the frame: running on, or stopped with its
output, the gas left and the error. -/
inductive Step
  | next (fr : Frame)
  | done (ret : Bytes) (gas : Nat) (err : Option VmError)

/-- `sdkerrors.Wrap(ErrInternal, msg)`: every check of the loop fails this way. -/
def internal (msg : String) : Option VmError := some (.Internal msg)

/-- The memory size an operation needs, in whole words; `none` on overflow. -/
def operationMemorySize (operation : Operation) (stack : Stack) : Option Nat :=
  match operation.memorySize with
  | none => some 0
  | some f =>
    let (memSize, overflow) := f stack
    if overflow then none
    else
      let (memorySize, overflow) := SafeMul (toWordSize memSize) 32
      if overflow then none else some memorySize

/-- The dynamic part of the gas, charged to the contract after the constant part. -/
def chargeDynamicGas (env : Env) (operation : Operation) (contract : Contract) (stack : Stack)
    (mem : Memory) (memorySize : Nat) : VM (Option (Contract × Memory)) := do
  match operation.dynamicGas with
  | none => return some (contract, mem)
  | some g =>
    let (mem, r) ← g env contract stack mem memorySize
    match r with
    | .error _ => return none
    | .ok cost => return (contract.UseGas cost).map fun c => (c, mem)

/-- After the operation: the flags decide whether the loop stops, and whether the
program counter moves on. -/
def afterExecute (operation : Operation) (fr : Frame) (res : Bytes) (err : Option VmError) : Step :=
  let fr := if operation.returns then { fr with returnData := res } else fr
  match err with
  | some e => .done [] fr.contract.Gas (some e)
  | none =>
    if operation.reverts then .done res fr.contract.Gas (some .ExecutionReverted)
    else if operation.halts then .done res fr.contract.Gas none
    else if !operation.jumps then .next { fr with pc := fr.pc + 1 }
    else .next fr

/-- One iteration of the loop of `Run`. -/
def step (env : Env) (run : RunFn) (fr : Frame) : VM Step := do
  let op := fr.contract.GetOp fr.pc
  let operation := istanbulInstructionSet op
  if !operation.valid then
    return .done [] fr.contract.Gas (internal ("invalid opcode 0x" ++ String.ofList (Nat.toDigits 16 op.toNat)))
  let sLen := fr.stack.length
  if sLen < operation.minStack then
    return .done [] fr.contract.Gas
      (internal ("stack underflow (" ++ toString sLen ++ " <=> " ++ toString operation.minStack ++ ")"))
  if sLen > operation.maxStack then
    return .done [] fr.contract.Gas
      (internal ("stack limit reached " ++ toString sLen ++ " (" ++ toString operation.maxStack ++ ")"))
  if (← get).readOnly && (operation.writes || (op == CALL && Sign (Back fr.stack 2) ≠ 0)) then
    return .done [] fr.contract.Gas (internal "errWriteProtection")
  let some contract := fr.contract.UseGas (env.cfg.OpConstGasConfig op)
    | return .done [] fr.contract.Gas (internal "ErrOutOfGas")
  let some memorySize := operationMemorySize operation fr.stack
    | return .done [] contract.Gas (internal "errGasUintOverflow")
  let some (contract, mem) ← chargeDynamicGas env operation contract fr.stack fr.mem memorySize
    | return .done [] contract.Gas (internal "ErrOutOfGas")
  let mem := if memorySize > 0 then mem.Resize memorySize else mem
  let (fr, res, err) ← operation.execute env run { fr with contract := contract, mem := mem }
  return afterExecute operation fr res err

/-- The loop, for at most `fuel` iterations. -/
def loop (env : Env) (run : RunFn) : Nat → Frame → VM (Bytes × Nat × Option VmError)
  | 0, _ => throw .outOfFuel
  | fuel + 1, fr => do
    match ← step env run fr with
    | .next fr => loop env run fuel fr
    | .done ret gas err => return (ret, gas, err)

/-- `EVMInterpreter.Run`: a fresh frame on the contract's code, one level deeper;
the read-only flag is set by the outermost static frame and cleared when it ends. -/
def Run (env : Env) (run : RunFn) (fuel : Nat) (contract : Contract) (input : Bytes)
    (readOnly : Bool) : VM (Bytes × Nat × Option VmError) := do
  modify fun st => { st with depth := st.depth + 1 }
  let setReadOnly := readOnly && !(← get).readOnly
  if setReadOnly then modify fun st => { st with readOnly := true }
  let r ← if contract.Code.isEmpty then pure ([], contract.Gas, none)
    else loop env run fuel ⟨0, [], Memory.NewMemory, { contract with Input := input }, []⟩
  if setReadOnly then modify fun st => { st with readOnly := false }
  modify fun st => { st with depth := st.depth - 1 }
  return r

/-- `RunPrecompiledContract`: the required gas first. -/
def RunPrecompiledContract (pre : Precompiles) (p : Nat) (input : Bytes) (contract : Contract) :
    Bytes × Nat × Option VmError :=
  match contract.UseGas (pre.RequiredGas p input) with
  | some c => let (ret, err) := pre.Run p input; (ret, c.Gas, err)
  | none => ([], contract.Gas, some .OutOfGas)

/-- `run` of `evm.go` with `fuel` levels of frames. -/
def runWith (env : Env) : Nat → RunFn
  | 0 => fun _ _ _ => throw .outOfFuel
  | fuel + 1 => fun contract input readOnly =>
    match contract.CodeAddr.bind PrecompiledContracts with
    | some p => pure (RunPrecompiledContract env.pre p input contract)
    | none => Run env (runWith env fuel) fuel contract input readOnly

/-! ### Specifications -/

open StateExcept

section
variable {Q : Bytes × Nat × Option VmError → EVMState → Prop} {E : Halt → Prop}

theorem wp_loop_succ (env : Env) (run : RunFn) (n : Nat) (fr : Frame) (st : EVMState) :
    wp (loop env run (n + 1) fr) Q E st ↔
      wp (step env run fr) (fun r st' => match r with
        | .next fr' => wp (loop env run n fr') Q E st'
        | .done ret gas err => Q (ret, gas, err) st') E st := by
  simp only [loop, wp_bind]
  apply iff_of_eq; congr 1; funext r st'
  cases r <;> rfl

theorem wp_Run (env : Env) (run : RunFn) (fuel : Nat) (contract : Contract) (input : Bytes)
    (readOnly : Bool) (st : EVMState) :
    wp (Run env run fuel contract input readOnly) Q E st ↔
      wp (if contract.Code.isEmpty then pure ([], contract.Gas, none)
          else loop env run fuel ⟨0, [], Memory.NewMemory, { contract with Input := input }, []⟩)
        (fun r st' => Q r { st' with
          readOnly := if readOnly && !st.readOnly then false else st'.readOnly,
          depth := st'.depth - 1 })
        E { st with depth := st.depth + 1, readOnly := st.readOnly || readOnly } := by
  cases readOnly <;> cases h : st.readOnly <;> simp [Run, h, wp_ite]

end

/-- The frames a run of the loop passes through from `fr`: each step continues with
the next, from whatever state the run has reached. -/
inductive Reaches (env : Env) (run : RunFn) : Frame → Frame → Prop
  | refl (fr : Frame) : Reaches env run fr fr
  | tail {fr fr' fr'' : Frame} {s s' : EVMState} : Reaches env run fr fr' →
      (step env run fr').run s = .ok (.next fr'', s') → Reaches env run fr fr''

theorem Reaches.invariant {env : Env} {run : RunFn} {I : Frame → Prop}
    (hstep : ∀ fr, I fr → Always (step env run fr) fun r => ∀ fr', r = .next fr' → I fr')
    {fr fr' : Frame} (h : Reaches env run fr fr') (h0 : I fr) : I fr' := by
  induction h with
  | refl => exact h0
  | tail _ hnext ih => exact (hstep _ ih).run hnext _ rfl

theorem step_GASPRICE (env : Env) (run : RunFn) (fr : Frame) (st : EVMState)
    (hprice : env.ctx.GasPrice = none) (hop : fr.contract.GetOp fr.pc = 0x3a)
    (hstack : fr.stack.length ≤ 1023) (hgas : env.cfg.OpConstGasConfig 0x3a ≤ fr.contract.Gas) :
    wp (step env run fr) (fun _ _ => False) (· = .panic nilPanic) st := by
  have hrow : istanbulInstructionSet 0x3a = plainOp opGasprice 0 1 := by
    simp [istanbulInstructionSet]
  simp only [step, hop, hrow]
  simp [plainOp, minStack, maxStack, StackLimit, hstack, CALL, wp_ite, Contract.UseGas,
    Nat.not_lt.mpr hgas, operationMemorySize, chargeDynamicGas, opGasprice, pushOp, hprice, vmPanic]

end Dipper
