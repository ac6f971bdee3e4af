import Dipper.Vm.Interp.Interpreter

/-!
# From a `MsgContract` to the EVM

The vm params and their validators (`types/params.go`), `MsgContract` and its
`ValidateBasic`, and the path of `handleMsgContract`: `DoStateTransition` points the
keeper's state database at the transaction's context and `TransitionCSDB` builds the
EVM context and configuration, runs `Create` or `Call` from the sender, and on
success finalises the state database. The sdk context is reduced to what these
functions read: the block header, the transaction's store, its gas meter and the
simulation flag. `GasPrice` is the one field of the EVM context never set.
-/

namespace Dipper

open CommitStateDB

/-! ### Params -/

structure VMContractCreationGasParams where
  Gas : Nat
  GasPerByte : Nat

/-- `types.Params`; the `[256]uint64` of opcode gas is a function of the opcode. -/
structure Params where
  MaxCodeSize : Nat
  MaxCallCreateDepth : Nat
  VMOpGasParams : UInt8 → Nat
  VMContractCreationGasParams : VMContractCreationGasParams

def defaultMaxCodeSize : Nat := 1024 * 1024
def defaultCallCreateDepth : Nat := 1024
def defaultContractCreationGas : Nat := 53000
def defaultGasPerByte : Nat := 200

/-- `DefaultVMOpGasParams`, row by row as in the source. -/
def DefaultVMOpGasParamsList : List Nat :=
  [0, 3, 5, 3, 5, 5, 5, 5, 8, 8, 0, 5, 0, 0, 0, 0, 3, 3, 3, 3, 3, 3, 3, 3, 3, 3, 3, 3, 3, 3, 0, 0] ++
  [30, 0, 0, 0, 0, 0, 0, 0, 0, 0, 0, 0, 0, 0, 0, 0, 2, 700, 2, 2, 2, 3, 2, 3, 2, 3, 2, 700, 700, 2, 3, 700] ++
  [20, 2, 2, 2, 0, 2, 2, 5, 0, 0, 0, 0, 0, 0, 0, 0, 2, 3, 3, 3, 800, 0, 8, 10, 2, 2, 2, 1, 0, 0, 0, 0] ++
  List.replicate 64 3 ++
  List.replicate 64 0 ++
  [0, 0, 0, 0, 0, 0, 0, 0, 0, 0, 0, 0, 0, 0, 0, 0, 32000, 700, 700, 0, 700, 32000, 0, 0, 0, 0, 700,
    0, 0, 0, 0, 0]

def DefaultVMOpGasParams (op : UInt8) : Nat := DefaultVMOpGasParamsList.getD op.toNat 0

def DefaultParams : Params :=
  ⟨defaultMaxCodeSize, defaultCallCreateDepth, DefaultVMOpGasParams,
    ⟨defaultContractCreationGas, defaultGasPerByte⟩⟩

def validateMaxCodeSize (v : Nat) : Except String Unit :=
  if v = 0 then .error ("max code size must be positive: " ++ toString v) else .ok ()

def validateMaxCallCreateDepth (_v : Nat) : Except String Unit := .ok ()

/-- `validateVMOpGasParams` accepts every table. -/
def validateVMOpGasParams (_v : UInt8 → Nat) : Except String Unit := .ok ()

def validateVMCommonGasParams (v : VMContractCreationGasParams) : Except String Unit :=
  if v.Gas = 0 then .error ("gas must be positive: " ++ toString v.Gas)
  else if v.GasPerByte = 0 then .error ("gas_per_byte must be positive: " ++ toString v.GasPerByte)
  else .ok ()

/-- The validators of `ParamSetPairs`, one per field. -/
def Params.Validate (p : Params) : Except String Unit := do
  validateMaxCodeSize p.MaxCodeSize
  validateMaxCallCreateDepth p.MaxCallCreateDepth
  validateVMOpGasParams p.VMOpGasParams
  validateVMCommonGasParams p.VMContractCreationGasParams

/-- The `vm.Config` of `TransitionCSDB`. -/
def Params.config (p : Params) : Config where
  NoRecursion := false
  EnablePreimageRecording := false
  OpConstGasConfig := p.VMOpGasParams
  ContractCreationGas := p.VMContractCreationGasParams.Gas
  ContractCreationGasPerByte := p.VMContractCreationGasParams.GasPerByte
  MaxCodeSize := p.MaxCodeSize
  MaxCallCreateDepth := p.MaxCallCreateDepth

/-! ### The message -/

structure MsgContract where
  From : Address
  To : Address
  Payload : Bytes
  Amount : Coin

/-- The errors on the way to the EVM, apart from the EVM's own. -/
inductive TxError
  | InvalidAddress (msg : String)
  | InvalidCoins (msg : String)
  | NoPayload
  | WrongCtx
  | OutOfGas
  | Vm (e : VmError)
  deriving DecidableEq, Repr

def MsgContract.ValidateBasic (msg : MsgContract) : Except TxError Unit :=
  if msg.From.isEmpty then .error (.InvalidAddress "msg missing from address")
  else if !msg.Amount.IsValid then .error (.InvalidCoins "msg amount is invalid")
  else if msg.Amount.denom != NativeTokenName then .error (.InvalidCoins ("denom must be " ++ NativeTokenName))
  else if msg.Payload.isEmpty then .error .NoPayload
  else .ok ()

/-! ### The state transition -/

def GasReservedForOutOfVm : Nat := 10000
def DefaultBlockGasLimit : Nat := 100000000

/-- The block header fields the EVM context reads. -/
structure Header where
  LastBlockHash : Bytes
  ProposerAddress : Address
  Time : Int
  Height : Int

/-- What `TransitionCSDB` reads of the `sdk.Context`. -/
structure TxContext where
  header : Header
  store : Store
  gasLimit : Nat
  gasConsumed : Nat
  blockGasLimit : Option Nat
  simulate : Bool
  txBytes : Bytes

structure StateTransition where
  Sender : Address
  Recipient : Address
  Amount : Int
  Payload : Bytes

/-- The `vm.Context` of `TransitionCSDB`: the hash is the last block id's, and
`GasPrice` is left nil. -/
def StateTransition.evmContext (st : StateTransition) (h : Header) (gasLimit : Nat) : Context where
  GetHash := BytesToHash h.LastBlockHash
  Origin := st.Sender
  GasPrice := none
  CoinBase := h.ProposerAddress
  GasLimit := gasLimit
  BlockNumber := some h.Height
  Time := some h.Time

/-- `NewEVM(evmCtx, statedb, cfg)` with the keeper's hash functions and precompiles. -/
def StateTransition.NewEVM (st : StateTransition) (h : Header) (gasLimit : Nat) (params : Params)
    (cr : Crypto) (pre : Precompiles) : Env :=
  ⟨st.evmContext h gasLimit, params.config, cr, pre⟩

/-- A computation on the keeper's state database that may panic. -/
abbrev Keep := StateT CommitStateDB (Except Halt)

def liftDB {α : Type} (x : SDB α) : Keep α := fun db =>
  match x.run db with
  | .ok r => .ok r
  | .error e => .error (.panic e)

/-- An EVM run started on the keeper's state database at depth zero. -/
def runEVM {α : Type} (x : VM α) : Keep α := fun db =>
  match x.run ⟨db, 0, 0, false⟩ with
  | .ok (a, st) => .ok (a, st.db)
  | .error e => .error e

/-- `GasMeter.ConsumeGas`: past the limit it panics. -/
def ConsumeGas (limit consumed amount : Nat) (descriptor : String) : Except Halt Nat :=
  if consumed + amount > limit then .error (.panic ("out of gas in location: " ++ descriptor))
  else .ok (consumed + amount)

variable (cr : Crypto) (pre : Precompiles) (fuel : Nat)

/-- `StateTransition.TransitionCSDB`: the output and the gas used, or the error. -/
def StateTransition.TransitionCSDB (st : StateTransition) (ctx : TxContext) (params : Params) :
    Keep (Except TxError (Bytes × Nat)) := do
  let gasLimitForVM := if ctx.simulate then ctx.blockGasLimit.getD DefaultBlockGasLimit
    else u64 ((ctx.gasLimit : Int) - ctx.gasConsumed - GasReservedForOutOfVm)
  if !ctx.simulate && gasLimitForVM ≥ ctx.gasLimit then return .error .OutOfGas
  liftDB UpdateAccounts
  liftDB (WithContext ctx.store)
  let env := st.NewEVM ctx.header gasLimitForVM params cr pre
  let run := runWith env fuel
  let (ret, leftOverGas, vmerr) ← runEVM (if st.Recipient.isEmpty then do
      let (ret, _, gas, err) ← EVM.Create env run (.account st.Sender) st.Payload gasLimitForVM st.Amount
      pure (ret, gas, err)
    else EVM.Call env run (.account st.Sender) st.Recipient st.Payload gasLimitForVM st.Amount)
  let vmGasUsed := u64 ((gasLimitForVM : Int) - leftOverGas)
  match vmerr with
  | some e =>
    discard <| StateT.lift (ConsumeGas ctx.gasLimit ctx.gasConsumed vmGasUsed "VM execution consumption")
    return .error (.Vm e)
  | none =>
    liftDB (Finalise true)
    let consumed ← StateT.lift (ConsumeGas ctx.gasLimit ctx.gasConsumed vmGasUsed "VM execution consumption")
    return .ok (ret, consumed)

/-- `DoStateTransition`: the keeper's state database takes the context and the
transaction hash; a simulation runs on a fresh state database instead. -/
def DoStateTransition (msg : MsgContract) (ctx : TxContext) (params : Params) (readonly : Bool) :
    Keep (Except TxError (Bytes × Nat)) := do
  liftDB (WithContext ctx.store)
  liftDB (WithTxHash (cr.sha256 ctx.txBytes))
  let st : StateTransition := ⟨msg.From, msg.To, msg.Amount.amount, msg.Payload⟩
  let simulate := readonly || ctx.simulate
  if !simulate && ctx.gasLimit = 0 then return .error .WrongCtx
  let ctx := { ctx with simulate := simulate }
  if simulate then
    let r ← StateT.lift ((st.TransitionCSDB cr pre fuel ctx params).run' (CommitStateDB.new ctx.store))
    return r
  st.TransitionCSDB cr pre fuel ctx params

def handleMsgContract (msg : MsgContract) (ctx : TxContext) (params : Params) :
    Keep (Except TxError (Bytes × Nat)) :=
  match msg.ValidateBasic with
  | .error e => return .error e
  | .ok () => DoStateTransition cr pre fuel msg ctx params ctx.simulate

/-! ### `GASPRICE` -/

open StateExcept

/-- The EVM `TransitionCSDB` builds panics on `GASPRICE`: a contract whose code starts
with it, given the opcode's constant gas, ends its run in a nil dereference. -/
theorem Run_GASPRICE_panics (st : StateTransition) (h : Header) (gasLimit : Nat) (params : Params)
    (run : RunFn) (contract : Contract) (input : Bytes) (readOnly : Bool) (s : EVMState)
    (hcode : contract.Code.head? = some 0x3a) (hgas : params.VMOpGasParams 0x3a ≤ contract.Gas)
    (hfuel : 0 < fuel) :
    (Run (st.NewEVM h gasLimit params cr pre) run fuel contract input readOnly).run s =
      .error (.panic nilPanic) := by
  obtain ⟨n, rfl⟩ : ∃ n, fuel = n + 1 := ⟨fuel - 1, by omega⟩
  obtain ⟨rest, hrest⟩ : ∃ rest, contract.Code = 0x3a :: rest := by
    cases hc : contract.Code with
    | nil => rw [hc] at hcode; cases hcode
    | cons b rest => rw [hc] at hcode; cases hcode; exact ⟨rest, rfl⟩
  let fr : Frame := ⟨0, [], Memory.NewMemory, { contract with Input := input }, []⟩
  have hop : fr.contract.GetOp fr.pc = 0x3a := by simp [fr, Contract.GetOp, hrest]
  have hstep := step_GASPRICE (st.NewEVM h gasLimit params cr pre) run fr
    { s with depth := s.depth + 1, readOnly := s.readOnly || readOnly } rfl hop (by simp [fr]) hgas
  have hrun : wp (Run (st.NewEVM h gasLimit params cr pre) run (n + 1) contract input readOnly)
      (fun _ _ => False) (· = .panic nilPanic) s := by
    rw [wp_Run, if_neg (by simp [hrest]), wp_loop_succ]
    exact wp_mono (fun _ _ h => h.elim) (fun _ h => h) hstep
  obtain ⟨e, he, rfl⟩ := error_of_wp hrun
  exact he

theorem Run_GASPRICE_panics_default :
    let contract := { Contract.NewContract (.account [1]) [2] 0 2 with Code := [0x3a] }
    contract.Code.head? = some 0x3a ∧ DefaultParams.VMOpGasParams 0x3a ≤ contract.Gas ∧ 0 < 1 ∧
      (Run (StateTransition.NewEVM ⟨[1], [2], 0, [0x3a]⟩ ⟨[], [], 0, 1⟩ 100000 DefaultParams
          ⟨fun _ => [], fun _ => []⟩ ⟨fun _ _ => 0, fun _ _ => ([], none)⟩)
          (fun _ _ _ => pure ([], 0, none)) 1 contract [] false).run
        ⟨CommitStateDB.new Store.empty, 0, 0, false⟩ = .error (.panic nilPanic) :=
  ⟨rfl, by decide, by decide,
    Run_GASPRICE_panics _ _ 1 _ _ _ _ _ _ _ _ _ rfl (by decide) (by decide)⟩

/-- The EVM of a transaction under the default params. -/
def defaultEnv : Env :=
  StateTransition.NewEVM ⟨[1], [0xbb], 0, []⟩ ⟨[], [], 0, 1⟩ 100000 DefaultParams
    ⟨fun _ => [], fun _ => []⟩ ⟨fun _ _ => 0, fun _ _ => ([], none)⟩

end Dipper
