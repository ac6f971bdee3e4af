import Dipper.Vm.Commit
import Dipper.Vm.Interp.Memory

/-!
# The EVM's environment, contracts and frames

The data the interpreter runs on: the block and message `Context` that
`TransitionCSDB` fills in, the `Config` built from the vm params, the executing
`Contract`, and one interpreter frame (program counter, stack, memory, return data).
The state shared by all frames of a call tree (the state database, the call depth,
`callGasTemp` and the interpreter's read-only flag) is threaded by the `VM` monad,
whose failures are Go panics and running out of fuel. The nine precompiled
contracts are a parameter.
-/

namespace Dipper

/-- The error values the EVM returns (`errors.go`); `Internal` is
`sdkerrors.Wrap(ErrInternal, msg)`, which no `==` test matches. -/
inductive VmError
  | ExecutionReverted | OutOfGas | CodeStoreOutOfGas | Depth | InsufficientBalance
  | ContractAddressCollision | MaxCodeSizeExceeded | ReturnDataOutOfBounds | InvalidJump
  | GasUintOverflow
  | Internal (msg : String)
  | Precompile (msg : String)
  deriving DecidableEq, Repr

/-- How a computation of the model stops early: a Go panic, or the fuel running out. -/
inductive Halt
  | panic (msg : String)
  | outOfFuel
  deriving DecidableEq, Repr

/-- The state every frame of a call tree shares. -/
structure EVMState where
  db : CommitStateDB
  depth : Nat
  callGasTemp : Nat
  readOnly : Bool

abbrev VM := StateT EVMState (Except Halt)

/-- A state database operation, run on the shared database. -/
def sdb {α : Type} (x : SDB α) : VM α := fun st =>
  match x.run st.db with
  | .ok (a, db) => .ok (a, { st with db := db })
  | .error e => .error (.panic e)

theorem sdb_eq_ok {α : Type} {x : SDB α} {st st' : EVMState} {a : α} (h : (sdb x).run st = .ok (a, st')) :
    x.run st.db = .ok (a, st'.db) ∧ st' = { st with db := st'.db } := by
  simp only [sdb, StateT.run] at h
  split at h
  · next a' db hx =>
    cases h
    exact ⟨hx, rfl⟩
  · cases h

theorem sdb_of_run_ok {α : Type} {x : SDB α} {st : EVMState} {a : α} {db : CommitStateDB}
    (h : x.run st.db = .ok (a, db)) : (sdb x).run st = .ok (a, { st with db := db }) := by
  simp only [sdb, StateT.run] at h ⊢
  rw [h]

def vmPanic {α : Type} (msg : String) : VM α := throw (.panic msg)

/-- `vm.Context` as `TransitionCSDB` builds it; `GasPrice` is a `*big.Int` that may be nil. -/
structure Context where
  GetHash : Hash
  Origin : Address
  GasPrice : Option Int
  CoinBase : Address
  GasLimit : Nat
  BlockNumber : Option Int
  Time : Option Int

/-- `vm.Config`: the constant gas of every opcode comes from the vm params. -/
structure Config where
  NoRecursion : Bool
  EnablePreimageRecording : Bool
  OpConstGasConfig : UInt8 → Nat
  ContractCreationGas : Nat
  ContractCreationGasPerByte : Nat
  MaxCodeSize : Nat
  MaxCallCreateDepth : Nat

/-- The precompiled contracts of `contracts.go`, by their number 1 to 9: the gas each
requires for an input and what it returns. -/
structure Precompiles where
  RequiredGas : Nat → Bytes → Nat
  Run : Nat → Bytes → Bytes × Option VmError

/-- `PrecompiledContracts`: keyed by `BytesToAddress([]byte{n})`, the one-byte address `n`. -/
def PrecompiledContracts (addr : Address) : Option Nat :=
  match addr with
  | [n] => if 1 ≤ n.toNat ∧ n.toNat ≤ 9 then some n.toNat else none
  | _ => none

/-- Everything a run reads and never changes. -/
structure Env where
  ctx : Context
  cfg : Config
  cr : Crypto
  pre : Precompiles

/-- `ContractRef`: a plain account, or a running contract, whose caller and value a
delegate call inherits. -/
inductive ContractRef
  | account (addr : Address)
  | contract (addr callerAddress : Address) (value : Int)

def ContractRef.Address : ContractRef → Address
  | .account a => a
  | .contract a _ _ => a

/-- `vm.Contract` (its jump-destination cache is recomputed, see `validJumpdest`). -/
structure Contract where
  CallerAddress : Address
  caller : ContractRef
  self : Address
  Code : Bytes
  CodeHash : Hash
  CodeAddr : Option Address
  Input : Bytes
  Gas : Nat
  value : Int

namespace Contract

def NewContract (caller : ContractRef) (object : Address) (value : Int) (gas : Nat) : Contract :=
  ⟨caller.Address, caller, object, [], Hash.zero, none, [], gas, value⟩

/-- The contract as the caller of the frames it starts. -/
def ref (c : Contract) : ContractRef := .contract c.self c.CallerAddress c.value

/-- `AsDelegate`: the caller must be a contract (a failed type assertion panics). -/
def AsDelegate (c : Contract) : Except String Contract :=
  match c.caller with
  | .contract _ callerAddress value => .ok { c with CallerAddress := callerAddress, value := value }
  | .account _ => .error "interface conversion: vm.ContractRef is vm.AccountRef, not *vm.Contract"

def SetCallCode (c : Contract) (addr : Address) (hash : Hash) (code : Bytes) : Contract :=
  { c with Code := code, CodeHash := hash, CodeAddr := some addr }

def UseGas (c : Contract) (gas : Nat) : Option Contract :=
  if c.Gas < gas then none else some { c with Gas := c.Gas - gas }

def GetOp (c : Contract) (n : Nat) : UInt8 := c.Code.getD n 0

theorem UseGas_Gas {c c' : Contract} {gas : Nat} (h : c.UseGas gas = some c') :
    c'.Gas + gas = c.Gas := by
  unfold UseGas at h; split at h
  · cases h
  · cases h; simp only; omega

end Contract

def JUMPDEST : UInt8 := 0x5b
def PUSH1 : UInt8 := 0x60
def PUSH32 : UInt8 := 0x7f
def CALL : UInt8 := 0xf1

/-- `codeBitmap`: the positions of PUSH data (the set bits of its bit vector); each
push marks the `n` bytes after it. -/
def codeBitmap (code : Bytes) : List Nat := go code.length 0
where
  go : Nat → Nat → List Nat
  | 0, _ => []
  | fuel+1, pc =>
    if pc < code.length then
      let op := code.getD pc 0
      if PUSH1 ≤ op ∧ op ≤ PUSH32 then
        let numbits := (op - PUSH1).toNat + 1
        List.range' (pc + 1) numbits ++ go fuel (pc + 1 + numbits)
      else go fuel (pc + 1)
    else []

/-- `validJumpdest`: a JUMPDEST byte inside the code that is not PUSH data. The Go
code caches the bitmap under the code hash; the bitmap is a function of the code. -/
def validJumpdest (c : Contract) (dest : Int) : Bool :=
  let udest := Uint64 dest
  if BitLen dest ≥ 63 ∨ udest ≥ c.Code.length then false
  else if c.Code.getD udest 0 != JUMPDEST then false
  else !(codeBitmap c.Code).contains udest

/-- One interpreter frame. -/
structure Frame where
  pc : Nat
  stack : Stack
  mem : Memory
  contract : Contract
  returnData : Bytes

/-- `run(evm, contract, input, readOnly)`: the output, the gas left and the error. -/
abbrev RunFn := Contract → Bytes → Bool → VM (Bytes × Nat × Option VmError)

/-- An `executionFunc`: the frame after the operation, its output and its error. -/
abbrev ExecFn := Env → RunFn → Frame → VM (Frame × Bytes × Option VmError)

/-- A `gasFunc`, given the memory size the interpreter computed: the memory (whose
paid fee it may raise) and the cost or an error. -/
abbrev GasFn := Env → Contract → Stack → Memory → Nat → VM (Memory × Except VmError Nat)

abbrev MemSizeFn := Stack → Nat × Bool

/-- A row of the jump table. Its `constantGas` is not kept: the interpreter
overwrites it with `OpConstGasConfig[op]`. -/
structure Operation where
  execute : ExecFn
  dynamicGas : Option GasFn := none
  minStack : Nat
  maxStack : Nat
  memorySize : Option MemSizeFn := none
  halts : Bool := false
  jumps : Bool := false
  writes : Bool := false
  valid : Bool := false
  reverts : Bool := false
  returns : Bool := false

def StackLimit : Nat := 1024

def minStack (pops _push : Nat) : Nat := pops
def maxStack (pop push : Nat) : Nat := StackLimit + pop - push

end Dipper
