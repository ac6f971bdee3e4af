import Dipper.Vm.Interp.Context

/-!
# The EVM entry points

`Call`, `CallCode`, `DelegateCall`, `StaticCall`, `Create` and `Create2` of
`evm.go`, given the function `run` that executes a contract (a precompiled contract
or the interpreter, one level of fuel down). Each entry point checks the call depth
and, but for delegate and static calls, the caller's balance; then a calling contract
(one with code) has its nonce advanced before the snapshot is taken. An error reverts
to the snapshot and, unless it is a revert, burns the gas left.
-/

namespace Dipper

open CommitStateDB

namespace EVM

/-- `CreateAddress`: the last 20 bytes of the SHA-256 of the address and the nonce. -/
def CreateAddress (cr : Crypto) (addr : Address) (nonce : Nat) : Address :=
  (cr.sha256 (addr ++ natToBytesFixed 8 nonce)).drop 12

def CreateAddress2 (cr : Crypto) (addr : Address) (salt : Hash) (inithash : Bytes) : Address :=
  (cr.sha256 ([0xff] ++ addr ++ salt.toBytes ++ inithash)).drop 12

/-- `codeAndHash.Hash`: the SHA-256 copied into a 32-byte array. -/
def codeHashOf (cr : Crypto) (code : Bytes) : Hash :=
  BytesToHash (RightPadBytes ((cr.sha256 code).take 32) 32)

/-- `StateTransition.CanTransfer`, the `CanTransfer` of every EVM `TransitionCSDB` builds. -/
def CanTransfer (acc : Address) (amount : Int) : VM Bool := do
  return decide ((← sdb (GetBalance acc)) ≥ amount)

def Transfer (sender recipient : Address) (amount : Int) : VM Unit := do
  sdb (SubBalance sender amount)
  sdb (AddBalance recipient amount)

/-- The nonce of a caller that has code is advanced (a wrapping `uint64`). -/
def bumpCallerNonce (caller : Address) : VM Unit := do
  if (← sdb (GetCodeHash caller)) ≠ Hash.zero then
    let nonce ← sdb (GetNonce caller)
    sdb (SetNonce caller (u64 (nonce + 1)))

/-- After `run` returned an error: back to the snapshot, and all gas gone unless the
code reverted. -/
def onError (snapshot : Nat) (gasLeft : Nat) (err : VmError) : VM Nat := do
  sdb (RevertToSnapshot snapshot)
  return if err = .ExecutionReverted then gasLeft else 0

variable (env : Env) (run : RunFn)

/-- The contract at `addr` as a frame's code, with its code hash. -/
def loadCode (c : Contract) (addr : Address) : VM Contract := do
  let hash ← sdb (GetCodeHash addr)
  let code ← sdb (GetCode addr)
  return c.SetCallCode addr hash (code.getD [])

/-- `EVM.Call`: a missing account is created unless the call carries no value to a
plain address, and the value is transferred. -/
def Call (caller : ContractRef) (addr : Address) (input : Bytes) (gas : Nat) (value : Int) :
    VM (Bytes × Nat × Option VmError) := do
  let st ← get
  if env.cfg.NoRecursion && st.depth > 0 then return ([], gas, none)
  if st.depth > env.cfg.MaxCallCreateDepth then return ([], gas, some .Depth)
  if !(← CanTransfer caller.Address value) then return ([], gas, some .InsufficientBalance)
  bumpCallerNonce caller.Address
  let snapshot ← sdb Snapshot
  if !(← sdb (Exist addr)) then
    if (PrecompiledContracts addr).isNone && value = 0 then return ([], gas, none)
    sdb (CreateAccount addr)
  Transfer caller.Address addr value
  let contract ← loadCode (Contract.NewContract caller addr value gas) addr
  let (ret, gasLeft, err) ← run contract input false
  match err with
  | none => return (ret, gasLeft, none)
  | some e => return (ret, ← onError snapshot gasLeft e, some e)

/-- `EVM.CallCode`: the code at `addr` runs on the caller's own account; nothing is
transferred. -/
def CallCode (caller : ContractRef) (addr : Address) (input : Bytes) (gas : Nat) (value : Int) :
    VM (Bytes × Nat × Option VmError) := do
  let st ← get
  if env.cfg.NoRecursion && st.depth > 0 then return ([], gas, none)
  if st.depth > env.cfg.MaxCallCreateDepth then return ([], gas, some .Depth)
  if !(← CanTransfer caller.Address value) then return ([], gas, some .InsufficientBalance)
  bumpCallerNonce caller.Address
  let snapshot ← sdb Snapshot
  let contract ← loadCode (Contract.NewContract caller caller.Address value gas) addr
  let (ret, gasLeft, err) ← run contract input false
  match err with
  | none => return (ret, gasLeft, none)
  | some e => return (ret, ← onError snapshot gasLeft e, some e)

/-- `EVM.DelegateCall`: as `CallCode`, keeping the caller's own caller and value. -/
def DelegateCall (caller : ContractRef) (addr : Address) (input : Bytes) (gas : Nat) :
    VM (Bytes × Nat × Option VmError) := do
  let st ← get
  if env.cfg.NoRecursion && st.depth > 0 then return ([], gas, none)
  if st.depth > env.cfg.MaxCallCreateDepth then return ([], gas, some .Depth)
  bumpCallerNonce caller.Address
  let snapshot ← sdb Snapshot
  let contract ← match (Contract.NewContract caller caller.Address 0 gas).AsDelegate with
    | .ok c => pure c
    | .error msg => vmPanic msg
  let contract ← loadCode contract addr
  let (ret, gasLeft, err) ← run contract input false
  match err with
  | none => return (ret, gasLeft, none)
  | some e => return (ret, ← onError snapshot gasLeft e, some e)

/-- `EVM.StaticCall`: read-only, after a zero-value touch of `addr`. -/
def StaticCall (caller : ContractRef) (addr : Address) (input : Bytes) (gas : Nat) :
    VM (Bytes × Nat × Option VmError) := do
  let st ← get
  if env.cfg.NoRecursion && st.depth > 0 then return ([], gas, none)
  if st.depth > env.cfg.MaxCallCreateDepth then return ([], gas, some .Depth)
  bumpCallerNonce caller.Address
  let snapshot ← sdb Snapshot
  let contract ← loadCode (Contract.NewContract caller addr 0 gas) addr
  sdb (AddBalance addr 0)
  let (ret, gasLeft, err) ← run contract input true
  match err with
  | none => return (ret, gasLeft, none)
  | some e => return (ret, ← onError snapshot gasLeft e, some e)

/-- `EVM.create`: the creation code runs on a fresh account; its output, paid per
byte, becomes the code. The interpreter returns a nil slice exactly when it returns
no bytes. -/
def create (caller : ContractRef) (code : Bytes) (codeHash : Hash) (gas : Nat) (value : Int)
    (address : Address) : VM (Bytes × Address × Nat × Option VmError) := do
  let st ← get
  if st.depth > env.cfg.MaxCallCreateDepth then return ([], [], gas, some .Depth)
  if !(← CanTransfer caller.Address value) then return ([], [], gas, some .InsufficientBalance)
  bumpCallerNonce caller.Address
  let contractHash ← sdb (GetCodeHash address)
  if (← sdb (GetNonce address)) ≠ 0 ∨ contractHash ≠ Hash.zero then
    return ([], [], 0, some .ContractAddressCollision)
  let snapshot ← sdb Snapshot
  sdb (CreateAccount address)
  sdb (SetNonce address 0)
  Transfer caller.Address address value
  let contract := { Contract.NewContract caller address value gas with
    Code := code, CodeHash := codeHash, CodeAddr := some address }
  if env.cfg.NoRecursion && st.depth > 0 then return ([], address, gas, none)
  let (ret, gasLeft, err) ← run contract [] false
  let maxCodeSizeExceeded := decide (ret.length > env.cfg.MaxCodeSize)
  let (gasLeft, err) ← match err, maxCodeSizeExceeded with
    | none, false =>
      let createGas := u64 (env.cfg.ContractCreationGas + u64 (ret.length * env.cfg.ContractCreationGasPerByte))
      if createGas ≤ gasLeft then do
        sdb (SetCode env.cr address (if ret.isEmpty then none else some ret))
        pure (gasLeft - createGas, none)
      else pure (gasLeft, some VmError.CodeStoreOutOfGas)
    | _, _ => pure (gasLeft, err)
  let gasLeft ← match err with
    | some e => onError snapshot gasLeft e
    | none => if maxCodeSizeExceeded then onError snapshot gasLeft .MaxCodeSizeExceeded
              else pure gasLeft
  let err := if maxCodeSizeExceeded && err.isNone then some .MaxCodeSizeExceeded else err
  return (ret, address, gasLeft, err)

/-- `EVM.Create`: the address comes from the caller's address and nonce. -/
def Create (caller : ContractRef) (code : Bytes) (gas : Nat) (value : Int) :
    VM (Bytes × Address × Nat × Option VmError) := do
  let nonce ← sdb (GetNonce caller.Address)
  create env run caller code Hash.zero gas value (CreateAddress env.cr caller.Address nonce)

/-- `EVM.Create2`: the address comes from the caller, the salt and the code's hash. -/
def Create2 (caller : ContractRef) (code : Bytes) (gas : Nat) (endowment salt : Int) :
    VM (Bytes × Address × Nat × Option VmError) := do
  let hash := codeHashOf env.cr code
  create env run caller code hash gas endowment
    (CreateAddress2 env.cr caller.Address (BigToHash salt) hash.toBytes)

end EVM

end Dipper
