import Dipper.Vm.Interp.Evm

/-!
# Dynamic gas

The `gasFunc`s of `gas_table.go` and the 63/64 rule of `callGas` (`gas.go`). Every
function that has a memory size charges the expansion through `memoryGasCost`
first, which also records the new fee as paid; the rest add per-word, per-topic,
transfer and account-creation costs with overflow-checked `uint64` arithmetic.
-/

namespace Dipper

open CommitStateDB

def CopyGas : Nat := 3
def Sha3WordGas : Nat := 6
def LogGas : Nat := 375
def LogTopicGas : Nat := 375
def LogDataGas : Nat := 8
def ExpByte : Nat := 50
def ExpGas : Nat := 10
def CallNewAccountGas : Nat := 25000
def CallValueTransferGas : Nat := 9000
def CallStipend : Nat := 2300
def SelfdestructGas : Nat := 5000
def CreateBySelfdestructGas : Nat := 25000
def SelfdestructRefundGas : Nat := 24000
def SstoreSentryGas : Nat := 2300
def SstoreNoopGas : Nat := 800
def SstoreDirtyGas : Nat := 800
def SstoreInitGas : Nat := 20000
def SstoreInitRefund : Nat := 19200
def SstoreCleanGas : Nat := 5000
def SstoreCleanRefund : Nat := 4200
def SstoreClearRefund : Nat := 15000

/-- `callGas`: all but one 64th of what is left after `base` (the subtraction wraps),
capped by the requested amount. -/
def callGas (availableGas base : Nat) (callCost : Int) : Except VmError Nat :=
  let availableGas := u64 ((availableGas : Int) - base)
  let gas := availableGas - availableGas / 64
  if !IsUint64 callCost || gas < Uint64 callCost then .ok gas
  else if !IsUint64 callCost then .error .GasUintOverflow
  else .ok (Uint64 callCost)

/-- The memory part of a dynamic cost: `memoryGasCost`, whose error is
`ErrGasUintOverflow`. -/
def memoryGas (mem : Memory) (memorySize : Nat) : Memory × Except VmError Nat :=
  let (mem, r) := memoryGasCost mem memorySize
  (mem, r.mapError fun _ => .GasUintOverflow)

/-- `gas + extra` with the overflow check, as every gas function adds. -/
def addGas (gas extra : Nat) : Except VmError Nat :=
  let (g, overflow) := SafeAdd gas extra
  if overflow then .error .GasUintOverflow else .ok g

/-- `toWordSize(words) * perWord`, with the overflow checks. -/
def wordGas (words : Int) (perWord : Nat) : Except VmError Nat := do
  let (words, overflow) := bigUint64 words
  if overflow then throw .GasUintOverflow
  let (g, overflow) := SafeMul (toWordSize words) perWord
  if overflow then throw .GasUintOverflow
  return g

/-- The memory fee followed by a fee per word of the operand at `stackpos`: the
copy operations (`memoryCopierGas`), `SHA3` and `CREATE2`. -/
def memoryWordGas (stackpos perWord : Nat) : GasFn := fun _ _ stack mem memorySize =>
  let (mem, r) := memoryGas mem memorySize
  return (mem, do addGas (← r) (← wordGas (Back stack stackpos) perWord))

def memoryCopierGas (stackpos : Nat) : GasFn := memoryWordGas stackpos CopyGas

def gasCallDataCopy : GasFn := memoryCopierGas 2
def gasCodeCopy : GasFn := memoryCopierGas 2
def gasExtCodeCopy : GasFn := memoryCopierGas 3
def gasReturnDataCopy : GasFn := memoryCopierGas 2
def gasSha3 : GasFn := memoryWordGas 1 Sha3WordGas
def gasCreate2 : GasFn := memoryWordGas 2 Sha3WordGas

/-- `pureMemoryGascost`: RETURN, REVERT, MLOAD, MSTORE, MSTORE8 and CREATE. -/
def pureMemoryGascost : GasFn := fun _ _ _ mem memorySize => return memoryGas mem memorySize

def makeGasLog (n : Nat) : GasFn := fun _ _ stack mem memorySize =>
  let (requestedSize, overflow) := bigUint64 (Back stack 1)
  if overflow then return (mem, .error .GasUintOverflow)
  else
    let (mem, r) := memoryGas mem memorySize
    return (mem, do
      let gas ← addGas (← r) LogGas
      let gas ← addGas gas (u64 (n * LogTopicGas))
      let (memorySizeGas, overflow) := SafeMul requestedSize LogDataGas
      if overflow then throw .GasUintOverflow
      addGas gas memorySizeGas)

/-- `gasExp`: per byte of the exponent. -/
def gasExp : GasFn := fun _ _ stack mem _ =>
  let expByteLen := (BitLen (Back stack 1) + 7) / 8
  return (mem, addGas (expByteLen * ExpByte) ExpGas)

/-- `gasSStore` (EIP-2200): the cost and the refunds depend on the slot's original,
current and new values. -/
def gasSStore : GasFn := fun env contract stack mem _ => do
  if contract.Gas ≤ SstoreSentryGas then
    return (mem, .error (.Internal "not enough gas for reentrancy sentry"))
  let y := Back stack 1
  let x := Back stack 0
  let current ← sdb (GetState env.cr contract.self (BigToHash x))
  let value := BigToHash y
  if current = value then return (mem, .ok SstoreNoopGas)
  let original ← sdb (GetCommittedState env.cr contract.self (BigToHash x))
  if original = current then
    if original = Hash.zero then return (mem, .ok SstoreInitGas)
    if value = Hash.zero then sdb (AddRefund SstoreClearRefund)
    return (mem, .ok SstoreCleanGas)
  if original ≠ Hash.zero then
    if current = Hash.zero then sdb (SubRefund SstoreClearRefund)
    else if value = Hash.zero then sdb (AddRefund SstoreClearRefund)
  if original = value then
    if original = Hash.zero then sdb (AddRefund SstoreInitRefund)
    else sdb (AddRefund SstoreCleanRefund)
  return (mem, .ok SstoreDirtyGas)

/-- The last step of the call gas functions: `callGas` on what the frame has, stored
in `callGasTemp`, and added to the cost so far. -/
def chargeCallGas (contract : Contract) (stack : Stack) (mem : Memory) (gas : Nat) :
    VM (Memory × Except VmError Nat) := do
  match callGas contract.Gas gas (Back stack 0) with
  | .error e =>
    modify fun st => { st with callGasTemp := 0 }
    return (mem, .error e)
  | .ok temp =>
    modify fun st => { st with callGasTemp := temp }
    return (mem, addGas gas temp)

/-- `gasCall`: value transfer, a new account for a value sent to an empty one, memory,
and the gas passed on. -/
def gasCall : GasFn := fun _ contract stack mem memorySize => do
  let transfersValue := Sign (Back stack 2) ≠ 0
  let address := BigToAddress (Back stack 1)
  let newAccount ← if transfersValue then sdb (Empty address) else pure false
  let gas := (if newAccount then CallNewAccountGas else 0) +
    (if transfersValue then CallValueTransferGas else 0)
  let (mem, r) := memoryGas mem memorySize
  match r.bind (addGas gas) with
  | .error e => return (mem, .error e)
  | .ok gas => chargeCallGas contract stack mem gas

def gasCallCode : GasFn := fun _ contract stack mem memorySize => do
  let (mem, r) := memoryGas mem memorySize
  match r with
  | .error e => return (mem, .error e)
  | .ok memoryGas =>
    let gas := if Sign (Back stack 2) ≠ 0 then CallValueTransferGas else 0
    match addGas gas memoryGas with
    | .error e => return (mem, .error e)
    | .ok gas => chargeCallGas contract stack mem gas

/-- `gasDelegateCall` and `gasStaticCall`: memory and the gas passed on. -/
def gasDelegateCall : GasFn := fun _ contract stack mem memorySize => do
  let (mem, r) := memoryGas mem memorySize
  match r with
  | .error e => return (mem, .error e)
  | .ok gas => chargeCallGas contract stack mem gas

def gasStaticCall : GasFn := gasDelegateCall

/-- `gasSelfdestruct`: creating the beneficiary costs extra when value moves to an
empty account; the first self-destruct of a contract earns a refund. -/
def gasSelfdestruct : GasFn := fun _ contract stack mem _ => do
  let address := BigToAddress (Back stack 0)
  let extra ← if ← sdb (Empty address) then
      pure (if Sign (← sdb (GetBalance contract.self)) ≠ 0 then CreateBySelfdestructGas else 0)
    else pure 0
  if !(← sdb (HasSuicided contract.self)) then sdb (AddRefund SelfdestructRefundGas)
  return (mem, .ok (SelfdestructGas + extra))

end Dipper
