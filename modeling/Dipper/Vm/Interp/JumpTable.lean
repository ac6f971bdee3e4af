import Dipper.Vm.Interp.Instructions

/-!
# The jump table

`newIstanbulInstructionSet` of `jump_table.go`, as a function of the opcode. Its
constant gas is left out: the interpreter takes it from `OpConstGasConfig`. This
fork marks `DIFFICULTY` and `CHAINID` invalid.
-/

namespace Dipper

/-- The common row: an operation popping `pops` and pushing `push` words. -/
def plainOp (execute : ExecFn) (pops push : Nat) : Operation :=
  { execute, minStack := minStack pops push, maxStack := maxStack pops push, valid := true }

/-- A row that charges for memory. -/
def memoryOp (execute : ExecFn) (pops push : Nat) (dynamicGas : GasFn) (memorySize : MemSizeFn) :
    Operation :=
  { plainOp execute pops push with dynamicGas := some dynamicGas, memorySize := some memorySize }

/-- `LOGn` for `n ≤ 4`. -/
def logOp (n : Nat) : Operation :=
  { memoryOp (makeLog n) (2 + n) 0 (makeGasLog n) memoryLog with writes := true }

/-- `newIstanbulInstructionSet`; a byte with no row is invalid. -/
def istanbulInstructionSet (op : UInt8) : Operation :=
  match op.toNat with
  | 0x00 => { plainOp opStop 0 0 with halts := true }
  | 0x01 => plainOp opAdd 2 1
  | 0x02 => plainOp opMul 2 1
  | 0x03 => plainOp opSub 2 1
  | 0x04 => plainOp opDiv 2 1
  | 0x05 => plainOp opSdiv 2 1
  | 0x06 => plainOp opMod 2 1
  | 0x07 => plainOp opSmod 2 1
  | 0x08 => plainOp opAddmod 3 1
  | 0x09 => plainOp opMulmod 3 1
  | 0x0a => { plainOp opExp 2 1 with dynamicGas := some gasExp }
  | 0x0b => plainOp opSignExtend 2 1
  | 0x10 => plainOp opLt 2 1
  | 0x11 => plainOp opGt 2 1
  | 0x12 => plainOp opSlt 2 1
  | 0x13 => plainOp opSgt 2 1
  | 0x14 => plainOp opEq 2 1
  | 0x15 => plainOp opIszero 1 1
  | 0x16 => plainOp opAnd 2 1
  | 0x17 => plainOp opOr 2 1
  | 0x18 => plainOp opXor 2 1
  | 0x19 => plainOp opNot 1 1
  | 0x1a => plainOp opByte 2 1
  | 0x1b => plainOp opSHL 2 1
  | 0x1c => plainOp opSHR 2 1
  | 0x1d => plainOp opSAR 2 1
  | 0x20 => memoryOp opSha3 2 1 gasSha3 memorySha3
  | 0x30 => plainOp opAddress 0 1
  | 0x31 => plainOp opBalance 1 1
  | 0x32 => plainOp opOrigin 0 1
  | 0x33 => plainOp opCaller 0 1
  | 0x34 => plainOp opCallValue 0 1
  | 0x35 => plainOp opCallDataLoad 1 1
  | 0x36 => plainOp opCallDataSize 0 1
  | 0x37 => memoryOp opCallDataCopy 3 0 gasCallDataCopy memoryCallDataCopy
  | 0x38 => plainOp opCodeSize 0 1
  | 0x39 => memoryOp opCodeCopy 3 0 gasCodeCopy memoryCodeCopy
  | 0x3a => plainOp opGasprice 0 1
  | 0x3b => plainOp opExtCodeSize 1 1
  | 0x3c => memoryOp opExtCodeCopy 4 0 gasExtCodeCopy memoryExtCodeCopy
  | 0x3d => plainOp opReturnDataSize 0 1
  | 0x3e => memoryOp opReturnDataCopy 3 0 gasReturnDataCopy memoryReturnDataCopy
  | 0x3f => plainOp opExtCodeHash 1 1
  | 0x40 => plainOp opBlockhash 1 1
  | 0x41 => plainOp opCoinbase 0 1
  | 0x42 => plainOp opTimestamp 0 1
  | 0x43 => plainOp opNumber 0 1
  | 0x44 => { plainOp opDifficulty 0 1 with valid := false }
  | 0x45 => plainOp opGasLimit 0 1
  | 0x46 => { plainOp opChainID 0 1 with valid := false }
  | 0x47 => plainOp opSelfBalance 0 1
  | 0x50 => plainOp opPop 1 0
  | 0x51 => memoryOp opMload 1 1 pureMemoryGascost memoryMLoad
  | 0x52 => memoryOp opMstore 2 0 pureMemoryGascost memoryMStore
  | 0x53 => memoryOp opMstore8 2 0 pureMemoryGascost memoryMStore8
  | 0x54 => plainOp opSload 1 1
  | 0x55 => { plainOp opSstore 2 0 with dynamicGas := some gasSStore, writes := true }
  | 0x56 => { plainOp opJump 1 0 with jumps := true }
  | 0x57 => { plainOp opJumpi 2 0 with jumps := true }
  | 0x58 => plainOp opPc 0 1
  | 0x59 => plainOp opMsize 0 1
  | 0x5a => plainOp opGas 0 1
  | 0x5b => plainOp opJumpdest 0 0
  | 0x60 => plainOp opPush1 0 1
  | 0xa0 => logOp 0
  | 0xa1 => logOp 1
  | 0xa2 => logOp 2
  | 0xa3 => logOp 3
  | 0xa4 => logOp 4
  | 0xf0 => { memoryOp opCreate 3 1 pureMemoryGascost memoryCreate with writes := true, returns := true }
  | 0xf1 => { memoryOp opCall 7 1 gasCall memoryCall with returns := true }
  | 0xf2 => { memoryOp opCallCode 7 1 gasCallCode memoryCall with returns := true }
  | 0xf3 => { memoryOp opReturn 2 0 pureMemoryGascost memoryReturn with halts := true }
  | 0xf4 => { memoryOp opDelegateCall 6 1 gasDelegateCall memoryDelegateCall with returns := true }
  | 0xf5 => { memoryOp opCreate2 4 1 gasCreate2 memoryCreate2 with writes := true, returns := true }
  | 0xfa => { memoryOp opStaticCall 6 1 gasStaticCall memoryStaticCall with returns := true }
  | 0xfd => { memoryOp opRevert 2 0 pureMemoryGascost memoryRevert with reverts := true, returns := true }
  | 0xff => { plainOp opSuicide 1 0 with dynamicGas := some gasSelfdestruct, halts := true, writes := true }
  | n =>
    -- PUSH2..PUSH32, DUP1..DUP16 and SWAP1..SWAP16 are built by `makePush`, `makeDup`
    -- and `makeSwap`; every other byte has the zero row.
    if 0x61 ≤ n ∧ n ≤ 0x7f then plainOp (makePush (n - 0x5f) (n - 0x5f)) 0 1
    else if 0x80 ≤ n ∧ n ≤ 0x8f then
      { execute := makeDup (n - 0x7f), minStack := minStack (n - 0x7f) (n - 0x7e),
        maxStack := maxStack (n - 0x7f) (n - 0x7e), valid := true }
    else if 0x90 ≤ n ∧ n ≤ 0x9f then plainOp (makeSwap (n - 0x8f)) (n - 0x8e) (n - 0x8e)
    else { execute := opStop, minStack := 0, maxStack := 0 }

end Dipper
