import Dipper.Vm.Interp.Gas

/-!
# The operations

The `executionFunc`s of `instructions.go`. Words are `*big.Int` values: the
arithmetic follows `math/big` (Euclidean `Div` and `Mod`, two's-complement bitwise
operations) and reduces with `math.U256` where the source does. Operations that
read or write the state go through the state database; the call and create
operations start a nested frame through the entry points of `evm.go`, with the
given `run`. A failed memory access of the source is a panic here too.
-/

namespace Dipper

open CommitStateDB

namespace Frame

def push (fr : Frame) (v : Int) : Frame := { fr with stack := v :: fr.stack }

def pop (fr : Frame) (n : Nat) : Frame := { fr with stack := fr.stack.drop n }

def withGas (fr : Frame) (gas : Nat) : Frame := { fr with contract := { fr.contract with Gas := gas } }

end Frame

/-- A Go panic inside an operation. -/
def liftPanic {α : Type} : Except String α → VM α
  | .ok a => pure a
  | .error msg => vmPanic msg

def nilPanic : String := "runtime error: invalid memory address or nil pointer dereference"

/-- The 32 bytes a hasher writes into a `[32]byte` buffer. -/
def bufToHash (b : Bytes) : Hash := BytesToHash (RightPadBytes (b.take 32) 32)

/-- `getDataBig`: `size` bytes of `data` from `start`, zero-padded past its end. The size
reaches `RightPadBytes` through `int`, negative from `2^63` on, where nothing is padded. -/
def getDataBig (data : Bytes) (start size : Int) : Bytes :=
  let dlen : Int := data.length
  let s := min start dlen
  let e := min (s + size) dlen
  RightPadBytes ((data.drop (Uint64 s)).take (Uint64 e - Uint64 s)) (toInt64 (Uint64 size)).toNat

/-- `getData`: `size` bytes of `data` from `start`, zero-padded past its end. The start is
clamped to the length, but the end `start + size` is a `uint64` sum, which wraps; the slice
`data[start:end]` then ends below its start and panics. The size reaches `RightPadBytes`
through `int`, negative from `2^63` on, where nothing is padded. -/
def getData (data : Bytes) (start size : UInt64) : Except String Bytes :=
  let length := data.length
  let start := min start.toNat length
  let end_ := min ((start + size.toNat) % 2 ^ 64) length
  if end_ < start then throw "runtime error: slice bounds out of range"
  else pure (RightPadBytes ((data.drop start).take (end_ - start)) (toInt64 size.toNat).toNat)

theorem getD_min_length_add (data : Bytes) (start i : Nat) :
    data.getD (min start data.length + i) 0 = data.getD (start + i) 0 := by
  by_cases h : start ≤ data.length
  · rw [min_eq_left h]
  · rw [min_eq_right (by omega), List.getD_eq_default _ _ (by omega),
      List.getD_eq_default _ _ (by omega)]

theorem take_drop_min_length (data : Bytes) (s n : Nat) :
    (data.drop s).take (min (s + n) data.length - s) = (data.drop s).take n := by
  rw [List.take_eq_take_iff, List.length_drop]
  omega

theorem getData_eq {data : Bytes} (start : UInt64) {size : UInt64} (hlen : data.length < 2 ^ 63)
    (hsize : size.toNat < 2 ^ 63) :
    getData data start size =
      .ok ((List.range size.toNat).map fun i => data.getD (start.toNat + i) 0) := by
  -- the end does not wrap, and the slice is that of `size` bytes cut at the end of the data
  have hend : (min start.toNat data.length + size.toNat) % 2 ^ 64 =
      min start.toNat data.length + size.toNat := Nat.mod_eq_of_lt (by omega)
  unfold getData
  dsimp only
  rw [hend, if_neg (by omega), take_drop_min_length, toNat_toInt64_of_lt hsize, RightPadBytes_take_drop]
  simp only [getD_min_length_add]
  rfl

theorem getData_error_iff (data : Bytes) (start size : UInt64) :
    (∃ e, getData data start size = .error e) ↔
      2 ^ 64 ≤ min start.toNat data.length + size.toNat := by
  have hs := size.toNat_lt
  unfold getData
  dsimp only
  split
  · next h =>
    simp only [throw, throwThe, MonadExceptOf.throw, Except.error.injEq, exists_eq', true_iff]
    omega
  · next h =>
    simp only [pure, Except.pure, reduceCtorEq, exists_false, false_iff, not_le]
    omega

/-- `getData` is not overflow safe: it panics exactly when the clamped start plus the size
passes `2^64`, for instance from the second byte of a one-byte string with the size
`2^64 - 1`. -/
theorem getData_panics_on_wrap :
    (∀ data start size, (∃ e, getData data start size = .error e) ↔
      2 ^ 64 ≤ min start.toNat data.length + size.toNat) ∧
    getData [0] 1 18446744073709551615 = .error "runtime error: slice bounds out of range" :=
  ⟨getData_error_iff, by decide +kernel⟩

theorem getDataBig_eq {data : Bytes} {start size : Int} (hlen : data.length < 2 ^ 63)
    (hstart : 0 ≤ start) (hsize : 0 ≤ size) (hsize' : size < 2 ^ 63) :
    getDataBig data start size =
      (List.range size.toNat).map fun i => data.getD (start.toNat + i) 0 := by
  -- the three `Uint64` conversions read non-negative values below `2^64`
  have hU : ∀ x : Int, 0 ≤ x → x < 2 ^ 64 → Uint64 x = x.toNat := fun x h0 h => by
    unfold Uint64
    omega
  have hs : Uint64 (min start data.length) = min start.toNat data.length :=
    (hU _ (by omega) (by omega)).trans (by omega)
  have he : Uint64 (min (min start data.length + size) data.length) =
      min (min start.toNat data.length + size.toNat) data.length :=
    (hU _ (by omega) (by omega)).trans (by omega)
  unfold getDataBig
  dsimp only
  rw [hs, he, take_drop_min_length, hU size hsize (by omega), toNat_toInt64_of_lt (show size.toNat < 2 ^ 63 by omega),
    RightPadBytes_take_drop]
  simp only [getD_min_length_add]

/-! ### Arithmetic, comparison and bitwise operations -/

/-- An operation that pops `x` and `y` and pushes `f x y`. -/
def binaryOp (f : Int → Int → Int) : ExecFn := fun _ _ fr =>
  return ((fr.pop 2).push (f (Back fr.stack 0) (Back fr.stack 1)), [], none)

/-- An operation that replaces the top word `x` by `f x`. -/
def unaryOp (f : Int → Int) : ExecFn := fun _ _ fr =>
  return ((fr.pop 1).push (f (Back fr.stack 0)), [], none)

/-- An operation that pops `x`, `y` and `z` and pushes `f x y z`. -/
def ternaryOp (f : Int → Int → Int → Int) : ExecFn := fun _ _ fr =>
  return ((fr.pop 3).push (f (Back fr.stack 0) (Back fr.stack 1) (Back fr.stack 2)), [], none)

def boolWord (b : Bool) : Int := if b then 1 else 0

def opAdd : ExecFn := binaryOp fun x y => U256 (x + y)
def opSub : ExecFn := binaryOp fun x y => U256 (x - y)
def opMul : ExecFn := binaryOp fun x y => U256 (x * y)
def opDiv : ExecFn := binaryOp fun x y => if Sign y ≠ 0 then U256 (x / y) else 0

/-- `opSdiv`: truncated division of the signed readings. -/
def opSdiv : ExecFn := binaryOp fun x y =>
  let x := S256 x
  let y := S256 y
  if Sign y = 0 ∨ Sign x = 0 then 0
  else if Sign x ≠ Sign y then U256 (-((x.natAbs / y.natAbs : Nat) : Int))
  else U256 ((x.natAbs / y.natAbs : Nat) : Int)

def opMod : ExecFn := binaryOp fun x y => if Sign y = 0 then 0 else U256 (x % y)

/-- `opSmod`: the remainder takes the sign of the dividend. -/
def opSmod : ExecFn := binaryOp fun x y =>
  let x := S256 x
  let y := S256 y
  if Sign y = 0 then 0
  else if Sign x < 0 then U256 (-((x.natAbs % y.natAbs : Nat) : Int))
  else U256 ((x.natAbs % y.natAbs : Nat) : Int)

/-- `opExp`: `base` is the top word, `exponent` the next. -/
def opExp : ExecFn := binaryOp fun base exponent =>
  if exponent < 1 then 1
  else if Sign base = 0 then 0
  else if exponent = 1 then base
  else mathExp base exponent

/-- `opSignExtend`: with `back ≥ 31` only `back` is popped. -/
def opSignExtend : ExecFn := fun _ _ fr => do
  let back := Back fr.stack 0
  if back < 31 then
    let bit := Uint64 back * 8 + 7
    let num := Back fr.stack 1
    let mask : Int := 2 ^ bit - 1
    let num := if Int.testBit num bit then Int.lor num (Int.lnot mask) else Int.land num mask
    return ((fr.pop 2).push (U256 num), [], none)
  else return (fr.pop 1, [], none)

def opNot : ExecFn := unaryOp fun x => U256 (Int.lnot x)
def opLt : ExecFn := binaryOp fun x y => boolWord (x < y)
def opGt : ExecFn := binaryOp fun x y => boolWord (x > y)

/-- `opSlt`: words at or above `2^255` are the negative ones. -/
def opSlt : ExecFn := binaryOp fun x y =>
  if x ≥ tt255 ∧ y < tt255 then 1
  else if x < tt255 ∧ y ≥ tt255 then 0
  else boolWord (x < y)

def opSgt : ExecFn := binaryOp fun x y =>
  if x ≥ tt255 ∧ y < tt255 then 0
  else if x < tt255 ∧ y ≥ tt255 then 1
  else boolWord (x > y)

def opEq : ExecFn := binaryOp fun x y => boolWord (x = y)
def opIszero : ExecFn := unaryOp fun x => if Sign x > 0 then 0 else 1
def opAnd : ExecFn := binaryOp fun x y => Int.land x y
def opOr : ExecFn := binaryOp fun x y => Int.lor x y
def opXor : ExecFn := binaryOp fun x y => Int.xor x y

def opByte : ExecFn := binaryOp fun th val => if th < 32 then mathByte val (Int64 th) else 0

def opAddmod : ExecFn := ternaryOp fun x y z => if z > 0 then U256 ((x + y) % z) else 0
def opMulmod : ExecFn := ternaryOp fun x y z => if z > 0 then U256 ((x * y) % z) else 0

/-- The shifts reduce both operands first; a shift of 256 or more saturates. -/
def opSHL : ExecFn := binaryOp fun shift value =>
  let shift := U256 shift
  let value := U256 value
  if shift ≥ 256 then 0 else U256 (value * 2 ^ (Uint64 shift))

def opSHR : ExecFn := binaryOp fun shift value =>
  let shift := U256 shift
  let value := U256 value
  if shift ≥ 256 then 0 else U256 (value / 2 ^ (Uint64 shift))

/-- `opSAR`: an arithmetic shift of the signed reading. -/
def opSAR : ExecFn := binaryOp fun shift value =>
  let shift := U256 shift
  let value := S256 value
  if shift ≥ 256 then U256 (if Sign value ≥ 0 then 0 else -1)
  else U256 (value / 2 ^ (Uint64 shift))

/-! ### Environment and state reads -/

/-- An operation that pushes a word. -/
def pushOp (f : Env → Frame → VM Int) : ExecFn := fun env _ fr => do
  return (fr.push (← f env fr), [], none)

/-- An operation that replaces the top word `x` by what it reads at `x`. -/
def readOp (f : Env → Frame → Int → VM Int) : ExecFn := fun env _ fr => do
  return ((fr.pop 1).push (← f env fr (Back fr.stack 0)), [], none)

/-- `opSha3`: the SHA3-256 (`sha3.New256`) of a memory region. -/
def opSha3 : ExecFn := fun env _ fr => do
  let data ← liftPanic (fr.mem.GetPtr (Int64 (Back fr.stack 0)) (Int64 (Back fr.stack 1)))
  let hash := bufToHash (env.cr.sha3_256 (data.getD []))
  if env.cfg.EnablePreimageRecording then sdb (AddPreimage hash (data.getD []))
  return ((fr.pop 2).push hash.big, [], none)

def opAddress : ExecFn := pushOp fun _ fr => return bytesToNat fr.contract.self
def opBalance : ExecFn := readOp fun _ _ slot => sdb (GetBalance (BigToAddress slot))
def opOrigin : ExecFn := pushOp fun env _ => return bytesToNat env.ctx.Origin
def opCaller : ExecFn := pushOp fun _ fr => return bytesToNat fr.contract.CallerAddress
def opCallValue : ExecFn := pushOp fun _ fr => return fr.contract.value
def opCallDataLoad : ExecFn := readOp fun _ fr x => return bytesToNat (getDataBig fr.contract.Input x 32)
def opCallDataSize : ExecFn := pushOp fun _ fr => return fr.contract.Input.length
def opReturnDataSize : ExecFn := pushOp fun _ fr => return fr.returnData.length
def opExtCodeSize : ExecFn := readOp fun _ _ slot => return ← sdb (GetCodeSize (BigToAddress slot))
def opCodeSize : ExecFn := pushOp fun _ fr => return fr.contract.Code.length

/-- `opExtCodeHash`: zero for an empty account. -/
def opExtCodeHash : ExecFn := readOp fun _ _ slot => do
  let address := BigToAddress slot
  if ← sdb (Empty address) then return 0 else return (← sdb (GetCodeHash address)).big

/-- `opGasprice`: `TransitionCSDB` leaves `GasPrice` nil, and `Set(nil)` dereferences it. -/
def opGasprice : ExecFn := pushOp fun env _ =>
  match env.ctx.GasPrice with
  | some p => pure p
  | none => vmPanic nilPanic

/-- `opBlockhash`: the operand is dropped; the hash is the last block's. -/
def opBlockhash : ExecFn := readOp fun env _ _ => return env.ctx.GetHash.big

def opCoinbase : ExecFn := pushOp fun env _ => return bytesToNat env.ctx.CoinBase

def opTimestamp : ExecFn := pushOp fun env _ =>
  match env.ctx.Time with
  | some t => pure (U256 t)
  | none => vmPanic nilPanic

def opNumber : ExecFn := pushOp fun env _ =>
  match env.ctx.BlockNumber with
  | some n => pure (U256 n)
  | none => vmPanic nilPanic

def opDifficulty : ExecFn := pushOp fun _ _ => return 1
def opGasLimit : ExecFn := pushOp fun env _ => return U256 env.ctx.GasLimit
def opSelfBalance : ExecFn := pushOp fun _ fr => sdb (GetBalance fr.contract.self)

/-- `opChainID`: the chain config is never set, so its `ChainID` is the empty string. -/
def opChainID : ExecFn := pushOp fun _ _ => return bytesToNat []

def opPop : ExecFn := fun _ _ fr => return (fr.pop 1, [], none)

/-! ### Memory and storage -/

/-- A copy into memory from `src` (given the stack): `memOffset`, `dataOffset` and
`length` are the first three operands. -/
def copyOp (src : Env → Frame → VM Bytes) : ExecFn := fun env _ fr => do
  let memOffset := Back fr.stack 0
  let dataOffset := Back fr.stack 1
  let length := Back fr.stack 2
  let data := getDataBig (← src env fr) dataOffset length
  let mem ← liftPanic (fr.mem.Set (Uint64 memOffset) (Uint64 length) data)
  return ({ fr.pop 3 with mem := mem }, [], none)

def opCallDataCopy : ExecFn := copyOp fun _ fr => return fr.contract.Input
def opCodeCopy : ExecFn := copyOp fun _ fr => return fr.contract.Code

/-- `opExtCodeCopy`: the address comes first. -/
def opExtCodeCopy : ExecFn := fun env run fr => do
  let addr := BigToAddress (Back fr.stack 0)
  let code ← sdb (GetCode addr)
  copyOp (fun _ _ => return code.getD []) env run (fr.pop 1)

/-- `opReturnDataCopy`: reading past the return data is an error. -/
def opReturnDataCopy : ExecFn := fun _ _ fr => do
  let memOffset := Back fr.stack 0
  let dataOffset := Back fr.stack 1
  let length := Back fr.stack 2
  let stop := dataOffset + length
  if !IsUint64 stop || fr.returnData.length < Uint64 stop then
    return (fr.pop 3, [], some .ReturnDataOutOfBounds)
  let data := (fr.returnData.drop (Uint64 dataOffset)).take (Uint64 stop - Uint64 dataOffset)
  let mem ← liftPanic (fr.mem.Set (Uint64 memOffset) (Uint64 length) data)
  return ({ fr.pop 3 with mem := mem }, [], none)

def opMload : ExecFn := fun _ _ fr => do
  let data ← liftPanic (fr.mem.GetPtr (Int64 (Back fr.stack 0)) 32)
  return ((fr.pop 1).push (bytesToNat (data.getD [])), [], none)

def opMstore : ExecFn := fun _ _ fr => do
  let mem ← liftPanic (fr.mem.Set32 (Uint64 (Back fr.stack 0)) (Back fr.stack 1))
  return ({ fr.pop 2 with mem := mem }, [], none)

/-- `opMstore8`: `memory.store[off] = byte(val & 0xff)`, an indexed write. -/
def opMstore8 : ExecFn := fun _ _ fr => do
  let off := Int64 (Back fr.stack 0)
  let val := Int64 (Back fr.stack 1)
  if 0 ≤ off ∧ off < fr.mem.Len then
    let mem := { fr.mem with store := fr.mem.store.set off.toNat (UInt8.ofNat (val % 256).toNat) }
    return ({ fr.pop 2 with mem := mem }, [], none)
  else vmPanic "runtime error: index out of range"

def opSload : ExecFn := readOp fun env fr loc => do
  return (← sdb (GetState env.cr fr.contract.self (BigToHash loc))).big

def opSstore : ExecFn := fun env _ fr => do
  sdb (SetState env.cr fr.contract.self (BigToHash (Back fr.stack 0)) (BigToHash (Back fr.stack 1)))
  return (fr.pop 2, [], none)

/-! ### Control flow -/

def opJump : ExecFn := fun _ _ fr => do
  let pos := Back fr.stack 0
  if !validJumpdest fr.contract pos then return (fr.pop 1, [], some .InvalidJump)
  return ({ fr.pop 1 with pc := Uint64 pos }, [], none)

def opJumpi : ExecFn := fun _ _ fr => do
  let pos := Back fr.stack 0
  if Sign (Back fr.stack 1) ≠ 0 then
    if !validJumpdest fr.contract pos then return (fr.pop 2, [], some .InvalidJump)
    return ({ fr.pop 2 with pc := Uint64 pos }, [], none)
  else return ({ fr.pop 2 with pc := fr.pc + 1 }, [], none)

def opJumpdest : ExecFn := fun _ _ fr => return (fr, [], none)
def opPc : ExecFn := pushOp fun _ fr => return fr.pc
def opMsize : ExecFn := pushOp fun _ fr => return fr.mem.Len
def opGas : ExecFn := pushOp fun _ fr => return fr.contract.Gas

/-- `opPush1`: the byte after the opcode, or zero past the end of the code. -/
def opPush1 : ExecFn := fun _ _ fr => do
  let pc := fr.pc + 1
  let v := if pc < fr.contract.Code.length then (fr.contract.Code.getD pc 0).toNat else 0
  return ({ fr.push v with pc := pc }, [], none)

/-- `makePush(size, pushByteSize)`: the next bytes of the code, right-padded with zeros. -/
def makePush (size pushByteSize : Nat) : ExecFn := fun _ _ fr => do
  let codeLen := fr.contract.Code.length
  let startMin := min codeLen (fr.pc + 1)
  let endMin := min codeLen (startMin + pushByteSize)
  let v := bytesToNat (RightPadBytes ((fr.contract.Code.drop startMin).take (endMin - startMin)) pushByteSize)
  return ({ fr.push v with pc := fr.pc + size }, [], none)

/-- `makeDup(n)`: a copy of the `n`-th word. -/
def makeDup (size : Nat) : ExecFn := fun _ _ fr => return (fr.push (Back fr.stack (size - 1)), [], none)

/-- `makeSwap(n)`: the top word and the `(n+1)`-th change places. -/
def makeSwap (size : Nat) : ExecFn := fun _ _ fr =>
  let st := fr.stack
  return ({ fr with stack := (st.set 0 (Back st size)).set size (Back st 0) }, [], none)

/-- `makeLog(n)`: the region and `n` topics; the block number must be set. -/
def makeLog (size : Nat) : ExecFn := fun env _ fr => do
  let mStart := Back fr.stack 0
  let mSize := Back fr.stack 1
  let topics := ((fr.stack.drop 2).take size).map BigToHash
  let d ← liftPanic (fr.mem.GetPtr (Int64 mStart) (Int64 mSize))
  let blockNumber ← match env.ctx.BlockNumber with
    | some n => pure (Uint64 n)
    | none => vmPanic nilPanic
  sdb (AddLog ⟨fr.contract.self, topics, d.getD [], blockNumber, Hash.zero, 0, Hash.zero, 0⟩)
  return (fr.pop (2 + size), [], none)

/-! ### Calls, creation and halting -/

/-- `opCreate`: all but a 64th of the frame's gas goes to the new frame; what is left
of it comes back. -/
def opCreate : ExecFn := fun env run fr => do
  let value := Back fr.stack 0
  let input ← liftPanic (fr.mem.GetPtr (Int64 (Back fr.stack 1)) (Int64 (Back fr.stack 2)))
  let gas := fr.contract.Gas - fr.contract.Gas / 64
  let fr := fr.withGas (fr.contract.Gas - gas)
  let (res, addr, returnGas, suberr) ← EVM.Create env run fr.contract.ref (input.getD []) gas value
  let fr := (fr.pop 3).push (if suberr.isSome then 0 else bytesToNat addr)
  let fr := fr.withGas (u64 (fr.contract.Gas + returnGas))
  return (fr, if suberr = some .ExecutionReverted then res else [], none)

def opCreate2 : ExecFn := fun env run fr => do
  let endowment := Back fr.stack 0
  let input ← liftPanic (fr.mem.GetPtr (Int64 (Back fr.stack 1)) (Int64 (Back fr.stack 2)))
  let salt := Back fr.stack 3
  let gas := fr.contract.Gas - fr.contract.Gas / 64
  let fr := fr.withGas (fr.contract.Gas - gas)
  let (res, addr, returnGas, suberr) ← EVM.Create2 env run fr.contract.ref (input.getD []) gas endowment salt
  let fr := (fr.pop 4).push (if suberr.isSome then 0 else bytesToNat addr)
  let fr := fr.withGas (u64 (fr.contract.Gas + returnGas))
  return (fr, if suberr = some .ExecutionReverted then res else [], none)

/-- The common tail of the call operations: the result flag, the output copied to
memory unless the call failed, and the gas left by the callee. -/
def callReturn (fr : Frame) (pops : Nat) (retOffset retSize : Int)
    (res : Bytes × Nat × Option VmError) : VM (Frame × Bytes × Option VmError) := do
  let (ret, returnGas, err) := res
  let fr := (fr.pop pops).push (if err.isSome then 0 else 1)
  let mem ← if err = none ∨ err = some .ExecutionReverted then
      liftPanic (fr.mem.Set (Uint64 retOffset) (Uint64 retSize) ret)
    else pure fr.mem
  let fr := { fr with mem := mem }
  return (fr.withGas (u64 (fr.contract.Gas + returnGas)), ret, none)

/-- `opCall`: the gas is `callGasTemp`, plus the stipend when value moves. -/
def opCall : ExecFn := fun env run fr => do
  let st := fr.stack
  let gas := (← get).callGasTemp
  let value := U256 (Back st 2)
  let args ← liftPanic (fr.mem.GetPtr (Int64 (Back st 3)) (Int64 (Back st 4)))
  let gas := if Sign value ≠ 0 then u64 (gas + CallStipend) else gas
  let res ← EVM.Call env run fr.contract.ref (BigToAddress (Back st 1)) (args.getD []) gas value
  callReturn fr 7 (Back st 5) (Back st 6) res

def opCallCode : ExecFn := fun env run fr => do
  let st := fr.stack
  let gas := (← get).callGasTemp
  let value := U256 (Back st 2)
  let args ← liftPanic (fr.mem.GetPtr (Int64 (Back st 3)) (Int64 (Back st 4)))
  let gas := if Sign value ≠ 0 then u64 (gas + CallStipend) else gas
  let res ← EVM.CallCode env run fr.contract.ref (BigToAddress (Back st 1)) (args.getD []) gas value
  callReturn fr 7 (Back st 5) (Back st 6) res

def opDelegateCall : ExecFn := fun env run fr => do
  let st := fr.stack
  let gas := (← get).callGasTemp
  let args ← liftPanic (fr.mem.GetPtr (Int64 (Back st 2)) (Int64 (Back st 3)))
  let res ← EVM.DelegateCall env run fr.contract.ref (BigToAddress (Back st 1)) (args.getD []) gas
  callReturn fr 6 (Back st 4) (Back st 5) res

def opStaticCall : ExecFn := fun env run fr => do
  let st := fr.stack
  let gas := (← get).callGasTemp
  let args ← liftPanic (fr.mem.GetPtr (Int64 (Back st 2)) (Int64 (Back st 3)))
  let res ← EVM.StaticCall env run fr.contract.ref (BigToAddress (Back st 1)) (args.getD []) gas
  callReturn fr 6 (Back st 4) (Back st 5) res

/-- `opReturn` and `opRevert`: the output is a memory region. -/
def opReturn : ExecFn := fun _ _ fr => do
  let ret ← liftPanic (fr.mem.GetPtr (Int64 (Back fr.stack 0)) (Int64 (Back fr.stack 1)))
  return (fr.pop 2, ret.getD [], none)

def opRevert : ExecFn := opReturn

def opStop : ExecFn := fun _ _ fr => return (fr, [], none)

/-- `opSuicide`: the balance goes to the beneficiary, then the contract is marked. -/
def opSuicide : ExecFn := fun _ _ fr => do
  let balance ← sdb (GetBalance fr.contract.self)
  sdb (AddBalance (BigToAddress (Back fr.stack 0)) balance)
  discard <| sdb (Suicide fr.contract.self)
  return (fr.pop 1, [], none)

end Dipper
