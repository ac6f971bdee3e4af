import Dipper.Types.BigInt

/-!
# Memory, stack operands and memory sizing

The interpreter's byte memory with the fee already paid for it (`memory.go`), the
helpers of `common.go`, the quadratic memory fee of `memoryGasCost` and the
`memorySize` functions of `memory_table.go`. The stack is a list of words with the
top first, so `Back n` is its `n`-th element; the interpreter checks `minStack`
before any of these functions reads an operand.
-/

namespace Dipper

structure Memory where
  store : Bytes
  lastGasCost : Nat
  deriving DecidableEq

abbrev Stack := List Int

def Back (st : Stack) (n : Nat) : Int := st.getD n 0

/-- `copy(dst[offset:], src)` for a `src` that fits. -/
def writeBytes (dst : Bytes) (offset : Nat) (src : Bytes) : Bytes :=
  dst.take offset ++ src ++ dst.drop (offset + src.length)

namespace Memory

def NewMemory : Memory := ⟨[], 0⟩

def Len (m : Memory) : Nat := m.store.length

/-- `Memory.Set`: panics unless `[offset, offset+size)` lies in memory; `copy` then
fills the slice `store[offset:offset+size]` from `value`. -/
def Set (m : Memory) (offset size : Nat) (value : Bytes) : Except String Memory :=
  if size > 0 then
    let hi := u64 (offset + size)
    if hi > m.Len then .error "invalid memory: store empty"
    else if offset > hi then .error "runtime error: slice bounds out of range"
    else .ok { m with store := writeBytes m.store offset (value.take (hi - offset)) }
  else .ok m

/-- `Memory.Set32`: the slice is zeroed, then `math.ReadBits` writes the low bytes of
`|val|` big-endian into it. -/
def Set32 (m : Memory) (offset : Nat) (val : Int) : Except String Memory :=
  let hi := u64 (offset + 32)
  if hi > m.Len then .error "invalid memory: store empty"
  else if offset > hi then .error "runtime error: slice bounds out of range"
  else .ok { m with store := writeBytes m.store offset (natToBytesFixed (hi - offset) val.natAbs) }

/-- `Memory.GetPtr` (and `GetCopy`, which differs only by copying): nothing when the
size is zero or the offset lies past the end. -/
def GetPtr (m : Memory) (offset size : Int) : Except String (Option Bytes) :=
  if size = 0 then .ok none
  else if offset < m.Len then
    if offset + size ≤ m.Len ∧ 0 ≤ size then .ok (some ((m.store.drop offset.toNat).take size.toNat))
    else .error "runtime error: slice bounds out of range"
  else .ok none

/-- `Memory.Resize`: grows with zero bytes, never shrinks. -/
def Resize (m : Memory) (size : Nat) : Memory :=
  if m.Len < size then { m with store := m.store ++ List.replicate (size - m.Len) 0 } else m

theorem writeBytes_length {dst src : Bytes} {offset : Nat} (h : offset + src.length ≤ dst.length) :
    (writeBytes dst offset src).length = dst.length := by
  simp [writeBytes]; omega

theorem Set_Len {m m' : Memory} {offset size : Nat} {value : Bytes}
    (h : m.Set offset size value = .ok m') : m'.Len = m.Len ∧ m'.lastGasCost = m.lastGasCost := by
  unfold Set at h; dsimp only at h
  split at h
  · split at h
    · cases h
    · split at h
      · cases h
      · cases h
        rename_i hhi hlo
        have : offset + (value.take (u64 (offset + size) - offset)).length ≤ m.store.length := by
          simp only [List.length_take]; unfold Len at hhi; omega
        exact ⟨writeBytes_length this, rfl⟩
  · cases h; exact ⟨rfl, rfl⟩

theorem Set32_Len {m m' : Memory} {offset : Nat} {val : Int}
    (h : m.Set32 offset val = .ok m') : m'.Len = m.Len ∧ m'.lastGasCost = m.lastGasCost := by
  unfold Set32 at h; dsimp only at h
  split at h
  · cases h
  · split at h
    · cases h
    · cases h
      rename_i hhi hlo
      have : offset + (natToBytesFixed (u64 (offset + 32) - offset) val.natAbs).length ≤
          m.store.length := by
        simp only [natToBytesFixed_length]; unfold Len at hhi; omega
      exact ⟨writeBytes_length this, rfl⟩

@[simp] theorem Resize_Len (m : Memory) (size : Nat) : (m.Resize size).Len = max m.Len size := by
  unfold Resize; split
  · simp [Len]; omega
  · omega

@[simp] theorem Resize_lastGasCost (m : Memory) (size : Nat) :
    (m.Resize size).lastGasCost = m.lastGasCost := by
  unfold Resize; split <;> rfl

end Memory

/-- `calcMemSize64WithUint`: `offset + length`, and whether that overflowed. -/
def calcMemSize64WithUint (off : Int) (length64 : Nat) : Nat × Bool :=
  if length64 = 0 then (0, false)
  else if !IsUint64 off then (0, true)
  else
    let val := u64 (Uint64 off + length64)
    (val, decide (val < Uint64 off))

def calcMemSize64 (off l : Int) : Nat × Bool :=
  if !IsUint64 l then (0, true) else calcMemSize64WithUint off (Uint64 l)

/-- `toWordSize`: the number of 32-byte words covering `size`, without overflow. -/
def toWordSize (size : Nat) : Nat :=
  if size > MaxUint64 - 31 then MaxUint64 / 32 + 1 else (size + 31) / 32

def MemoryGas : Nat := 3
def QuadCoeffDiv : Nat := 512

/-- The total fee of a memory of `w` words, `3w + ⌊w²/512⌋`. -/
def memFee (w : Nat) : Nat := w * MemoryGas + w * w / QuadCoeffDiv

/-- `memoryGasCost`: the fee of growing memory to `newMemSize`, which becomes the fee
already paid; sizes past `0x1FFFFFFFE0` are refused. -/
def memoryGasCost (mem : Memory) (newMemSize : Nat) : Memory × Except Unit Nat :=
  if newMemSize = 0 then (mem, .ok 0)
  else if newMemSize > 0x1FFFFFFFE0 then (mem, .error ())
  else
    let newMemSizeWords := toWordSize newMemSize
    let newMemSize := newMemSizeWords * 32
    if newMemSize > mem.Len then
      let square := newMemSizeWords * newMemSizeWords
      let linCoef := newMemSizeWords * MemoryGas
      let quadCoef := square / QuadCoeffDiv
      let newTotalFee := linCoef + quadCoef
      ({ mem with lastGasCost := newTotalFee }, .ok (u64 (newTotalFee - (mem.lastGasCost : Int))))
    else (mem, .ok 0)

/-! ### `memory_table.go` -/

def memorySha3 (st : Stack) : Nat × Bool := calcMemSize64 (Back st 0) (Back st 1)
def memoryCallDataCopy (st : Stack) : Nat × Bool := calcMemSize64 (Back st 0) (Back st 2)
def memoryReturnDataCopy (st : Stack) : Nat × Bool := calcMemSize64 (Back st 0) (Back st 2)
def memoryCodeCopy (st : Stack) : Nat × Bool := calcMemSize64 (Back st 0) (Back st 2)
def memoryExtCodeCopy (st : Stack) : Nat × Bool := calcMemSize64 (Back st 1) (Back st 3)
def memoryMLoad (st : Stack) : Nat × Bool := calcMemSize64WithUint (Back st 0) 32
def memoryMStore (st : Stack) : Nat × Bool := calcMemSize64WithUint (Back st 0) 32
def memoryMStore8 (st : Stack) : Nat × Bool := calcMemSize64WithUint (Back st 0) 1
def memoryLog (st : Stack) : Nat × Bool := calcMemSize64 (Back st 0) (Back st 1)
def memoryCreate (st : Stack) : Nat × Bool := calcMemSize64 (Back st 1) (Back st 2)
def memoryCreate2 (st : Stack) : Nat × Bool := calcMemSize64 (Back st 1) (Back st 2)
def memoryReturn (st : Stack) : Nat × Bool := calcMemSize64 (Back st 0) (Back st 1)
def memoryRevert (st : Stack) : Nat × Bool := calcMemSize64 (Back st 0) (Back st 1)

/-- The larger of the return and argument regions of a call, whose operands start at
stack position `ret` and `args`. -/
def memoryCallRegions (st : Stack) (ret args : Nat) : Nat × Bool :=
  let (x, o1) := calcMemSize64 (Back st ret) (Back st (ret + 1))
  if o1 then (0, true) else
  let (y, o2) := calcMemSize64 (Back st args) (Back st (args + 1))
  if o2 then (0, true) else
  if x > y then (x, false) else (y, false)

def memoryCall (st : Stack) : Nat × Bool := memoryCallRegions st 5 3
def memoryDelegateCall (st : Stack) : Nat × Bool := memoryCallRegions st 4 2
def memoryStaticCall (st : Stack) : Nat × Bool := memoryCallRegions st 4 2

end Dipper
