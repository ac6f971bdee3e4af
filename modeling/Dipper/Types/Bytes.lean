import Mathlib

/-!
# Byte strings, hashes and addresses

Byte slices are lists of bytes. A `Hash` is the fixed 32-byte array of the
source, kept as its big-endian value below `2^256`; an `AccAddress` is a plain
byte slice of any length, as `BigToAddress` produces it (it does not crop to
20 bytes).
-/

namespace Dipper

abbrev Bytes := List UInt8

/-- Bytes compare as unsigned numbers; byte slices then carry the lexicographic order of
`bytes.Compare`, shorter before longer on a common beginning. -/
instance instLinearOrderUInt8 : LinearOrder UInt8 where
  le_refl := UInt8.le_refl
  le_trans _ _ _ := UInt8.le_trans
  le_antisymm _ _ := UInt8.le_antisymm
  le_total := UInt8.le_total
  lt_iff_le_not_ge _ _ := by
    rw [UInt8.not_le]
    exact ⟨fun h => ⟨UInt8.le_of_lt h, h⟩, fun h => h.2⟩
  toDecidableLE := inferInstance
  min_def _ _ := rfl
  max_def _ _ := rfl

/-- `new(big.Int).SetBytes(b)`: the big-endian value of a byte slice. -/
def bytesToNat (b : Bytes) : Nat := b.foldl (fun acc x => acc*256 + x.toNat) 0

/-- `big.Int.Bytes` of a natural: its minimal big-endian encoding, empty for zero.
The first argument is fuel; `natToBytes` gives one step per value, far more than needed. -/
def natToBytesAux : Nat → Nat → Bytes
  | 0, _ => []
  | k+1, n => if n = 0 then [] else natToBytesAux k (n/256) ++ [UInt8.ofNat (n%256)]

def natToBytes (n : Nat) : Bytes := natToBytesAux n n

/-- Big-endian encoding of `n` on exactly `len` bytes (the low `len` bytes). -/
def natToBytesFixed : Nat → Nat → Bytes
  | 0, _ => []
  | len+1, n => natToBytesFixed len (n/256) ++ [UInt8.ofNat (n%256)]

theorem bytesToNat_append (a b : Bytes) :
    bytesToNat (a ++ b) = bytesToNat a * 256^b.length + bytesToNat b := by
  induction b using List.reverseRecOn with
  | nil => simp [bytesToNat]
  | append_singleton b x ih =>
    rw [← List.append_assoc]
    simp only [bytesToNat, List.foldl_append, List.foldl_cons, List.foldl_nil,
      List.length_append, List.length_singleton] at ih ⊢
    rw [ih, pow_succ]; ring

@[simp] theorem bytesToNat_nil : bytesToNat [] = 0 := rfl

@[simp] theorem bytesToNat_singleton (x : UInt8) : bytesToNat [x] = x.toNat := by
  simp [bytesToNat]

theorem natToBytesAux_value (k n : Nat) (h : n ≤ k) : bytesToNat (natToBytesAux k n) = n := by
  induction k generalizing n with
  | zero => simp [natToBytesAux]; omega
  | succ k ih =>
    simp only [natToBytesAux]
    split
    · simp_all
    · rw [bytesToNat_append, ih (n/256) (by omega)]
      simp
      omega

@[simp] theorem bytesToNat_natToBytes (n : Nat) : bytesToNat (natToBytes n) = n :=
  natToBytesAux_value n n le_rfl

@[simp] theorem natToBytesFixed_length (len n : Nat) : (natToBytesFixed len n).length = len := by
  induction len generalizing n <;> simp_all [natToBytesFixed]

theorem bytesToNat_natToBytesFixed (len n : Nat) :
    bytesToNat (natToBytesFixed len n) = n % 256^len := by
  induction len generalizing n with
  | zero => simp [natToBytesFixed, Nat.mod_one]
  | succ len ih =>
    simp only [natToBytesFixed]
    rw [bytesToNat_append, ih, pow_succ', Nat.mod_mul]
    simp
    ring

/-- A 32-byte hash, kept as its big-endian value. -/
@[ext] structure Hash where
  val : Nat
  lt : val < 2^256
  deriving DecidableEq

namespace Hash

/-- `sdk.Hash{}`, the zero hash. -/
def zero : Hash := ⟨0, by norm_num⟩

/-- `h.Bytes()`: always 32 bytes. -/
def toBytes (h : Hash) : Bytes := natToBytesFixed 32 h.val

/-- `h.Big()`. -/
def big (h : Hash) : Int := h.val

end Hash

/-- `sdk.BytesToHash`: keep the last 32 bytes, left-padded with zeros. -/
def BytesToHash (b : Bytes) : Hash := ⟨bytesToNat b % 2^256, Nat.mod_lt _ (by norm_num)⟩

/-- `sdk.BigToHash`: `BytesToHash(b.Bytes())`, so the sign of `b` is dropped. -/
def BigToHash (b : Int) : Hash := ⟨b.natAbs % 2^256, Nat.mod_lt _ (by norm_num)⟩

theorem BigToHash_eq (b : Int) : BigToHash b = BytesToHash (natToBytes b.natAbs) := by
  simp [BigToHash, BytesToHash]

@[simp] theorem BytesToHash_toBytes (h : Hash) : BytesToHash h.toBytes = h := by
  have h32 : (256:Nat)^32 = 2^256 := by norm_num
  ext
  simp only [BytesToHash, Hash.toBytes, bytesToNat_natToBytesFixed, h32,
    Nat.mod_eq_of_lt h.lt]

@[simp] theorem BytesToHash_nil : BytesToHash [] = Hash.zero := by
  simp [BytesToHash, Hash.zero]

/-- `sdk.AccAddress`: a byte slice; maps keyed by its bech32 string are keyed by the bytes. -/
abbrev Address := Bytes

/-- `sdk.BigToAddress(b) = BytesToAddress(b.Bytes())`, the minimal encoding of `|b|`. -/
def BigToAddress (b : Int) : Address := natToBytes b.natAbs

def RightPadBytes (slice : Bytes) (l : Nat) : Bytes :=
  if l ≤ slice.length then slice else slice ++ List.replicate (l - slice.length) 0

def LeftPadBytes (slice : Bytes) (l : Nat) : Bytes :=
  if l ≤ slice.length then slice else List.replicate (l - slice.length) 0 ++ slice

theorem getElem?_RightPadBytes (s : Bytes) (l i : Nat) :
    (RightPadBytes s l)[i]? = if i < s.length then s[i]? else if i < l then some 0 else none := by
  unfold RightPadBytes
  split
  · by_cases hi : i < s.length
    · simp [hi]
    · simp [hi]
      omega
  · by_cases hi : i < s.length
    · simp [hi, List.getElem?_append_left]
    · -- past the slice, the zeros of the padding
      rw [List.getElem?_append_right (by omega), List.getElem?_replicate]
      by_cases hl : i < l
      · simp [hi, hl]
        omega
      · simp [hi, hl]
        omega

theorem RightPadBytes_take_drop (data : Bytes) (s l : Nat) :
    RightPadBytes ((data.drop s).take l) l = (List.range l).map fun i => data.getD (s + i) 0 := by
  apply List.ext_getElem?
  intro i
  rw [getElem?_RightPadBytes, List.getElem?_map, List.length_take, List.length_drop]
  by_cases hi : i < l
  · rw [List.getElem?_range hi]
    by_cases hd : s + i < data.length
    · simp [hi, hd, List.getElem?_drop, List.getD_eq_getElem?_getD]
      intro h
      omega
    · simp [hi, hd, List.getD_eq_getElem?_getD]
      omega
  · simp [hi]

end Dipper
