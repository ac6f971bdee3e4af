import Dipper.Vm.Interp.Context

/-!
# Jump-destination analysis

`analysis.go` marks the PUSH data of a contract's code in a bit vector, one bit for each byte of
code, most significant bit first, in a buffer of `len(code)/8+1+4` bytes; an index outside the
buffer panics. `validJumpdest` accepts a JUMPDEST byte that is not marked. The interpreter's
model (`Dipper.codeBitmap`) keeps the marked positions as a list; here the bit vector is
modelled as the Go code writes it, and the two are related.
-/

namespace Dipper

/-! ### The linear scan -/

/-- The number of immediate bytes of an opcode: `n` for PUSHn, none otherwise. -/
def pushSize (op : UInt8) : Nat := if PUSH1 ≤ op ∧ op ≤ PUSH32 then (op - PUSH1).toNat + 1 else 0

/-- One step of the linear scan, from an instruction inside the code to the next one. -/
def ScanStep (code : Bytes) (pc pc' : Nat) : Prop :=
  pc < code.length ∧ pc' = pc + 1 + pushSize (code.getD pc 0)

/-- The instruction boundaries of `code`: the offsets the linear scan from 0 reaches. -/
def Boundary (code : Bytes) (pc : Nat) : Prop := Relation.ReflTransGen (ScanStep code) 0 pc

/-- `pos` is one of the immediate bytes of a PUSH the scan meets (possibly past the end). -/
def PushData (code : Bytes) (pos : Nat) : Prop :=
  ∃ pc, Boundary code pc ∧ pc < code.length ∧ pc < pos ∧ pos ≤ pc + pushSize (code.getD pc 0)

theorem pushSize_le (op : UInt8) : pushSize op ≤ 32 := by
  unfold pushSize
  split
  · next h =>
    have h32 := UInt8.le_iff_toNat_le.mp h.2
    have h1 : PUSH1.toNat = 96 := rfl
    have h127 : PUSH32.toNat = 127 := rfl
    rw [UInt8.toNat_sub_of_le _ _ h.1]
    omega
  · omega

theorem scanStep_rightUnique (code : Bytes) : Relator.RightUnique (ScanStep code) :=
  fun _ _ _ h₁ h₂ => h₁.2.trans h₂.2.symm

theorem scan_le {code : Bytes} {pc q : Nat} (h : Relation.ReflTransGen (ScanStep code) pc q) :
    pc ≤ q := by
  induction h with
  | refl => exact le_rfl
  | tail _ hstep ih => rw [hstep.2]; omega

theorem scan_head_iff {code : Bytes} {pc q : Nat} (h : pc < code.length) :
    Relation.ReflTransGen (ScanStep code) pc q ↔
      q = pc ∨ Relation.ReflTransGen (ScanStep code) (pc + 1 + pushSize (code.getD pc 0)) q := by
  rw [Relation.ReflTransGen.cases_head_iff, eq_comm]
  constructor
  · rintro (h | ⟨c, ⟨-, rfl⟩, hc⟩)
    · exact .inl h
    · exact .inr hc
  · rintro (hq | hq)
    · exact .inl hq
    · exact .inr ⟨_, ⟨h, rfl⟩, hq⟩

theorem scan_of_le {code : Bytes} {pc q : Nat} (h : code.length ≤ pc) :
    Relation.ReflTransGen (ScanStep code) pc q ↔ q = pc := by
  rw [Relation.ReflTransGen.cases_head_iff, eq_comm]
  constructor
  · rintro (h' | ⟨c, hc, -⟩)
    · exact h'
    · exact absurd hc.1 (by omega)
  · exact .inl

theorem Boundary.not_pushData {code : Bytes} {dest : Nat} (hd : Boundary code dest) :
    ¬ PushData code dest := by
  rintro ⟨pc, hpc, hlen, hlt, hle⟩
  rcases hpc.total_of_right_unique (scanStep_rightUnique code) hd with h | h
  · rcases (scan_head_iff hlen).mp h with rfl | h
    · omega
    · have := scan_le h
      omega
  · have := scan_le h
    omega

theorem boundary_of_le {code : Bytes} {dest : Nat} (hd : dest < code.length)
    (hp : ¬ PushData code dest) {pc : Nat} (hpc : Boundary code pc) (hle : pc ≤ dest) :
    Boundary code dest := by
  rcases hle.eq_or_lt with rfl | hlt
  · exact hpc
  · have hnext : pc + 1 + pushSize (code.getD pc 0) ≤ dest := by
      by_contra hgt
      exact hp ⟨pc, hpc, by omega, hlt, by omega⟩
    exact boundary_of_le hd hp (hpc.tail ⟨by omega, rfl⟩) hnext
termination_by dest - pc

theorem boundary_iff_not_pushData {code : Bytes} {dest : Nat} (hd : dest < code.length) :
    Boundary code dest ↔ ¬ PushData code dest :=
  ⟨Boundary.not_pushData, fun hp => boundary_of_le hd hp .refl (Nat.zero_le _)⟩

/-! ### The positions list of the interpreter -/

theorem codeBitmap.go_of_le {code : Bytes} {pc : Nat} (h : code.length ≤ pc) :
    ∀ fuel, codeBitmap.go code fuel pc = []
  | 0 => rfl
  | _ + 1 => by simp only [codeBitmap.go, if_neg (show ¬ pc < code.length by omega)]

theorem codeBitmap.go_of_lt {code : Bytes} {pc fuel : Nat} (h : pc < code.length) :
    codeBitmap.go code (fuel + 1) pc =
      List.range' (pc + 1) (pushSize (code.getD pc 0)) ++
        codeBitmap.go code fuel (pc + 1 + pushSize (code.getD pc 0)) := by
  simp only [codeBitmap.go, if_pos h, pushSize]
  split <;> simp

theorem mem_codeBitmap_go {code : Bytes} :
    ∀ fuel pc, code.length ≤ pc + fuel → ∀ x, x ∈ codeBitmap.go code fuel pc ↔
      ∃ q, Relation.ReflTransGen (ScanStep code) pc q ∧ q < code.length ∧ q < x ∧
        x ≤ q + pushSize (code.getD q 0) := by
  intro fuel
  induction fuel with
  | zero =>
    intro pc hfuel x
    simp only [codeBitmap.go, List.not_mem_nil, false_iff, scan_of_le (show code.length ≤ pc by omega)]
    rintro ⟨q, rfl, hq, -⟩
    omega
  | succ fuel ih =>
    intro pc hfuel x
    by_cases h : pc < code.length
    · rw [codeBitmap.go_of_lt h, List.mem_append, List.mem_range'_1,
        ih _ (by omega) x]
      simp only [scan_head_iff h, or_and_right, exists_or, exists_eq_left]
      exact or_congr_left (by omega)
    · simp only [codeBitmap.go_of_le (not_lt.mp h), List.not_mem_nil, false_iff,
        scan_of_le (not_lt.mp h)]
      rintro ⟨q, rfl, hq, -⟩
      omega

theorem mem_codeBitmap {code : Bytes} {x : Nat} : x ∈ codeBitmap code ↔ PushData code x :=
  mem_codeBitmap_go _ 0 (by omega) x

/-! ### The bit vector -/

namespace Analysis

/-- `bitvec`: a bit for each byte of code, most significant bit first; a set bit marks
PUSH data. -/
abbrev bitvec := List UInt8

/-- `(*bits)[i] |= m`: an index outside the vector panics. -/
def orByte (bits : bitvec) (i : Nat) (m : UInt8) : Except String bitvec :=
  if i < bits.length then .ok (bits.modify i (· ||| m)) else .error "index out of range"

namespace bitvec

def set (bits : bitvec) (pos : Nat) : Except String bitvec :=
  orByte bits (pos / 8) (0x80 >>> (pos % 8).toUInt8)

/-- `bits.set8(pos)`: the eight bits from `pos` on, across a byte boundary. -/
def set8 (bits : bitvec) (pos : Nat) : Except String bitvec := do
  let bits ← orByte bits (pos / 8) (0xFF >>> (pos % 8).toUInt8)
  orByte bits (pos / 8 + 1) (~~~(0xFF >>> (pos % 8).toUInt8))

def codeSegment (bits : bitvec) (pos : Nat) : Except String Bool :=
  if h : pos / 8 < bits.length then .ok ((bits[pos / 8] &&& (0x80 >>> (pos % 8).toUInt8)) == 0)
  else .error "index out of range"

/-- Bit `pos` of the vector; a byte past the end reads as zero. -/
def IsSet (bits : bitvec) (pos : Nat) : Bool := (bits.getD (pos / 8) 0).toNat.testBit (7 - pos % 8)

/-! The three masks of the code, bit by bit (bit `7 - a` of a byte is position `a` in it). -/

theorem testBit_mask_set {a b : Nat} (ha : a < 8) (hb : b < 8) :
    ((0x80 : UInt8) >>> b.toUInt8).toNat.testBit (7 - a) = decide (a = b) := by
  have key : ∀ a b : Fin 8,
      ((0x80 : UInt8) >>> b.val.toUInt8).toNat.testBit (7 - a.val) = decide (a.val = b.val) := by
    decide
  exact key ⟨a, ha⟩ ⟨b, hb⟩

theorem testBit_mask_set8 {a b : Nat} (ha : a < 8) (hb : b < 8) :
    ((0xFF : UInt8) >>> b.toUInt8).toNat.testBit (7 - a) = decide (b ≤ a) := by
  have key : ∀ a b : Fin 8,
      ((0xFF : UInt8) >>> b.val.toUInt8).toNat.testBit (7 - a.val) = decide (b.val ≤ a.val) := by
    decide
  exact key ⟨a, ha⟩ ⟨b, hb⟩

theorem testBit_mask_set8_next {a b : Nat} (ha : a < 8) (hb : b < 8) :
    (~~~((0xFF : UInt8) >>> b.toUInt8)).toNat.testBit (7 - a) = decide (a < b) := by
  have key : ∀ a b : Fin 8,
      (~~~((0xFF : UInt8) >>> b.val.toUInt8)).toNat.testBit (7 - a.val) = decide (a.val < b.val) := by
    decide
  exact key ⟨a, ha⟩ ⟨b, hb⟩

theorem mask_set_toNat {b : Nat} (hb : b < 8) :
    ((0x80 : UInt8) >>> b.toUInt8).toNat = 2 ^ (7 - b) := by
  have key : ∀ b : Fin 8, ((0x80 : UInt8) >>> b.val.toUInt8).toNat = 2 ^ (7 - b.val) := by decide
  exact key ⟨b, hb⟩

theorem IsSet_modify_or {bits : bitvec} {i : Nat} (h : i < bits.length) (m : UInt8) (p : Nat) :
    IsSet (bits.modify i (· ||| m)) p =
      (IsSet bits p || (decide (p / 8 = i) && m.toNat.testBit (7 - p % 8))) := by
  unfold IsSet
  rw [List.getD_eq_getElem?_getD, List.getD_eq_getElem?_getD, List.getElem?_modify]
  by_cases hp : p / 8 = i
  · subst hp
    simp [List.getElem?_eq_getElem h, UInt8.toNat_or, Nat.testBit_or]
  · simp [hp, Ne.symm hp]

theorem IsSet_replicate (n p : Nat) : IsSet (List.replicate n 0) p = false := by
  unfold IsSet
  rw [List.getD_eq_getElem?_getD, List.getElem?_replicate]
  split <;> simp

theorem set_spec {bits : bitvec} {pos : Nat} (h : pos / 8 < bits.length) :
    ∃ bits', bits.set pos = .ok bits' ∧ bits'.length = bits.length ∧
      ∀ p, bits'.IsSet p = (bits.IsSet p || decide (p = pos)) := by
  refine ⟨_, if_pos h, List.length_modify .., fun p => ?_⟩
  rw [IsSet_modify_or h, testBit_mask_set (Nat.mod_lt _ (by omega)) (Nat.mod_lt _ (by omega))]
  congr 1
  simp only [← Bool.decide_and, decide_eq_decide]
  omega

/-- `set8` sets the eight positions from `pos`: the low bits of its byte and the high bits
of the next one. -/
theorem set8_spec {bits : bitvec} {pos : Nat} (h : pos / 8 + 1 < bits.length) :
    ∃ bits', bits.set8 pos = .ok bits' ∧ bits'.length = bits.length ∧
      ∀ p, bits'.IsSet p = (bits.IsSet p || decide (pos ≤ p ∧ p < pos + 8)) := by
  have h0 : pos / 8 < bits.length := by omega
  refine ⟨(bits.modify (pos / 8) (· ||| (0xFF >>> (pos % 8).toUInt8))).modify (pos / 8 + 1)
    (· ||| ~~~(0xFF >>> (pos % 8).toUInt8)), ?_, by simp only [List.length_modify], fun p => ?_⟩
  · have h1 : pos / 8 + 1 < (bits.modify (pos / 8) (· ||| (0xFF >>> (pos % 8).toUInt8))).length := by
      simpa only [List.length_modify] using h
    simp only [set8, orByte, if_pos h0]
    exact if_pos h1
  · have hp := Nat.mod_lt p (show 8 > 0 by omega)
    have hpos := Nat.mod_lt pos (show 8 > 0 by omega)
    rw [IsSet_modify_or (by simpa only [List.length_modify] using h), IsSet_modify_or h0,
      testBit_mask_set8 hp hpos, testBit_mask_set8_next hp hpos, Bool.or_assoc]
    congr 1
    simp only [← Bool.decide_and, ← Bool.decide_or, decide_eq_decide]
    omega

theorem codeSegment_eq {bits : bitvec} {pos : Nat} (h : pos / 8 < bits.length) :
    bits.codeSegment pos = .ok (!bits.IsSet pos) := by
  rw [codeSegment, dif_pos h, IsSet, List.getD_eq_getElem _ _ h]
  congr 1
  rw [Bool.eq_iff_iff, beq_iff_eq, ← UInt8.toNat_inj, UInt8.toNat_and,
    mask_set_toNat (Nat.mod_lt _ (by omega)), Nat.and_two_pow]
  cases (bits[pos / 8]).toNat.testBit (7 - pos % 8) <;> simp

end bitvec

/-- The first inner loop of `codeBitmap`: whole bytes while eight bits or more remain. -/
def set8Loop (bits : bitvec) (pc : Nat) : Nat → Except String (bitvec × Nat × Nat)
  | numbits + 8 => do
    let bits ← bits.set8 pc
    set8Loop bits (pc + 8) numbits
  | numbits => .ok (bits, pc, numbits)

/-- The second inner loop: the remaining bits one at a time. -/
def setLoop (bits : bitvec) (pc : Nat) : Nat → Except String (bitvec × Nat)
  | 0 => .ok (bits, pc)
  | numbits + 1 => do
    let bits ← bits.set pc
    setLoop bits (pc + 1) numbits

/-- `codeBitmap(code)`, the loop over the code with the code's length as fuel. -/
def codeBitmap (code : Bytes) : Except String bitvec :=
  go code.length (List.replicate (code.length / 8 + 1 + 4) 0) 0
where
  go : Nat → bitvec → Nat → Except String bitvec
  | 0, bits, _ => .ok bits
  | fuel + 1, bits, pc =>
    if pc < code.length then
      let op := code.getD pc 0
      if PUSH1 ≤ op ∧ op ≤ PUSH32 then do
        let numbits := op - PUSH1 + 1
        let (bits, pc, numbits) ← set8Loop bits (pc + 1) numbits.toNat
        let (bits, pc) ← setLoop bits pc numbits
        go fuel bits pc
      else go fuel bits (pc + 1)
    else .ok bits

open bitvec

theorem setLoop_spec : ∀ (numbits : Nat) (bits : bitvec) (pc : Nat), pc + numbits ≤ 8 * bits.length →
    ∃ bits', setLoop bits pc numbits = .ok (bits', pc + numbits) ∧ bits'.length = bits.length ∧
      ∀ p, bits'.IsSet p = (bits.IsSet p || decide (pc ≤ p ∧ p < pc + numbits))
  | 0, bits, pc, _ => ⟨bits, rfl, rfl, fun p => by simp⟩
  | numbits + 1, bits, pc, h => by
    obtain ⟨b1, h1, hl1, hs1⟩ := set_spec (show pc / 8 < bits.length by omega)
    obtain ⟨b2, h2, hl2, hs2⟩ := setLoop_spec numbits b1 (pc + 1) (by omega)
    refine ⟨b2, ?_, hl2.trans hl1, fun p => ?_⟩
    · rw [setLoop, h1]
      exact h2.trans (by rw [Nat.add_right_comm, Nat.add_assoc])
    · rw [hs2, hs1, Bool.or_assoc]
      congr 1
      simp only [← Bool.decide_or, decide_eq_decide]
      omega

theorem set8Loop_spec (numbits : Nat) : ∀ (bits : bitvec) (pc : Nat), pc + numbits < 8 * bits.length →
    ∃ bits', set8Loop bits pc numbits = .ok (bits', pc + 8 * (numbits / 8), numbits % 8) ∧
      bits'.length = bits.length ∧
      ∀ p, bits'.IsSet p = (bits.IsSet p || decide (pc ≤ p ∧ p < pc + 8 * (numbits / 8))) := by
  induction numbits using Nat.strong_induction_on with
  | h numbits ih =>
    intro bits pc h
    by_cases h8 : 8 ≤ numbits
    · obtain ⟨n, rfl⟩ : ∃ n, numbits = n + 8 := ⟨numbits - 8, by omega⟩
      obtain ⟨b1, h1, hl1, hs1⟩ := set8_spec (show pc / 8 + 1 < bits.length by omega)
      obtain ⟨b2, h2, hl2, hs2⟩ := ih n (by omega) b1 (pc + 8) (by omega)
      refine ⟨b2, ?_, hl2.trans hl1, fun p => ?_⟩
      · rw [set8Loop, h1]
        refine h2.trans ?_
        congr 3 <;> omega
      · rw [hs2, hs1, Bool.or_assoc]
        congr 1
        simp only [← Bool.decide_or, decide_eq_decide]
        omega
    · rw [set8Loop.eq_2 _ _ _ (fun n hn => by omega)]
      refine ⟨bits, ?_, rfl, fun p => ?_⟩
      · congr 3 <;> omega
      · have : pc + 8 * (numbits / 8) = pc := by omega
        simp [this]

theorem pushSize_of_push {op : UInt8} (h : PUSH1 ≤ op ∧ op ≤ PUSH32) :
    (op - PUSH1 + 1).toNat = pushSize op := by
  have h32 := UInt8.le_iff_toNat_le.mp h.2
  have h1 : PUSH1.toNat = 96 := rfl
  have h127 : PUSH32.toNat = 127 := rfl
  rw [pushSize, if_pos h, UInt8.toNat_add, UInt8.toNat_sub_of_le _ _ h.1, UInt8.toNat_one]
  omega

/-- The bit-level loop sets exactly the positions of the interpreter's loop, and every write
stays in a buffer with room for 32 bytes past the code. -/
theorem codeBitmap.go_spec (code : Bytes) : ∀ (fuel : Nat) (bits : bitvec) (pc : Nat),
    code.length + 33 ≤ 8 * bits.length →
    ∃ bits', codeBitmap.go code fuel bits pc = .ok bits' ∧ bits'.length = bits.length ∧
      ∀ p, bits'.IsSet p = (bits.IsSet p || decide (p ∈ Dipper.codeBitmap.go code fuel pc))
  | 0, bits, pc, _ => ⟨bits, rfl, rfl, fun p => by simp [Dipper.codeBitmap.go]⟩
  | fuel + 1, bits, pc, h => by
    by_cases hpc : pc < code.length
    · rw [Dipper.codeBitmap.go_of_lt hpc]
      by_cases hop : PUSH1 ≤ code.getD pc 0 ∧ code.getD pc 0 ≤ PUSH32
      · -- PUSHn: n bits from pc + 1, by bytes and then by bits
        have hn := pushSize_le (code.getD pc 0)
        obtain ⟨b1, h1, hl1, hs1⟩ := set8Loop_spec (pushSize (code.getD pc 0)) bits (pc + 1) (by omega)
        obtain ⟨b2, h2, hl2, hs2⟩ := setLoop_spec (pushSize (code.getD pc 0) % 8) b1
          (pc + 1 + 8 * (pushSize (code.getD pc 0) / 8)) (by omega)
        rw [show pc + 1 + 8 * (pushSize (code.getD pc 0) / 8) + pushSize (code.getD pc 0) % 8
          = pc + 1 + pushSize (code.getD pc 0) by omega] at h2
        obtain ⟨b3, h3, hl3, hs3⟩ := codeBitmap.go_spec code fuel b2
          (pc + 1 + pushSize (code.getD pc 0)) (by omega)
        refine ⟨b3, ?_, hl3.trans (hl2.trans hl1), fun p => ?_⟩
        · simp only [codeBitmap.go, if_pos hpc, if_pos hop, pushSize_of_push hop, h1, bind,
            Except.bind, h2]
          exact h3
        · rw [hs3, hs2, hs1, Bool.or_assoc, Bool.or_assoc]
          congr 1
          simp only [List.mem_append, List.mem_range'_1, Bool.decide_or, ← Bool.or_assoc]
          congr 1
          simp only [← Bool.decide_or, decide_eq_decide]
          omega
      · have h0 : pushSize (code.getD pc 0) = 0 := if_neg hop
        obtain ⟨b1, h1, hl1, hs1⟩ := codeBitmap.go_spec code fuel bits (pc + 1) h
        refine ⟨b1, ?_, hl1, fun p => ?_⟩
        · simp only [codeBitmap.go, if_pos hpc, if_neg hop, h1]
        · rw [hs1, h0]
          simp
    · refine ⟨bits, by simp only [codeBitmap.go, if_neg hpc], rfl, fun p => ?_⟩
      simp [Dipper.codeBitmap.go_of_le (not_lt.mp hpc)]

/-- `codeBitmap` never indexes outside its `len(code)/8+1+4` bytes, and its set bits are the
positions of `Dipper.codeBitmap`. -/
theorem codeBitmap_spec (code : Bytes) :
    ∃ bits, codeBitmap code = .ok bits ∧ bits.length = code.length / 8 + 1 + 4 ∧
      ∀ p, bits.IsSet p = decide (p ∈ Dipper.codeBitmap code) := by
  obtain ⟨bits, h, hl, hs⟩ := codeBitmap.go_spec code code.length
    (List.replicate (code.length / 8 + 1 + 4) 0) 0 (by simp only [List.length_replicate]; omega)
  refine ⟨bits, h, by simpa only [List.length_replicate] using hl, fun p => ?_⟩
  simp only [hs, IsSet_replicate, Bool.false_or]
  rfl

example : codeBitmap [PUSH32] = .ok [0x7F, 0xFF, 0xFF, 0xFF, 0x80] := by decide

end Analysis

/-! ### `validJumpdest` -/

theorem BitLen_natCast_le_iff (n k : Nat) : BitLen n ≤ k ↔ n < 2 ^ k := by
  rw [BitLen_le_iff, Int.natAbs_natCast]

theorem validJumpdest_range {len dest : Nat} (hlen : len ≤ 2 ^ 62) :
    (BitLen dest ≥ 63 ∨ Uint64 dest ≥ len) ↔ len ≤ dest := by
  have hb := BitLen_natCast_le_iff dest 62
  have hu : Uint64 (dest : Int) = dest % 2 ^ 64 := by simp [Uint64]
  rw [hu]
  by_cases hd : dest < 2 ^ 62
  · rw [Nat.mod_eq_of_lt (by omega)]
    omega
  · omega

/-- For code shorter than `2^62` bytes (every slice Go can allocate), a destination is valid
iff it is a JUMPDEST at an instruction boundary, and the bit vector says which bytes are. -/
theorem validJumpdest_iff_boundary (c : Contract) (hlen : c.Code.length ≤ 2 ^ 62) (dest : Nat) :
    (validJumpdest c dest = true ↔
      dest < c.Code.length ∧ c.Code.getD dest 0 = JUMPDEST ∧ Boundary c.Code dest) ∧
    (∀ pos < c.Code.length, Boundary c.Code pos ↔ ¬ PushData c.Code pos) ∧
    ∃ bits, Analysis.codeBitmap c.Code = .ok bits ∧ bits.length = c.Code.length / 8 + 1 + 4 ∧
      ∀ pos < c.Code.length, (bits.codeSegment pos = .ok true ↔ Boundary c.Code pos) := by
  refine ⟨?_, fun pos hpos => boundary_iff_not_pushData hpos, ?_⟩
  · by_cases hd : dest < c.Code.length
    · have hr : ¬ (BitLen dest ≥ 63 ∨ Uint64 dest ≥ c.Code.length) := by
        rw [validJumpdest_range hlen]
        omega
      have hu : Uint64 dest = dest := by
        simp only [Uint64, Int.natAbs_natCast]
        exact Nat.mod_eq_of_lt (by omega)
      rw [validJumpdest, if_neg hr, hu, boundary_iff_not_pushData hd, ← mem_codeBitmap]
      simp [hd]
    · simp [validJumpdest, (validJumpdest_range hlen).mpr (not_lt.mp hd), hd]
  · obtain ⟨bits, h, hl, hs⟩ := Analysis.codeBitmap_spec c.Code
    refine ⟨bits, h, hl, fun pos hpos => ?_⟩
    rw [Analysis.bitvec.codeSegment_eq (by omega), hs, boundary_iff_not_pushData hpos,
      ← mem_codeBitmap]
    simp

/-- PUSH1 JUMPDEST JUMPDEST: the first JUMPDEST is PUSH data, the second a destination. -/
theorem validJumpdest_push1_jumpdest :
    ((Contract.NewContract (.account []) [] 0 0).SetCallCode [] Hash.zero
        [PUSH1, JUMPDEST, JUMPDEST]).Code.length ≤ 2 ^ 62 ∧
    ((validJumpdest ((Contract.NewContract (.account []) [] 0 0).SetCallCode [] Hash.zero
        [PUSH1, JUMPDEST, JUMPDEST]) (2 : Nat) = true ↔
      2 < [PUSH1, JUMPDEST, JUMPDEST].length ∧ [PUSH1, JUMPDEST, JUMPDEST].getD 2 0 = JUMPDEST ∧
        Boundary [PUSH1, JUMPDEST, JUMPDEST] 2) ∧
    (∀ pos < [PUSH1, JUMPDEST, JUMPDEST].length,
      Boundary [PUSH1, JUMPDEST, JUMPDEST] pos ↔ ¬ PushData [PUSH1, JUMPDEST, JUMPDEST] pos) ∧
    ∃ bits, Analysis.codeBitmap [PUSH1, JUMPDEST, JUMPDEST] = .ok bits ∧
      bits.length = [PUSH1, JUMPDEST, JUMPDEST].length / 8 + 1 + 4 ∧
      ∀ pos < [PUSH1, JUMPDEST, JUMPDEST].length,
        (bits.codeSegment pos = .ok true ↔ Boundary [PUSH1, JUMPDEST, JUMPDEST] pos)) :=
  ⟨by decide, validJumpdest_iff_boundary _ (by decide) 2⟩

end Dipper
