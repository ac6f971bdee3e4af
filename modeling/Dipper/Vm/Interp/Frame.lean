import Dipper.Vm.Interp.Interpreter

/-!
# What an operation does to its frame

Every operation of the jump table keeps the code it runs and the size and paid fee
of its memory: memory only grows in the interpreter loop, where it is charged for.
An operation that starts no frame also keeps its contract, and so its gas, and moves
the program counter only forward unless it jumps; the calls and creates change the
contract's gas alone. These facts hold of every result, from every state, and are
proved once per operation and once for the table.
-/

namespace Dipper

open StateExcept

/-- The frame facts every operation keeps. -/
structure FrameShape (fr fr' : Frame) : Prop where
  code : fr'.contract.Code = fr.contract.Code
  len : fr'.mem.Len = fr.mem.Len
  fee : fr'.mem.lastGasCost = fr.mem.lastGasCost

/-- An operation that keeps its contract and memory size, and moves the program counter
forward (`forward`) or anywhere. -/
def ExecKeeps (forward : Bool) (e : ExecFn) : Prop :=
  ∀ env run fr, Always (e env run fr) fun r =>
    r.1.contract = fr.contract ∧ r.1.mem.Len = fr.mem.Len ∧ r.1.mem.lastGasCost = fr.mem.lastGasCost ∧
      (forward = true → fr.pc ≤ r.1.pc)

theorem ExecKeeps.of_frame {forward : Bool} {e : ExecFn}
    (h : ∀ env run fr, Always (e env run fr) fun r =>
      r.1.contract = fr.contract ∧ r.1.mem = fr.mem ∧ fr.pc ≤ r.1.pc) : ExecKeeps forward e := by
  intro env run fr
  refine (h env run fr).mono ?_
  rintro r ⟨hc, hm, hpc⟩
  exact ⟨hc, by rw [hm], by rw [hm], fun _ => hpc⟩

theorem always_liftPanic {α : Type} {x : Except String α} {P : α → Prop} (h : ∀ a, x = .ok a → P a) :
    Always (liftPanic x) P := by
  cases x with
  | error e => exact Always.throw
  | ok a => exact Always.pure (h a rfl)

/-! ### The combinators -/

@[simp] theorem Frame.push_contract (fr : Frame) (v : Int) : (fr.push v).contract = fr.contract := rfl
@[simp] theorem Frame.push_mem (fr : Frame) (v : Int) : (fr.push v).mem = fr.mem := rfl
@[simp] theorem Frame.push_pc (fr : Frame) (v : Int) : (fr.push v).pc = fr.pc := rfl
@[simp] theorem Frame.pop_contract (fr : Frame) (n : Nat) : (fr.pop n).contract = fr.contract := rfl
@[simp] theorem Frame.pop_mem (fr : Frame) (n : Nat) : (fr.pop n).mem = fr.mem := rfl
@[simp] theorem Frame.pop_pc (fr : Frame) (n : Nat) : (fr.pop n).pc = fr.pc := rfl
@[simp] theorem Frame.withGas_mem (fr : Frame) (g : Nat) : (fr.withGas g).mem = fr.mem := rfl
@[simp] theorem Frame.withGas_pc (fr : Frame) (g : Nat) : (fr.withGas g).pc = fr.pc := rfl
@[simp] theorem Frame.withGas_code (fr : Frame) (g : Nat) :
    (fr.withGas g).contract.Code = fr.contract.Code := rfl
@[simp] theorem Frame.withGas_gas (fr : Frame) (g : Nat) : (fr.withGas g).contract.Gas = g := rfl

theorem binaryOp_keeps (f : Int → Int → Int) : ExecKeeps true (binaryOp f) :=
  ExecKeeps.of_frame fun _ _ _ => Always.pure ⟨rfl, rfl, le_rfl⟩

theorem unaryOp_keeps (f : Int → Int) : ExecKeeps true (unaryOp f) :=
  ExecKeeps.of_frame fun _ _ _ => Always.pure ⟨rfl, rfl, le_rfl⟩

theorem ternaryOp_keeps (f : Int → Int → Int → Int) : ExecKeeps true (ternaryOp f) :=
  ExecKeeps.of_frame fun _ _ _ => Always.pure ⟨rfl, rfl, le_rfl⟩

theorem pushOp_keeps (f : Env → Frame → VM Int) : ExecKeeps true (pushOp f) :=
  ExecKeeps.of_frame fun _ _ _ => Always.bind fun _ => Always.pure ⟨rfl, rfl, le_rfl⟩

theorem readOp_keeps (f : Env → Frame → Int → VM Int) : ExecKeeps true (readOp f) :=
  ExecKeeps.of_frame fun _ _ _ => Always.bind fun _ => Always.pure ⟨rfl, rfl, le_rfl⟩

theorem always_liftPanic_Set (m : Memory) (offset size : Nat) (value : Bytes) :
    Always (liftPanic (m.Set offset size value)) fun m' : Memory =>
      m'.Len = m.Len ∧ m'.lastGasCost = m.lastGasCost :=
  always_liftPanic fun _ h => Memory.Set_Len h

theorem copyOp_keeps (src : Env → Frame → VM Bytes) : ExecKeeps true (copyOp src) := by
  intro env run fr
  refine Always.bind fun data => ?_
  dsimp only
  refine Always.bind_of (always_liftPanic_Set _ _ _ _) fun mem hmem => Always.pure ?_
  exact ⟨rfl, hmem.1, hmem.2, fun _ => le_rfl⟩

/-! ### The other operations -/

theorem opSignExtend_keeps : ExecKeeps true opSignExtend := by
  refine ExecKeeps.of_frame fun env run fr => ?_
  unfold opSignExtend
  refine Always.ite (fun _ => Always.pure ⟨rfl, rfl, le_rfl⟩) (fun _ => Always.pure ⟨rfl, rfl, le_rfl⟩)

theorem opSha3_keeps : ExecKeeps true opSha3 := by
  refine ExecKeeps.of_frame fun env run fr => ?_
  refine Always.bind fun data => ?_
  dsimp only
  refine Always.ite (fun _ => Always.bind fun _ => ?_) (fun _ => ?_) <;> exact Always.pure ⟨rfl, rfl, le_rfl⟩

theorem opExtCodeCopy_keeps : ExecKeeps true opExtCodeCopy := by
  intro env run fr
  refine Always.bind fun code => ((copyOp_keeps _) env run (fr.pop 1)).mono ?_
  rintro r ⟨hc, hl, hf, hpc⟩
  exact ⟨hc, hl, hf, hpc⟩

theorem opReturnDataCopy_keeps : ExecKeeps true opReturnDataCopy := by
  intro env run fr
  dsimp only [opReturnDataCopy]
  refine Always.ite (fun _ => Always.pure ⟨rfl, rfl, rfl, fun _ => le_rfl⟩) (fun _ => ?_)
  refine Always.bind_of (always_liftPanic_Set _ _ _ _) fun mem hmem => Always.pure ?_
  exact ⟨rfl, hmem.1, hmem.2, fun _ => le_rfl⟩

theorem opMload_keeps : ExecKeeps true opMload :=
  ExecKeeps.of_frame fun _ _ _ => Always.bind fun _ => Always.pure ⟨rfl, rfl, le_rfl⟩

theorem opMstore_keeps : ExecKeeps true opMstore := by
  intro env run fr
  refine Always.bind_of (always_liftPanic fun _ h => Memory.Set32_Len h) fun mem hmem => Always.pure ?_
  exact ⟨rfl, hmem.1, hmem.2, fun _ => le_rfl⟩

theorem opMstore8_keeps : ExecKeeps true opMstore8 := by
  intro env run fr
  dsimp only [opMstore8]
  refine Always.ite (fun _ => Always.pure ?_) (fun _ => Always.throw)
  exact ⟨rfl, by simp [Memory.Len], rfl, fun _ => le_rfl⟩

theorem opSstore_keeps : ExecKeeps true opSstore :=
  ExecKeeps.of_frame fun _ _ _ => Always.bind fun _ => Always.pure ⟨rfl, rfl, le_rfl⟩

theorem opJump_keeps : ExecKeeps false opJump := by
  intro env run fr
  dsimp only [opJump]
  refine Always.ite (fun _ => Always.pure ?_) (fun _ => Always.pure ?_) <;>
    exact ⟨rfl, rfl, rfl, fun h => absurd h Bool.false_ne_true⟩

theorem opJumpi_keeps : ExecKeeps false opJumpi := by
  intro env run fr
  dsimp only [opJumpi]
  refine Always.ite (fun _ => Always.ite (fun _ => Always.pure ?_) (fun _ => Always.pure ?_))
    (fun _ => Always.pure ?_) <;> exact ⟨rfl, rfl, rfl, fun h => absurd h Bool.false_ne_true⟩

theorem opJumpdest_keeps : ExecKeeps true opJumpdest :=
  ExecKeeps.of_frame fun _ _ _ => Always.pure ⟨rfl, rfl, le_rfl⟩

theorem opPush1_keeps : ExecKeeps true opPush1 :=
  ExecKeeps.of_frame fun _ _ fr => Always.pure ⟨rfl, rfl, Nat.le_succ fr.pc⟩

theorem makePush_keeps (size pushByteSize : Nat) : ExecKeeps true (makePush size pushByteSize) :=
  ExecKeeps.of_frame fun _ _ fr => Always.pure ⟨rfl, rfl, Nat.le_add_right fr.pc size⟩

theorem makeDup_keeps (size : Nat) : ExecKeeps true (makeDup size) :=
  ExecKeeps.of_frame fun _ _ _ => Always.pure ⟨rfl, rfl, le_rfl⟩

theorem makeSwap_keeps (size : Nat) : ExecKeeps true (makeSwap size) :=
  ExecKeeps.of_frame fun _ _ _ => Always.pure ⟨rfl, rfl, le_rfl⟩

theorem makeLog_keeps (size : Nat) : ExecKeeps true (makeLog size) := by
  refine ExecKeeps.of_frame fun env run fr => ?_
  refine Always.bind fun d => ?_
  dsimp only
  -- the block number is read, or its nil dereference panics
  split <;> exact Always.bind fun _ => Always.bind fun _ => Always.pure ⟨rfl, rfl, le_rfl⟩

theorem opReturn_keeps : ExecKeeps true opReturn :=
  ExecKeeps.of_frame fun _ _ _ => Always.bind fun _ => Always.pure ⟨rfl, rfl, le_rfl⟩

theorem opStop_keeps : ExecKeeps true opStop :=
  ExecKeeps.of_frame fun _ _ _ => Always.pure ⟨rfl, rfl, le_rfl⟩

theorem opPop_keeps : ExecKeeps true opPop :=
  ExecKeeps.of_frame fun _ _ _ => Always.pure ⟨rfl, rfl, le_rfl⟩

theorem opSuicide_keeps : ExecKeeps true opSuicide := by
  refine ExecKeeps.of_frame fun env run fr => ?_
  refine Always.bind fun _ => Always.bind fun _ => Always.bind fun _ => Always.pure ⟨rfl, rfl, le_rfl⟩

/-! ### Calls and creates -/

/-- An operation that starts a frame: it keeps the code, the memory size and the
program counter. -/
def ExecShapes (e : ExecFn) : Prop :=
  ∀ env run fr, Always (e env run fr) fun r => FrameShape fr r.1 ∧ r.1.pc = fr.pc

theorem callReturn_shape (fr : Frame) (pops : Nat) (retOffset retSize : Int)
    (res : Bytes × Nat × Option VmError) :
    Always (callReturn fr pops retOffset retSize res) fun r => FrameShape fr r.1 ∧ r.1.pc = fr.pc := by
  obtain ⟨ret, returnGas, err⟩ := res
  dsimp only [callReturn]
  -- the output is written to memory only after a success or a revert
  split
  · exact Always.bind_of (always_liftPanic_Set _ _ _ _) fun _ hm =>
      Always.pure ⟨⟨rfl, hm.1, hm.2⟩, rfl⟩
  · rw [pure_bind]
    exact Always.pure ⟨⟨rfl, rfl, rfl⟩, rfl⟩

theorem opCall_shape : ExecShapes opCall := fun _ _ fr =>
  Always.bind fun _ => Always.bind fun _ => Always.bind fun res => callReturn_shape fr 7 _ _ res

theorem opCallCode_shape : ExecShapes opCallCode := fun _ _ fr =>
  Always.bind fun _ => Always.bind fun _ => Always.bind fun res => callReturn_shape fr 7 _ _ res

theorem opDelegateCall_shape : ExecShapes opDelegateCall := fun _ _ fr =>
  Always.bind fun _ => Always.bind fun _ => Always.bind fun res => callReturn_shape fr 6 _ _ res

theorem opStaticCall_shape : ExecShapes opStaticCall := fun _ _ fr =>
  Always.bind fun _ => Always.bind fun _ => Always.bind fun res => callReturn_shape fr 6 _ _ res

theorem opCreate_shape : ExecShapes opCreate := fun _ _ _ =>
  Always.bind fun _ => Always.bind fun _ => Always.pure ⟨⟨rfl, rfl, rfl⟩, rfl⟩

theorem opCreate2_shape : ExecShapes opCreate2 := fun _ _ _ =>
  Always.bind fun _ => Always.bind fun _ => Always.pure ⟨⟨rfl, rfl, rfl⟩, rfl⟩

/-! ### The table -/

/-- What a row of the table does to its frame: it keeps the frame's shape, moves the
program counter forward unless the row jumps, and keeps the contract unless the row
starts a frame. -/
def RowKeeps (o : Operation) : Prop :=
  ∀ env run fr, Always (o.execute env run fr) fun r =>
    FrameShape fr r.1 ∧ (o.jumps = false → fr.pc ≤ r.1.pc) ∧ (o.returns = false → r.1.contract = fr.contract)

theorem RowKeeps.of_keeps {o : Operation} {forward : Bool} (hk : ExecKeeps forward o.execute)
    (hjump : o.jumps = false → forward = true) : RowKeeps o := by
  intro env run fr
  refine (hk env run fr).mono ?_
  rintro r ⟨hc, hl, hf, hpc⟩
  exact ⟨⟨by rw [hc], hl, hf⟩, fun h => hpc (hjump h), fun _ => hc⟩

theorem RowKeeps.of_shapes {o : Operation} (hs : ExecShapes o.execute) (hret : o.returns = true) :
    RowKeeps o := by
  intro env run fr
  refine (hs env run fr).mono ?_
  rintro r ⟨hshape, hpc⟩
  exact ⟨hshape, fun _ => hpc.ge, fun h => absurd hret (by rw [h]; decide)⟩

end Dipper
