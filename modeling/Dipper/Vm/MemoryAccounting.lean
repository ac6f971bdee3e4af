import Dipper.Vm.Interp.Rows
import Dipper.Vm.StateTransition

/-!
# The memory fee over a run

Every frame a run of the interpreter passes through holds whole words of memory and
has paid exactly the fee of their number: the memory only grows in the loop, to the
size the row's dynamic gas has just charged through `memoryGasCost`, and the
operations keep its size and its paid fee. Each fee `memoryGasCost` returns is then
the difference of the fees of the new and the old size, so the paid fee is the sum
of the fees charged.
-/

namespace Dipper

open StateExcept

theorem MemInv.of_eq {m m' : Memory} (hm : MemInv m) (hlen : m'.Len = m.Len)
    (hfee : m'.lastGasCost = m.lastGasCost) : MemInv m' :=
  ⟨hlen ▸ hm.aligned, by rw [hfee, hlen, hm.paid]⟩

theorem afterExecute_mem {o : Operation} {fr fr' : Frame} {res : Bytes} {err : Option VmError}
    (h : afterExecute o fr res err = .next fr') : fr'.mem = fr.mem := by
  unfold afterExecute at h
  dsimp only at h
  split at h
  · cases h
  · split_ifs at h <;> cases h <;> rfl

theorem step_memInv (env : Env) (run : RunFn) (fr : Frame) (hm : MemInv fr.mem) :
    Always (step env run fr) fun r => ∀ fr', r = .next fr' → MemInv fr'.mem := by
  unfold step
  dsimp only
  refine Always.ite (fun _ => Always.pure fun _ h => by cases h) fun _ => ?_
  refine Always.ite (fun _ => Always.pure fun _ h => by cases h) fun _ => ?_
  refine Always.ite (fun _ => Always.pure fun _ h => by cases h) fun _ => ?_
  refine Always.bind fun _ => Always.ite (fun _ => Always.pure fun _ h => by cases h) fun _ => ?_
  split
  · rename_i contract _
    split
    · rename_i memorySize hsize
      obtain ⟨haligned, hzero⟩ := operationMemorySize_aligned hsize
      have hspec := istanbulInstructionSet_spec (fr.contract.GetOp fr.pc)
      refine Always.bind_of (hspec.mem env contract fr.stack fr.mem memorySize hzero) fun r hr => ?_
      split
      · rename_i c mem
        obtain ⟨fee, hfee⟩ := hr c mem rfl
        have hresized := hm.resize haligned hfee
        refine Always.bind_of (hspec.keeps env run _) fun r' hr' => Always.pure fun fr' h => ?_
        rw [afterExecute_mem h]
        exact hresized.of_eq hr'.1.len hr'.1.fee
      · exact Always.pure fun _ h => by cases h
    · exact Always.pure fun _ h => by cases h
  · exact Always.pure fun _ h => by cases h

theorem Reaches.memInv {env : Env} {run : RunFn} {contract : Contract} {fr : Frame}
    (h : Reaches env run ⟨0, [], Memory.NewMemory, contract, []⟩ fr) : MemInv fr.mem :=
  h.invariant (step_memInv env run) MemInv.NewMemory

theorem toWordSize_lt {size : Nat} (h : size ≤ 0x1FFFFFFFE0) : toWordSize size < 2^32 := by
  rw [toWordSize_eq (by omega)]
  omega

/-- The memory accounting of the interpreter. Along every run, memory is whole words
with their fee paid. From such a memory each fee `memoryGasCost` returns is the
difference of the fees of the new and the old size, so the paid fee is the sum of the
fees charged. The arithmetic of `toWordSize` and `memoryGasCost` stays within 64
bits, and `calcMemSize64` hands on a size only when its sum fits, reporting the
overflow of its addition otherwise. -/
theorem memory_fee_accounting :
    (∀ env run contract fr, Reaches env run ⟨0, [], Memory.NewMemory, contract, []⟩ fr →
      32 ∣ fr.mem.Len ∧ fr.mem.lastGasCost = memFee (fr.mem.Len / 32)) ∧
    (∀ m size m' fee, MemInv m → memoryGasCost m size = (m', .ok fee) →
      m'.lastGasCost = memFee (max (m.Len / 32) (toWordSize size)) ∧
        m'.lastGasCost = m.lastGasCost + fee) ∧
    (∀ size, size < 2^64 → toWordSize size = (size + 31) / 32) ∧
    (∀ size, size ≤ 0x1FFFFFFFE0 →
      toWordSize size * toWordSize size < 2^64 ∧ memFee (toWordSize size) < 2^64) ∧
    (∀ off l v, calcMemSize64 off l = (v, false) →
      IsUint64 l ∧ ((Uint64 l = 0 ∧ v = 0) ∨ (IsUint64 off ∧ v = Uint64 off + Uint64 l ∧ v < 2^64))) := by
  refine ⟨fun _ _ _ _ h => ⟨h.memInv.aligned, h.memInv.paid⟩, fun _ _ _ _ hm hc => ?_,
    fun _ h => toWordSize_eq h, fun size h => ?_, fun _ _ _ h => calcMemSize64_exact h⟩
  · obtain ⟨-, hpaid, hsum⟩ := memoryGasCost_fee hm hc
    exact ⟨hpaid, hsum⟩
  · have hw := toWordSize_lt h
    refine ⟨?_, memFee_lt hw⟩
    calc toWordSize size * toWordSize size < 2^32 * 2^32 := Nat.mul_lt_mul'' hw hw
      _ = 2^64 := by norm_num

/-- `PUSH1 1`, `PUSH1 0`, `MSTORE`, `STOP`, run by \[0xaa\] with 1000 gas. -/
def mstoreContract : Contract :=
  (Contract.NewContract (.account [1]) [0xaa] 0 1000).SetCallCode [0xaa] Hash.zero [0x60, 1, 0x60, 0, 0x52, 0x00]

/-- A frame of `mstoreContract` with the gas it has left. -/
def mstoreFrame (pc : Nat) (stack : Stack) (mem : Memory) (gas : Nat) : Frame :=
  ⟨pc, stack, mem, { mstoreContract with Gas := gas }, []⟩

theorem memory_fee_accounting_mstore :
    ∃ fr, Reaches defaultEnv (runWith defaultEnv 0) ⟨0, [], Memory.NewMemory, mstoreContract, []⟩ fr ∧
      fr.mem.Len = 32 ∧ 32 ∣ fr.mem.Len ∧ fr.mem.lastGasCost = memFee (fr.mem.Len / 32) := by
  let st : EVMState := ⟨CommitStateDB.new Store.empty, 0, 0, false⟩
  -- the two pushes, then the store, which grows the memory to one word and pays its fee
  have h₁ : (step defaultEnv (runWith defaultEnv 0) (mstoreFrame 0 [] Memory.NewMemory 1000)).run st =
      .ok (.next (mstoreFrame 2 [1] Memory.NewMemory 997), st) := rfl
  have h₂ : (step defaultEnv (runWith defaultEnv 0) (mstoreFrame 2 [1] Memory.NewMemory 997)).run st =
      .ok (.next (mstoreFrame 4 [0, 1] Memory.NewMemory 994), st) := rfl
  have h₃ : (step defaultEnv (runWith defaultEnv 0) (mstoreFrame 4 [0, 1] Memory.NewMemory 994)).run st =
      .ok (.next (mstoreFrame 5 [] ⟨List.replicate 31 0 ++ [1], 3⟩ 988), st) := rfl
  have hreach := (((Reaches.refl _).tail h₁).tail h₂).tail h₃
  exact ⟨_, hreach, rfl, memory_fee_accounting.1 _ _ _ _ hreach⟩

/-- The addition of `calcMemSize64` overflows: for the offset `2^64 - 1` and the
length `1` it wraps to `0`, which the function reports as an overflow. -/
theorem calcMemSize64_wraps : calcMemSize64 (2^64 - 1) 1 = (0, true) := by
  decide

end Dipper
