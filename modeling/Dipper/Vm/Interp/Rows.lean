import Dipper.Vm.Interp.CallGas
import Dipper.Vm.Interp.MemoryFee

/-!
# The rows of the jump table

What each row of `newIstanbulInstructionSet` guarantees, proved once per row from
the lemmas about the operation it executes: the frame discipline of `RowKeeps`, the
gas discipline of `GasSafe` and the memory charging of `RowMem`. The interpreter's loop only ever sees rows through
`istanbulInstructionSet_spec`.
-/

namespace Dipper

/-- What every row of the table guarantees. -/
structure RowSpec (o : Operation) : Prop where
  keeps : RowKeeps o
  gas : GasSafe o
  mem : RowMem o

theorem RowSpec.of_keeps {o : Operation} {forward : Bool} (hk : ExecKeeps forward o.execute)
    (hjump : o.jumps = false → forward = true) (hmem : RowMem o) : RowSpec o :=
  ⟨.of_keeps hk hjump, .of_keeps hk, hmem⟩

theorem RowSpec.of_keeps_mk {e : ExecFn} {forward : Bool} (hk : ExecKeeps forward e)
    {dynamicGas minStack maxStack memorySize halts jumps writes valid reverts returns}
    (hjump : jumps = false → forward = true)
    (hmem : RowMem ⟨e, dynamicGas, minStack, maxStack, memorySize, halts, jumps, writes, valid, reverts, returns⟩) :
    RowSpec ⟨e, dynamicGas, minStack, maxStack, memorySize, halts, jumps, writes, valid, reverts, returns⟩ :=
  .of_keeps hk hjump hmem

/-- Every row of `newIstanbulInstructionSet` keeps its frame's shape, is gas safe and
charges its memory. -/
theorem istanbulInstructionSet_spec (op : UInt8) : RowSpec (istanbulInstructionSet op) := by
  unfold istanbulInstructionSet
  split
  -- the row's own fields, so that its execution function unifies with its combinator
  all_goals dsimp only [plainOp, memoryOp, logOp]
  -- PUSHn, DUPn, SWAPn and the invalid bytes share the last row
  case h_79 =>
    split_ifs
    · exact .of_keeps (makePush_keeps _ _) (fun _ => rfl) (.of_none rfl rfl)
    · exact .of_keeps (makeDup_keeps _) (fun _ => rfl) (.of_none rfl rfl)
    · exact .of_keeps (makeSwap_keeps _) (fun _ => rfl) (.of_none rfl rfl)
    · exact .of_keeps opStop_keeps (fun _ => rfl) (.of_none rfl rfl)
  case h_70 =>
    exact ⟨.of_shapes opCreate_shape rfl, .of_frameGas fun env _ hrun => opCreate_gas env hrun,
      .of_charges rfl pureMemoryGascost_charges⟩
  case h_71 =>
    exact ⟨.of_shapes opCall_shape rfl, .of_paid rfl callReserve gasCall_paid fun env _ hrun => opCall_gas env hrun,
      .of_charges rfl gasCall_charges⟩
  case h_72 =>
    exact ⟨.of_shapes opCallCode_shape rfl,
      .of_paid rfl callReserve gasCallCode_paid fun env _ hrun => opCallCode_gas env hrun,
      .of_charges rfl gasCallCode_charges⟩
  case h_74 =>
    exact ⟨.of_shapes opDelegateCall_shape rfl,
      .of_paid rfl (fun s _ => s.callGasTemp) gasDelegateCall_paid fun env _ hrun => opDelegateCall_gas env hrun,
      .of_charges rfl gasDelegateCall_charges⟩
  case h_75 =>
    exact ⟨.of_shapes opCreate2_shape rfl, .of_frameGas fun env _ hrun => opCreate2_gas env hrun,
      .of_charges rfl (memoryWordGas_charges _ _)⟩
  case h_76 =>
    exact ⟨.of_shapes opStaticCall_shape rfl,
      .of_paid rfl (fun s _ => s.callGasTemp) gasDelegateCall_paid fun env _ hrun => opStaticCall_gas env hrun,
      .of_charges rfl gasDelegateCall_charges⟩
  case h_58 => exact .of_keeps opJump_keeps (fun h => nomatch h) (.of_none rfl rfl)
  case h_59 => exact .of_keeps opJumpi_keeps (fun h => nomatch h) (.of_none rfl rfl)
  case h_2 | h_3 | h_4 | h_5 | h_6 | h_7 | h_8 | h_13 | h_14 | h_15 | h_16 | h_17 | h_19 | h_20 | h_21 | h_23 | h_24 | h_25 | h_26 =>
    exact .of_keeps_mk (binaryOp_keeps _) (fun _ => rfl) (.of_none rfl rfl)
  case h_11 => exact .of_keeps_mk (binaryOp_keeps _) (fun _ => rfl) (.of_keeps rfl rfl gasExp_keeps)
  case h_18 | h_22 => exact .of_keeps_mk (unaryOp_keeps _) (fun _ => rfl) (.of_none rfl rfl)
  case h_9 | h_10 => exact .of_keeps_mk (ternaryOp_keeps _) (fun _ => rfl) (.of_none rfl rfl)
  case h_28 | h_30 | h_31 | h_32 | h_34 | h_36 | h_38 | h_41 | h_45 | h_46 | h_47 | h_48 | h_49 | h_50 | h_51 | h_60 | h_61 | h_62 =>
    exact .of_keeps_mk (pushOp_keeps _) (fun _ => rfl) (.of_none rfl rfl)
  case h_29 | h_33 | h_39 | h_43 | h_44 | h_56 => exact .of_keeps_mk (readOp_keeps _) (fun _ => rfl) (.of_none rfl rfl)
  case h_35 | h_37 =>
    exact .of_keeps_mk (copyOp_keeps _) (fun _ => rfl) (.of_charges rfl (memoryWordGas_charges _ _))
  case h_65 | h_66 | h_67 | h_68 | h_69 =>
    exact .of_keeps_mk (makeLog_keeps _) (fun _ => rfl) (.of_charges rfl (makeGasLog_charges _))
  case h_1 => exact .of_keeps_mk opStop_keeps (fun _ => rfl) (.of_none rfl rfl)
  case h_12 => exact .of_keeps_mk opSignExtend_keeps (fun _ => rfl) (.of_none rfl rfl)
  case h_27 => exact .of_keeps_mk opSha3_keeps (fun _ => rfl) (.of_charges rfl (memoryWordGas_charges _ _))
  case h_40 =>
    exact .of_keeps_mk opExtCodeCopy_keeps (fun _ => rfl) (.of_charges rfl (memoryWordGas_charges _ _))
  case h_42 =>
    exact .of_keeps_mk opReturnDataCopy_keeps (fun _ => rfl) (.of_charges rfl (memoryWordGas_charges _ _))
  case h_52 => exact .of_keeps_mk opPop_keeps (fun _ => rfl) (.of_none rfl rfl)
  case h_53 => exact .of_keeps_mk opMload_keeps (fun _ => rfl) (.of_charges rfl pureMemoryGascost_charges)
  case h_54 => exact .of_keeps_mk opMstore_keeps (fun _ => rfl) (.of_charges rfl pureMemoryGascost_charges)
  case h_55 =>
    exact .of_keeps_mk opMstore8_keeps (fun _ => rfl) (.of_charges rfl pureMemoryGascost_charges)
  case h_57 => exact .of_keeps_mk opSstore_keeps (fun _ => rfl) (.of_keeps rfl rfl gasSStore_keeps)
  case h_63 => exact .of_keeps_mk opJumpdest_keeps (fun _ => rfl) (.of_none rfl rfl)
  case h_64 => exact .of_keeps_mk opPush1_keeps (fun _ => rfl) (.of_none rfl rfl)
  case h_73 | h_77 =>
    exact .of_keeps_mk opReturn_keeps (fun _ => rfl) (.of_charges rfl pureMemoryGascost_charges)
  case h_78 => exact .of_keeps_mk opSuicide_keeps (fun _ => rfl) (.of_keeps rfl rfl gasSelfdestruct_keeps)

end Dipper
