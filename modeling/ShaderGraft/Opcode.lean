/-!
Operation codes. An opcode is any 16-bit number: those with a name here have a mnemonic and a known
result layout, and the others are kept as they are.
-/

namespace ShaderGraft

/-- The operation code in the low half of an instruction's first word. -/
structure Opcode where
  code : UInt16
deriving DecidableEq, Repr

/-- Which leading operand words of an instruction are its result: none, a result id, or a result
type followed by a result id. -/
inductive ResultLayout where
  | none
  | id
  | typed
deriving DecidableEq, Repr

namespace Opcode

@[match_pattern] abbrev nop : Opcode := ⟨0⟩
@[match_pattern] abbrev undef : Opcode := ⟨1⟩
@[match_pattern] abbrev sourceContinued : Opcode := ⟨2⟩
@[match_pattern] abbrev source : Opcode := ⟨3⟩
@[match_pattern] abbrev sourceExtension : Opcode := ⟨4⟩
@[match_pattern] abbrev name : Opcode := ⟨5⟩
@[match_pattern] abbrev memberName : Opcode := ⟨6⟩
@[match_pattern] abbrev string : Opcode := ⟨7⟩
@[match_pattern] abbrev line : Opcode := ⟨8⟩
@[match_pattern] abbrev extension : Opcode := ⟨10⟩
@[match_pattern] abbrev extInstImport : Opcode := ⟨11⟩
@[match_pattern] abbrev extInst : Opcode := ⟨12⟩
@[match_pattern] abbrev memoryModel : Opcode := ⟨14⟩
@[match_pattern] abbrev entryPoint : Opcode := ⟨15⟩
@[match_pattern] abbrev executionMode : Opcode := ⟨16⟩
@[match_pattern] abbrev capability : Opcode := ⟨17⟩
@[match_pattern] abbrev typeVoid : Opcode := ⟨19⟩
@[match_pattern] abbrev typeBool : Opcode := ⟨20⟩
@[match_pattern] abbrev typeInt : Opcode := ⟨21⟩
@[match_pattern] abbrev typeFloat : Opcode := ⟨22⟩
@[match_pattern] abbrev typeVector : Opcode := ⟨23⟩
@[match_pattern] abbrev typeMatrix : Opcode := ⟨24⟩
@[match_pattern] abbrev typeImage : Opcode := ⟨25⟩
@[match_pattern] abbrev typeSampler : Opcode := ⟨26⟩
@[match_pattern] abbrev typeSampledImage : Opcode := ⟨27⟩
@[match_pattern] abbrev typeArray : Opcode := ⟨28⟩
@[match_pattern] abbrev typeRuntimeArray : Opcode := ⟨29⟩
@[match_pattern] abbrev typeStruct : Opcode := ⟨30⟩
@[match_pattern] abbrev typePointer : Opcode := ⟨32⟩
@[match_pattern] abbrev typeFunction : Opcode := ⟨33⟩
@[match_pattern] abbrev constantTrue : Opcode := ⟨41⟩
@[match_pattern] abbrev constantFalse : Opcode := ⟨42⟩
@[match_pattern] abbrev constant : Opcode := ⟨43⟩
@[match_pattern] abbrev constantComposite : Opcode := ⟨44⟩
@[match_pattern] abbrev constantNull : Opcode := ⟨46⟩
@[match_pattern] abbrev specConstantTrue : Opcode := ⟨48⟩
@[match_pattern] abbrev specConstantFalse : Opcode := ⟨49⟩
@[match_pattern] abbrev specConstant : Opcode := ⟨50⟩
@[match_pattern] abbrev specConstantComposite : Opcode := ⟨51⟩
@[match_pattern] abbrev specConstantOp : Opcode := ⟨52⟩
@[match_pattern] abbrev function : Opcode := ⟨54⟩
@[match_pattern] abbrev functionParameter : Opcode := ⟨55⟩
@[match_pattern] abbrev functionEnd : Opcode := ⟨56⟩
@[match_pattern] abbrev functionCall : Opcode := ⟨57⟩
@[match_pattern] abbrev memoryVariable : Opcode := ⟨59⟩
@[match_pattern] abbrev load : Opcode := ⟨61⟩
@[match_pattern] abbrev store : Opcode := ⟨62⟩
@[match_pattern] abbrev accessChain : Opcode := ⟨65⟩
@[match_pattern] abbrev decorate : Opcode := ⟨71⟩
@[match_pattern] abbrev memberDecorate : Opcode := ⟨72⟩
@[match_pattern] abbrev decorationGroup : Opcode := ⟨73⟩
@[match_pattern] abbrev groupDecorate : Opcode := ⟨74⟩
@[match_pattern] abbrev groupMemberDecorate : Opcode := ⟨75⟩
@[match_pattern] abbrev vectorShuffle : Opcode := ⟨79⟩
@[match_pattern] abbrev compositeConstruct : Opcode := ⟨80⟩
@[match_pattern] abbrev compositeExtract : Opcode := ⟨81⟩
@[match_pattern] abbrev compositeInsert : Opcode := ⟨82⟩
@[match_pattern] abbrev copyObject : Opcode := ⟨83⟩
@[match_pattern] abbrev convertFToU : Opcode := ⟨109⟩
@[match_pattern] abbrev convertFToS : Opcode := ⟨110⟩
@[match_pattern] abbrev convertSToF : Opcode := ⟨111⟩
@[match_pattern] abbrev convertUToF : Opcode := ⟨112⟩
@[match_pattern] abbrev bitcast : Opcode := ⟨124⟩
@[match_pattern] abbrev sNegate : Opcode := ⟨126⟩
@[match_pattern] abbrev fNegate : Opcode := ⟨127⟩
@[match_pattern] abbrev iAdd : Opcode := ⟨128⟩
@[match_pattern] abbrev fAdd : Opcode := ⟨129⟩
@[match_pattern] abbrev iSub : Opcode := ⟨130⟩
@[match_pattern] abbrev fSub : Opcode := ⟨131⟩
@[match_pattern] abbrev iMul : Opcode := ⟨132⟩
@[match_pattern] abbrev fMul : Opcode := ⟨133⟩
@[match_pattern] abbrev uDiv : Opcode := ⟨134⟩
@[match_pattern] abbrev sDiv : Opcode := ⟨135⟩
@[match_pattern] abbrev fDiv : Opcode := ⟨136⟩
@[match_pattern] abbrev vectorTimesScalar : Opcode := ⟨142⟩
@[match_pattern] abbrev matrixTimesVector : Opcode := ⟨145⟩
@[match_pattern] abbrev dot : Opcode := ⟨148⟩
@[match_pattern] abbrev select : Opcode := ⟨169⟩
@[match_pattern] abbrev iEqual : Opcode := ⟨170⟩
@[match_pattern] abbrev fOrdEqual : Opcode := ⟨180⟩
@[match_pattern] abbrev fOrdLessThan : Opcode := ⟨184⟩
@[match_pattern] abbrev fOrdGreaterThan : Opcode := ⟨186⟩
@[match_pattern] abbrev phi : Opcode := ⟨245⟩
@[match_pattern] abbrev loopMerge : Opcode := ⟨246⟩
@[match_pattern] abbrev selectionMerge : Opcode := ⟨247⟩
@[match_pattern] abbrev label : Opcode := ⟨248⟩
@[match_pattern] abbrev branch : Opcode := ⟨249⟩
@[match_pattern] abbrev branchConditional : Opcode := ⟨250⟩
@[match_pattern] abbrev kill : Opcode := ⟨252⟩
@[match_pattern] abbrev returnVoid : Opcode := ⟨253⟩
@[match_pattern] abbrev returnValue : Opcode := ⟨254⟩
@[match_pattern] abbrev unreachable : Opcode := ⟨255⟩
@[match_pattern] abbrev noLine : Opcode := ⟨317⟩
@[match_pattern] abbrev moduleProcessed : Opcode := ⟨330⟩
@[match_pattern] abbrev executionModeId : Opcode := ⟨331⟩
@[match_pattern] abbrev decorateId : Opcode := ⟨332⟩
@[match_pattern] abbrev decorateString : Opcode := ⟨5632⟩
@[match_pattern] abbrev memberDecorateString : Opcode := ⟨5633⟩

/-- The opcodes whose instructions have a result type and a result id. -/
def typedResults : List Opcode := [
   undef, extInst, constantTrue, constantFalse, constant, constantComposite, constantNull,
   specConstantTrue, specConstantFalse, specConstant, specConstantComposite, specConstantOp,
   function, functionParameter, functionCall, memoryVariable, load, accessChain, vectorShuffle,
   compositeConstruct, compositeExtract, compositeInsert, copyObject, convertFToU, convertFToS,
   convertSToF, convertUToF, bitcast, sNegate, fNegate, iAdd, fAdd, iSub, fSub, iMul, fMul, uDiv,
   sDiv, fDiv, vectorTimesScalar, matrixTimesVector, dot, select, iEqual, fOrdEqual, fOrdLessThan,
   fOrdGreaterThan, phi]

/-- The opcodes whose instructions have a result id and no result type. -/
def plainResults : List Opcode := [
   string, extInstImport, typeVoid, typeBool, typeInt, typeFloat, typeVector, typeMatrix,
   typeImage, typeSampler, typeSampledImage, typeArray, typeRuntimeArray, typeStruct, typePointer,
   typeFunction, decorationGroup, label]

/-- The result layout of an opcode. Unnamed opcodes keep all their words as operands. -/
def layout (op : Opcode) : ResultLayout :=
  if typedResults.contains op then .typed
  else if plainResults.contains op then .id
  else .none

/-- The named opcodes with their mnemonics. -/
def mnemonics : List (Opcode × String) := [
   (nop, "OpNop"), (undef, "OpUndef"), (sourceContinued, "OpSourceContinued"),
   (source, "OpSource"), (sourceExtension, "OpSourceExtension"), (name, "OpName"),
   (memberName, "OpMemberName"), (string, "OpString"), (line, "OpLine"),
   (extension, "OpExtension"), (extInstImport, "OpExtInstImport"), (extInst, "OpExtInst"),
   (memoryModel, "OpMemoryModel"), (entryPoint, "OpEntryPoint"),
   (executionMode, "OpExecutionMode"), (capability, "OpCapability"), (typeVoid, "OpTypeVoid"),
   (typeBool, "OpTypeBool"), (typeInt, "OpTypeInt"), (typeFloat, "OpTypeFloat"),
   (typeVector, "OpTypeVector"), (typeMatrix, "OpTypeMatrix"), (typeImage, "OpTypeImage"),
   (typeSampler, "OpTypeSampler"), (typeSampledImage, "OpTypeSampledImage"),
   (typeArray, "OpTypeArray"), (typeRuntimeArray, "OpTypeRuntimeArray"),
   (typeStruct, "OpTypeStruct"), (typePointer, "OpTypePointer"), (typeFunction, "OpTypeFunction"),
   (constantTrue, "OpConstantTrue"), (constantFalse, "OpConstantFalse"), (constant, "OpConstant"),
   (constantComposite, "OpConstantComposite"), (constantNull, "OpConstantNull"),
   (specConstantTrue, "OpSpecConstantTrue"), (specConstantFalse, "OpSpecConstantFalse"),
   (specConstant, "OpSpecConstant"), (specConstantComposite, "OpSpecConstantComposite"),
   (specConstantOp, "OpSpecConstantOp"), (function, "OpFunction"),
   (functionParameter, "OpFunctionParameter"), (functionEnd, "OpFunctionEnd"),
   (functionCall, "OpFunctionCall"), (memoryVariable, "OpVariable"), (load, "OpLoad"),
   (store, "OpStore"), (accessChain, "OpAccessChain"), (decorate, "OpDecorate"),
   (memberDecorate, "OpMemberDecorate"), (decorationGroup, "OpDecorationGroup"),
   (groupDecorate, "OpGroupDecorate"), (groupMemberDecorate, "OpGroupMemberDecorate"),
   (vectorShuffle, "OpVectorShuffle"), (compositeConstruct, "OpCompositeConstruct"),
   (compositeExtract, "OpCompositeExtract"), (compositeInsert, "OpCompositeInsert"),
   (copyObject, "OpCopyObject"), (convertFToU, "OpConvertFToU"), (convertFToS, "OpConvertFToS"),
   (convertSToF, "OpConvertSToF"), (convertUToF, "OpConvertUToF"), (bitcast, "OpBitcast"),
   (sNegate, "OpSNegate"), (fNegate, "OpFNegate"), (iAdd, "OpIAdd"), (fAdd, "OpFAdd"),
   (iSub, "OpISub"), (fSub, "OpFSub"), (iMul, "OpIMul"), (fMul, "OpFMul"), (uDiv, "OpUDiv"),
   (sDiv, "OpSDiv"), (fDiv, "OpFDiv"), (vectorTimesScalar, "OpVectorTimesScalar"),
   (matrixTimesVector, "OpMatrixTimesVector"), (dot, "OpDot"), (select, "OpSelect"),
   (iEqual, "OpIEqual"), (fOrdEqual, "OpFOrdEqual"), (fOrdLessThan, "OpFOrdLessThan"),
   (fOrdGreaterThan, "OpFOrdGreaterThan"), (phi, "OpPhi"), (loopMerge, "OpLoopMerge"),
   (selectionMerge, "OpSelectionMerge"), (label, "OpLabel"), (branch, "OpBranch"),
   (branchConditional, "OpBranchConditional"), (kill, "OpKill"), (returnVoid, "OpReturn"),
   (returnValue, "OpReturnValue"), (unreachable, "OpUnreachable"), (noLine, "OpNoLine"),
   (moduleProcessed, "OpModuleProcessed"), (executionModeId, "OpExecutionModeId"),
   (decorateId, "OpDecorateId"), (decorateString, "OpDecorateString"),
   (memberDecorateString, "OpMemberDecorateString")]

/-- The mnemonic of an opcode, or its number for an unnamed one. -/
def mnemonic (op : Opcode) : String :=
  match mnemonics.lookup op with
  | some known => known
  | none => "Op(" ++ toString op.code ++ ")"

end Opcode

end ShaderGraft
