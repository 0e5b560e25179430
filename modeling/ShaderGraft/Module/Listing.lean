import ShaderGraft.Literal
import ShaderGraft.Module.Basic
import ShaderGraft.Text.Quoted

/-!
Listings: the module as text, one instruction to a line. Operands are shown as ids, as numbers or as
a quoted string, as the opcode has them; where an instruction is too short for its opcode's shape,
they are shown as for an opcode without one.
-/

namespace ShaderGraft

open Text

/-- How an operand is shown. -/
inductive OperandClass where
  | literal
  | id
deriving DecidableEq

/-- An operand with the blank before it. -/
def OperandClass.show : OperandClass → Word → String
  | .literal, w => " " ++ toString w
  | .id, w => " " ++ idText w

/-- A list of operands of one class. -/
def OperandClass.showAll (cls : OperandClass) (ws : List Word) : String :=
  String.join (ws.map cls.show)

namespace Opcode

/-- The opcodes all of whose operands are ids. -/
def idOperands : List Opcode := [
   typeStruct, typeFunction, constantComposite, functionCall, load, store, accessChain,
   compositeConstruct, copyObject, returnValue, branch, branchConditional, select, phi, bitcast,
   sNegate, fNegate, iAdd, fAdd, iSub, fSub, iMul, fMul, uDiv, sDiv, fDiv, vectorTimesScalar,
   matrixTimesVector, dot, iEqual, fOrdEqual, fOrdLessThan, fOrdGreaterThan, convertFToU,
   convertFToS, convertSToF, convertUToF, groupDecorate]

/-- The class of all operands of an opcode without a shape of its own. -/
def operandClass (op : Opcode) : OperandClass :=
  if idOperands.contains op then .id else .literal

end Opcode

/-- The names of the extended instructions that have one. -/
def extendedNames : List (Word × String) := [
  (4, "FAbs"), (13, "Sin"), (14, "Cos"), (15, "Tan"), (31, "Sqrt"), (37, "FMin"), (40, "FMax"),
  (66, "Length"), (68, "Cross"), (69, "Normalize")]

/-- The name of an extended instruction, or its number. -/
def extendedName (n : Word) : String :=
  (extendedNames.lookup n).getD (toString n)

namespace Instruction

/-- A string operand with the blank before it. -/
def showString (ws : List Word) : String :=
  " " ++ quote (Literal.decode ws).1

/-- The operands of an instruction, with a blank before each. -/
def showOperands (inst : Instruction) : String :=
  let plain := inst.opcode.operandClass.showAll inst.operands
  match inst.opcode, inst.operands with
  | .name, target :: rest => OperandClass.id.show target ++ showString rest
  | .memberName, [target] => OperandClass.id.show target ++ showString []
  | .memberName, target :: member :: rest =>
    OperandClass.id.show target ++ OperandClass.literal.show member ++ showString rest
  | .extInstImport, ws | .string, ws | .extension, ws | .sourceExtension, ws
  | .moduleProcessed, ws => showString ws
  | .entryPoint, model :: entry :: rest =>
    let (name, n) := Literal.decode rest
    OperandClass.literal.show model ++ OperandClass.id.show entry ++ " " ++ quote name ++
      OperandClass.id.showAll (rest.drop n)
  | .extInst, set :: n :: rest =>
    OperandClass.id.show set ++ " " ++ extendedName n ++ OperandClass.id.showAll rest
  | .compositeExtract, composite :: indices =>
    OperandClass.id.show composite ++ OperandClass.literal.showAll indices
  | .compositeInsert, object :: composite :: indices =>
    OperandClass.id.showAll [object, composite] ++ OperandClass.literal.showAll indices
  | .typeArray, element :: rest => OperandClass.id.showAll (element :: rest)
  | .typeVector, first :: rest | .typeMatrix, first :: rest | .typeRuntimeArray, first :: rest
  | .decorate, first :: rest | .memberDecorate, first :: rest | .executionMode, first :: rest =>
    OperandClass.id.show first ++ OperandClass.literal.showAll rest
  | .typePointer, first :: second :: rest | .function, first :: second :: rest =>
    OperandClass.literal.show first ++ OperandClass.id.showAll (second :: rest)
  | _, _ => plain

/-- The part before the mnemonic: the result id and an equals sign, right aligned in 15 columns. -/
def showResult (inst : Instruction) : String :=
  let result := if inst.resultId = 0 then "" else idText inst.resultId ++ " = "
  String.ofList (List.replicate (15 - result.length) ' ') ++ result

/-- The line of an instruction, without its end. -/
def text (inst : Instruction) : String :=
  inst.showResult ++ inst.opcode.mnemonic ++
    (if inst.resultType = 0 then "" else " " ++ idText inst.resultType) ++ inst.showOperands

end Instruction

namespace Module

/-- The lines in front of the instructions. -/
def headerLines (m : Module) : List String :=
  ["; SPIR-V", "; Version: " ++ m.header.version.text, "; Generator: " ++ hex m.header.generator,
    "; Bound: " ++ toString m.header.bound, "; Schema: " ++ toString m.header.schema]

/-- The lines of the listing. -/
def lines (m : Module) : List String :=
  m.headerLines ++ m.instructions.map Instruction.text

/-- The listing: every line followed by a newline. -/
def listing (m : Module) : String :=
  String.join (m.lines.map (· ++ "\n"))

end Module

/-! ### Operands by position

Taking operands apart by position can go wrong, where a position is out of range. Then there is no
text. -/

/-- The words from a position on. -/
def wordsFrom? (ws : List Word) (n : Nat) : Option (List Word) :=
  if n ≤ ws.length then some (ws.drop n) else none

/-- The words in front of a position. -/
def wordsUpTo? (ws : List Word) (n : Nat) : Option (List Word) :=
  if n ≤ ws.length then some (ws.take n) else none

namespace OperandClass

/-- The operand at a position. -/
def showAt? (cls : OperandClass) (ws : List Word) (n : Nat) : Option String :=
  ws[n]?.map cls.show

/-- The operands in front of a position in one class, and those from it on in another. -/
def showSplit? (first second : OperandClass) (ws : List Word) (n : Nat) : Option String := do
  return first.showAll (← wordsUpTo? ws n) ++ second.showAll (← wordsFrom? ws n)

end OperandClass

namespace Instruction

open OperandClass

/-- The target of a name, and the name. -/
def showName? (ws : List Word) : Option String := do
  return (← OperandClass.id.showAt? ws 0) ++ showString (← wordsFrom? ws 1)

/-- The target of the name of a member, the member if there is one, and the name. -/
def showMemberName? (ws : List Word) : Option String := do
  if ws.length < 2 then showName? ws
  else
    return (← OperandClass.id.showAt? ws 0) ++ (← OperandClass.literal.showAt? ws 1) ++
      showString (← wordsFrom? ws 2)

/-- The model, the function and the name of an entry point, and the ids after the words that the
name takes. -/
def showEntryPoint? (ws : List Word) : Option String := do
  let (name, n) := Literal.decode (← wordsFrom? ws 2)
  return (← OperandClass.literal.showAt? ws 0) ++ (← OperandClass.id.showAt? ws 1) ++ " " ++
    quote name ++ OperandClass.id.showAll (← wordsFrom? ws (2 + n))

/-- The set and the name of an extended instruction, and its arguments. -/
def showExtended? (ws : List Word) : Option String := do
  return (← OperandClass.id.showAt? ws 0) ++ " " ++ extendedName (← ws[1]?) ++
    OperandClass.id.showAll (← wordsFrom? ws 2)

/-- The operands of an instruction, taken apart by position. An instruction that has fewer than its
opcode needs is shown like one whose opcode needs none. -/
def showOperands? (inst : Instruction) : Option String :=
  let ws := inst.operands
  let plain := some (inst.opcode.operandClass.showAll ws)
  match inst.opcode with
  | .name => if ws.length < 1 then plain else showName? ws
  | .memberName => if ws.length < 1 then plain else showMemberName? ws
  | .extInstImport | .string | .extension | .sourceExtension | .moduleProcessed =>
    some (showString ws)
  | .entryPoint => if ws.length < 2 then plain else showEntryPoint? ws
  | .extInst => if ws.length < 2 then plain else showExtended? ws
  | .compositeExtract => if ws.length < 1 then plain else showSplit? .id .literal ws 1
  | .compositeInsert => if ws.length < 2 then plain else showSplit? .id .literal ws 2
  | .typeArray => if ws.length < 1 then plain else showSplit? .id .id ws 1
  | .typeVector | .typeMatrix | .typeRuntimeArray | .decorate | .memberDecorate | .executionMode =>
    if ws.length < 1 then plain else showSplit? .id .literal ws 1
  | .typePointer | .function => if ws.length < 2 then plain else showSplit? .literal .id ws 1
  | _ => plain

/-- The line of an instruction, with its operands taken apart by position. -/
def text? (inst : Instruction) : Option String := do
  return inst.showResult ++ inst.opcode.mnemonic ++
    (if inst.resultType = 0 then "" else " " ++ idText inst.resultType) ++ (← inst.showOperands?)

end Instruction

/-- The listing, with the operands of all instructions taken apart by position. -/
def Module.listing? (m : Module) : Option String := do
  let texts ← m.instructions.mapM Instruction.text?
  return String.join ((m.headerLines ++ texts).map (· ++ "\n"))

end ShaderGraft
