import ShaderGraft.Module.Lookup
import ShaderGraft.Text.Number
import ShaderGraft.ValueType.Basic

/-!
Reading types from their declarations. A declaration refers to others by id, and those are read in
turn. Where declarations refer to each other in a circle the reading does not end, and there is
neither a type nor an error.
-/

namespace ShaderGraft

/-- Why there is no result: an error, or a search that does not end. -/
inductive Halt (ε : Type) where
  | error (cause : ε)
  | endless
deriving Repr, DecidableEq

/-- The same halt with another error. -/
def Halt.map {ε ε' : Type} (f : ε → ε') : Halt ε → Halt ε'
  | .error cause => .error (f cause)
  | .endless => .endless

/-- What is wrong with the shape of a declaration. -/
inductive ShapeError where
  | intOperands
  | floatOperands
  | vectorOperands
  | matrixOperands
  | columnNotVector (column : ValueType)
  | arrayOperands
  | lengthNotInteger (length : ValueType)
  | noEquivalent
  | constantTypeNotFound (id : ResultId)
  | literalShape
  | constantNotNumber
deriving Repr

def ShapeError.message : ShapeError → String
  | .intOperands => "want width and signedness 0 or 1"
  | .floatOperands => "missing width"
  | .vectorOperands => "want component type and count"
  | .matrixOperands => "want column type and count"
  | .columnNotVector column => "column type " ++ column.text ++ " is not a vector"
  | .arrayOperands => "want element type and length"
  | .lengthNotInteger length =>
    "array length " ++ length.text ++ " is not a 32 bit integer constant"
  | .noEquivalent => "no equivalent type"
  | .constantTypeNotFound id => "constant type " ++ Text.idText id ++ " not found"
  | .literalShape => "bad literal shape"
  | .constantNotNumber => "constant is neither 32/64 bit int nor float"

/-- Why an instruction has no type. -/
inductive TypeError where
  | notAType (op : Opcode)
  | shape (op : Opcode) (id : ResultId) (cause : ShapeError)
  | operandNotDeclared (id : ResultId)
  | parameterNotDeclared (id : ResultId)
deriving Repr

def TypeError.message : TypeError → String
  | .notAType op => "instruction does not declare a type: " ++ op.mnemonic
  | .shape op id cause =>
    "type unparsable: " ++ op.mnemonic ++ " " ++ Text.idText id ++ ": " ++ cause.message
  | .operandNotDeclared id => "type unparsable: operand " ++ Text.idText id ++ " not declared"
  | .parameterNotDeclared id =>
    "type unparsable: parameter type " ++ Text.idText id ++ " not declared"

/-- Whether the opcode declares a type or a scalar constant. -/
def Opcode.declaresType (op : Opcode) : Bool :=
  op == .constant || (Opcode.typeVoid.code ≤ op.code && op.code ≤ Opcode.typeFunction.code)

/-- A 64-bit number from its words, low order word first. -/
def joinWords (low high : Word) : UInt64 :=
  (high.toUInt64 <<< 32) ||| low.toUInt64

namespace ValueType

/-- The literal type of a scalar constant. -/
def ofConstant (m : Module) (inst : Instruction) : Except ShapeError ValueType :=
  match m.global? inst.resultType with
  | none => .error (.constantTypeNotFound inst.resultType)
  | some decl =>
    match decl.operands, inst.operands with
    | [], _ | _, [] | _, _ :: _ :: _ :: _ => .error .literalShape
    | width :: _, [w] =>
      if decl.opcode = .typeFloat ∧ width = 32 then .ok (.literalFloat32 w)
      else if decl.opcode = .typeInt ∧ width = 32 then .ok (.literalInt32 w)
      else .error .constantNotNumber
    | width :: _, [low, high] =>
      if decl.opcode = .typeFloat ∧ width = 64 then .ok (.literalFloat64 (joinWords low high))
      else if decl.opcode = .typeInt ∧ width = 64 then .ok (.literalInt64 (joinWords low high))
      else .error .constantNotNumber

/-- The type that `inst` declares in `m`, following at most `fuel` references in a row. -/
def parse (m : Module) : (fuel : Nat) → Instruction → Except (Halt TypeError) ValueType
  | 0, _ => .error .endless
  | fuel + 1, inst =>
    let operand := fun id => match m.global? id with
      | none => Except.error (Halt.error (TypeError.operandNotDeclared id))
      | some decl => parse m fuel decl
    let refuse := fun cause =>
      Except.error (Halt.error (TypeError.shape inst.opcode inst.resultId cause))
    if ¬ inst.opcode.declaresType then .error (.error (.notAType inst.opcode))
    else match inst.opcode, inst.operands with
      | .constant, _ =>
        (ofConstant m inst).mapError fun cause => .error (.shape inst.opcode inst.resultId cause)
      | .typeVoid, _ => .ok .void
      | .typeBool, _ => .ok .bool
      | .typeInt, [width, sign] =>
        if sign > 1 then refuse .intOperands else .ok (.int (sign == 1) width)
      | .typeInt, _ => refuse .intOperands
      | .typeFloat, width :: _ => .ok (.float width)
      | .typeFloat, [] => refuse .floatOperands
      | .typeVector, [component, count] => do return .vector (← operand component) count
      | .typeVector, _ => refuse .vectorOperands
      | .typeMatrix, [column, count] => do
        match ← operand column with
        | .vector elem rows => return .matrix elem count rows
        | other => refuse (.columnNotVector other)
      | .typeMatrix, _ => refuse .matrixOperands
      | .typeStruct, members => do return .struct (← members.mapM operand)
      | .typeArray, [element, length] => do
        let elem ← operand element
        match ← operand length with
        | .literalInt32 count => return .array elem count
        | other => refuse (.lengthNotInteger other)
      | .typeArray, _ => refuse .arrayOperands
      | _, _ => refuse .noEquivalent

end ValueType

/-- The type that `inst` declares in the module. A reading that ends never needs more references in a
row than there are declarations. -/
def Module.typeOf (m : Module) (inst : Instruction) : Except (Halt TypeError) ValueType :=
  ValueType.parse m (m.globals.length + 1) inst

end ShaderGraft
