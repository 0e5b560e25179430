import ShaderGraft.Module.Declare
import ShaderGraft.ValueType.Basic

/-!
Declaring a type in a module. Its components are declared first, and each of them only if the module
does not have it yet.
-/

namespace ShaderGraft.ValueType

mutual

/-- The id of a type. Literal and missing types have none; what was declared before one is met stays
declared. -/
def declare : ValueType → Declare (Option ResultId)
  | .void => some <$> Declare.typeVoid
  | .bool => some <$> Declare.typeBool
  | .int signed width => some <$> Declare.typeInt width signed
  | .float width => some <$> Declare.typeFloat width
  | .vector elem count => do
    match ← declare elem with
    | none => return none
    | some component => return some (← Declare.typeVector component count)
  | .matrix elem columns rows => do
    match ← declare elem with
    | none => return none
    | some component =>
      let column ← Declare.typeVector component rows
      return some (← Declare.typeMatrix column columns)
  | .struct fields => do
    match ← declareAll fields with
    | none => return none
    | some members => return some (← Declare.typeStruct members)
  | .array elem count => do
    match ← declare elem with
    | none => return none
    | some element =>
      let length ← Declare.constant (← Declare.typeInt 32 false) [count]
      return some (← Declare.typeArray element length)
  | .missing | .literalFloat32 _ | .literalFloat64 _ | .literalInt32 _ | .literalInt64 _ =>
    return none

/-- The ids of a list of types, up to the first that has none. -/
def declareAll : List ValueType → Declare (Option (List ResultId))
  | [] => return some []
  | t :: ts => do
    match ← declare t with
    | none => return none
    | some id =>
      match ← declareAll ts with
      | none => return none
      | some ids => return some (id :: ids)

end

end ShaderGraft.ValueType
