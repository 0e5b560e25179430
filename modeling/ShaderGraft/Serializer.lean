import ShaderGraft.Builder
import ShaderGraft.NameHash
import ShaderGraft.Record
import ShaderGraft.ValueType.Declare

/-!
The state that trees are compiled in: a builder with a selected block, the interface that variables
are looked up in, and the instruction set that mathematical functions come from.
-/

namespace ShaderGraft

/-- The name of the standard set of mathematical functions. -/
def standardSet : Bytes := utf8 "GLSL.std.450"

/-- A builder together with what trees need besides it. -/
structure Serializer where
  builder : Builder
  interface : Option Interface := none
  setName : Bytes := standardSet
  /-- The id of the imported instruction set, zero before its first use. -/
  setId : ResultId := 0
  log : List Record := []

/-- Why compiling a tree ends early. What it did to the module before stays. -/
inductive EmitError where
  | build (cause : BuildError)
  | unsupportedType (type : HostType)
  | noTypeId (type : ValueType)
  | operandsNotFloat (node : String) (type : ValueType)
  | notFloatVector (node : String) (type : ValueType)
  | indexOutOfRange (index count : Word)
  | unresolved (name : Bytes) (type : HostType)
  | emptyChain
  /-- A place in the tree where a node is missing. -/
  | missingNode

/-- The message of an error that a wrong tree or wrong use makes. The others have none. -/
def EmitError.message? : EmitError → Option String
  | .build (.misuse cause) => some cause.message
  | .build (.refused cause) => some cause.message
  | .build .lost => none
  | .unsupportedType type => some ("equivalent type not implemented for " ++ type.name)
  | .noTypeId .missing => some "type %!s(<nil>) has no type id"
  | .noTypeId type => some ("type " ++ type.text ++ " has no type id")
  | .operandsNotFloat node type =>
    some (node ++ ": want float scalar or vector operands, got " ++ type.text)
  | .notFloatVector node type => some (node ++ ": want float32 vector, got " ++ type.text)
  | .indexOutOfRange index count =>
    some ("VectorElementSelect: index " ++ toString index ++ " out of range for vector of " ++
      toString count ++ " elements")
  | .unresolved name type =>
    some ("expected result with name " ++ Text.quote name ++ " of type " ++ type.name)
  | .emptyChain => some "empty ordered operations"
  | .missingNode => none

/-- A step of compiling a tree. -/
abbrev Emit (α : Type) := EStateM EmitError Serializer α

namespace Emit

/-- Runs a step of the builder. -/
def build {α : Type} (step : Build α) : Emit α := fun s =>
  match step.run s.builder with
  | .ok a b => .ok a { s with builder := b }
  | .error e b => .error (.build e) { s with builder := b }

/-- Runs a step that declares something. -/
def declare {α : Type} (step : Declare α) : Emit α :=
  build (Build.declare step)

/-- Adds a record to the log. -/
def tell (r : Record) : Emit Unit :=
  modify fun s => { s with log := s.log ++ [r] }

/-- The id of a type that has one. -/
def typeId (type : ValueType) : Emit ResultId := do
  match ← declare type.declare with
  | some id => return id
  | none => throw (.noTypeId type)

/-- The id of the instruction set, which is imported on first use. -/
def instructionSet : Emit ResultId := do
  let s ← get
  if s.setId = 0 then
    let id ← declare (Declare.extInstImport s.setName)
    modify fun s => { s with setId := id }
    return id
  else return s.setId

/-- The module type of a host type. -/
def valueType (type : HostType) : Emit ValueType :=
  match type.valueType with
  | .ok t => return t
  | .error unsupported => throw (.unsupportedType unsupported)

/-- A function of the instruction set. -/
def extended (type : ResultId) (n : Word) (operands : List ResultId) : Emit ResultId := do
  let set ← instructionSet
  build (Build.extInst type set n operands)

end Emit

end ShaderGraft
