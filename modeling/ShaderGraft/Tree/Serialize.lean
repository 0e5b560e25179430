import ShaderGraft.Constant
import ShaderGraft.Tree.Basic

/-!
Compiling a tree: the instructions of the children come before those of a node, from left to right,
and the id of the node's result is given back. Arithmetic nodes look at their type only after their
children, vector nodes before.
-/

namespace ShaderGraft

namespace Arithmetic

/-- The name of the node in messages. -/
def title : Arithmetic → String
  | .add => "Addition"
  | .sub => "Subtraction"
  | .mul => "Multiplication"
  | .div => "Division"

def opcode : Arithmetic → Opcode
  | .add => .fAdd
  | .sub => .fSub
  | .mul => .fMul
  | .div => .fDiv

end Arithmetic

namespace Extremum

def title : Extremum → String
  | .max => "Max"
  | .min => "Min"

/-- The number in the instruction set. -/
def number : Extremum → Word
  | .max => 40
  | .min => 37

end Extremum

namespace Elementary

def title : Elementary → String
  | .sqrt => "Sqrt"
  | .abs => "Abs"
  | .sine => "Sine"
  | .cosine => "Cosine"
  | .tangent => "Tangent"

/-- The number in the instruction set. -/
def number : Elementary → Word
  | .sqrt => 31
  | .abs => 4
  | .sine => 13
  | .cosine => 14
  | .tangent => 15

end Elementary

/-- The number of the length of a vector in the instruction set. -/
def lengthNumber : Word := 66

/-- The number of the cross product in the instruction set. -/
def crossNumber : Word := 68

/-- The number of the vector of unit length in the instruction set. -/
def normalizeNumber : Word := 69

/-- The name that a chain's input has in its context. -/
def inputName : Bytes := utf8 "input"

namespace Emit

/-- The type id of a float or a vector of floats. -/
def floatTypeId (node : String) (type : HostType) : Emit ResultId := do
  let t ← valueType type
  if t.isFloat then typeId t else throw (.operandsNotFloat node t)

/-- The number of components of a vector of 32-bit floats. -/
def floatVector (node : String) (type : HostType) : Emit Word := do
  match ← valueType type with
  | .vector (.float 32) count => return count
  | t => throw (.notFloatVector node t)

/-- The value of a runtime parameter, or a constant in its place. -/
def parameter (name : Bytes) (type : HostType) (default : type.Value) : Emit ResultId := do
  let t ← valueType type
  match (← get).interface.bind (·.parameter? (nameHash name) t) with
  | some p => build (Build.compositeExtract p.typeId p.composite [1])
  | none =>
    tell (.variableDefaulted name t type default)
    type.emit default

/-- The result of an earlier step. -/
def access (context : Context) (name : Bytes) (type : HostType) : Emit ResultId :=
  match context.get? name type with
  | some id => return id
  | none => throw (.unresolved name type)

/-- Compiles a step of a chain and binds its result. -/
def step (context : Context) (name : Bytes) (type : HostType) (compile : Emit ResultId) :
    Emit (ResultId × Context) := do
  let id ← compile
  if context.contains name then tell (.resultOverwritten name)
  return (id, context.bind name { id, type })

end Emit

mutual

/-- Compiles a tree on an input. -/
def Tree.serialize {i : Input} {t : HostType} : Tree i t → i.Value → Emit ResultId
  | .constant value, _ => t.emit value
  | .parameter name default, _ => Emit.parameter name t default
  | .ref id, _ => return id
  | .input, x => return x
  | .arithmetic op a b, x => do
    let a ← a.serialize x
    let b ← b.serialize x
    let type ← Emit.floatTypeId op.title t
    Emit.build (Build.binary op.opcode type a b)
  | .extremum op a b, x => do
    let a ← a.serialize x
    let b ← b.serialize x
    let type ← Emit.floatTypeId op.title t
    Emit.extended type op.number [a, b]
  | .square of, x => do
    let v ← of.serialize x
    let type ← Emit.floatTypeId "Square" t
    Emit.build (Build.binary .fMul type v v)
  | .elementary fn of, x => do
    let v ← of.serialize x
    let type ← Emit.floatTypeId fn.title t
    Emit.extended type fn.number [v]
  | .normalize of, x => do
    let count ← Emit.floatVector "Normalize" t
    let v ← of.serialize x
    let type ← Emit.typeId (.vector .f32 count)
    Emit.extended type normalizeNumber [v]
  | .cross a b, x => do
    let a ← a.serialize x
    let b ← b.serialize x
    let type ← Emit.typeId (.vector .f32 3)
    Emit.extended type crossNumber [a, b]
  | .length (v := vector) of, x => do
    let _ ← Emit.floatVector "Length" vector
    let v ← of.serialize x
    let type ← Emit.typeId .f32
    Emit.extended type lengthNumber [v]
  | .select (v := vector) index of, x => do
    let count ← Emit.floatVector "VectorElementSelect" vector
    if index ≥ count then throw (.indexOutOfRange index count)
    let v ← of.serialize x
    let type ← Emit.typeId .f32
    Emit.build (Build.compositeExtract type v [index])
  | .link first second, x => do
    let y ← first.serialize x
    second.serialize y
  | .mapInput f inner, x => inner.serialize (f x)
  | .access name, c => Emit.access c name t
  | .chain steps, c => steps.serialize c
  | .detached steps, _ => steps.serialize .empty
  | .withInput (m := type) steps, x =>
    steps.serialize (Context.empty.bind inputName { id := x, type })
  | .inspect names of, c => do
    Emit.tell (.contextInspected c.size (names.map fun name =>
      { binding := c.find? name, typed := c.get? name t }))
    of.serialize c
  | .missing, _ => throw .missingNode

/-- Compiles a chain on the results around it. -/
def Chain.serialize {t : HostType} : Chain t → Context → Emit ResultId
  | .empty, _ => throw .emptyChain
  | .step before name op, c => do
    let c ← before.extend c
    return (← Emit.step c name t (op.serialize c)).1

/-- Compiles the steps of a chain and adds their results to the context. -/
def Chain.extend {t : HostType} : Chain t → Context → Emit Context
  | .empty, c => return c
  | .step before name op, c => do
    let c ← before.extend c
    return (← Emit.step c name t (op.serialize c)).2

end

end ShaderGraft
