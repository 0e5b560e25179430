import ShaderGraft.Literal
import ShaderGraft.Module.Basic

/-!
Adding declarations to a module. A type, constant or import that the module already has is not
declared again: its id is given back.
-/

namespace ShaderGraft

/-- A step that changes a module and cannot fail. -/
abbrev Declare (α : Type) := StateM Module α

namespace Declare

/-- A fresh id. After 2^32 of them the bound wraps around. -/
def fresh : Declare ResultId :=
  modifyGet fun m => (m.header.bound, { m with header.bound := m.header.bound + 1 })

/-- Adds an instruction at the end of a section. -/
def append (s : Section) (inst : Instruction) : Declare Unit :=
  modify fun m => m.append inst s

/-- Whether `inst` declares the given thing. -/
def declares (op : Opcode) (resultType : ResultId) (operands : List Word) (inst : Instruction) :
    Bool :=
  inst.opcode == op && inst.resultType == resultType && inst.operands == operands

/-- The id of a type or constant, which is declared if the module does not have it. -/
def global (op : Opcode) (resultType : ResultId) (operands : List Word) : Declare ResultId := do
  match (← get).globals.find? (declares op resultType operands) with
  | some inst => return inst.resultId
  | none =>
    let id ← fresh
    append .globals { opcode := op, resultType, resultId := id, operands }
    return id

/-- Asks for a capability, once. -/
def capability (c : Word) : Declare Unit := do
  if (← get).capabilities.any (·.operands == [c]) then return
  append .capabilities { opcode := .capability, operands := [c] }

/-- The capability of 64-bit floats. -/
def float64Capability : Word := 10

/-- The capability of 64-bit integers. -/
def int64Capability : Word := 11

def typeVoid : Declare ResultId :=
  global .typeVoid 0 []

def typeBool : Declare ResultId :=
  global .typeBool 0 []

/-- An integer type. 64 bits need a capability. -/
def typeInt (width : Word) (signed : Bool) : Declare ResultId := do
  if width = 64 then capability int64Capability
  global .typeInt 0 [width, if signed then 1 else 0]

/-- A float type. 64 bits need a capability. -/
def typeFloat (width : Word) : Declare ResultId := do
  if width = 64 then capability float64Capability
  global .typeFloat 0 [width]

def typeVector (component count : Word) : Declare ResultId :=
  global .typeVector 0 [component, count]

/-- A matrix type by its column type and its number of columns. -/
def typeMatrix (column count : Word) : Declare ResultId :=
  global .typeMatrix 0 [column, count]

/-- An array type. Its length is the id of a constant. -/
def typeArray (element length : ResultId) : Declare ResultId :=
  global .typeArray 0 [element, length]

def typeStruct (members : List ResultId) : Declare ResultId :=
  global .typeStruct 0 members

def typePointer (storageClass : Word) (pointee : ResultId) : Declare ResultId :=
  global .typePointer 0 [storageClass, pointee]

def typeFunction (result : ResultId) (parameters : List ResultId) : Declare ResultId :=
  global .typeFunction 0 (result :: parameters)

/-- A scalar constant by its literal words. -/
def constant (type : ResultId) (literal : List Word) : Declare ResultId :=
  global .constant type literal

/-- A 64-bit constant, low order word first. -/
def constant64 (type : ResultId) (bits : UInt64) : Declare ResultId :=
  constant type [bits.toUInt32, (bits >>> 32).toUInt32]

def constantBool (type : ResultId) (value : Bool) : Declare ResultId :=
  global (if value then .constantTrue else .constantFalse) type []

def constantComposite (type : ResultId) (constituents : List ResultId) : Declare ResultId :=
  global .constantComposite type constituents

/-- The id of the extended instruction set with the given name, imported if necessary. -/
def extInstImport (name : Bytes) : Declare ResultId := do
  match (← get).imports.find? (fun inst => (Literal.decode inst.operands).1 == name) with
  | some inst => return inst.resultId
  | none =>
    let id ← fresh
    append .imports { opcode := .extInstImport, resultId := id, operands := Literal.encode name }
    return id

def memoryModel (addressing memory : Word) : Declare Unit :=
  modify fun m =>
    { m with memoryModel := some { opcode := .memoryModel, operands := [addressing, memory] } }

def entryPoint (model : Word) (function : ResultId) (name : Bytes) (interface : List ResultId) :
    Declare Unit :=
  append .entryPoints {
    opcode := .entryPoint
    operands := model :: function :: (Literal.encode name ++ interface) }

def executionMode (entry mode : Word) (parameters : List Word) : Declare Unit :=
  append .executionModes { opcode := .executionMode, operands := entry :: mode :: parameters }

/-- Gives `id` a debug name. -/
def name (id : ResultId) (text : Bytes) : Declare Unit :=
  append .names { opcode := .name, operands := id :: Literal.encode text }

end Declare

end ShaderGraft
