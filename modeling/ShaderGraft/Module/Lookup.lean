import ShaderGraft.Literal
import ShaderGraft.Module.Basic

/-!
Finding things in a module by id or by debug name. The first match in layout order wins, and the id
zero is never found.
-/

namespace ShaderGraft.Module

/-- The type, constant or global variable with the given id. -/
def global? (m : Module) (id : ResultId) : Option Instruction :=
  if id = 0 then none else m.globals.find? (·.resultId == id)

/-- The instruction with the given result id, anywhere in the module. -/
def definition? (m : Module) (id : ResultId) : Option Instruction :=
  if id = 0 then none else m.instructions.find? (·.resultId == id)

/-- The debug name that an instruction gives to `id`. -/
def debugName? (id : ResultId) (inst : Instruction) : Option Bytes :=
  match inst.operands with
  | target :: w :: ws =>
    if inst.opcode = .name ∧ target = id then some (Literal.decode (w :: ws)).1 else none
  | _ => none

/-- The debug name of `id`: the first one it was given. -/
def name? (m : Module) (id : ResultId) : Option Bytes :=
  m.names.findSome? (debugName? id)

/-- The index of the first function with the given debug name. -/
def functionNamed? (m : Module) (name : Bytes) : Option Nat :=
  m.functions.findIdx? fun f => m.name? f.id == some name

/-- The index of the first function with the given id. -/
def functionWithId? (m : Module) (id : ResultId) : Option Nat :=
  m.functions.findIdx? fun f => f.id == id

end ShaderGraft.Module
