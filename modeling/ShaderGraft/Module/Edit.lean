import ShaderGraft.Module.Basic

/-!
Removing parts of a module by index. Nothing is removed where there is nothing.
-/

namespace ShaderGraft.Module

/-- The block at an index of the function at an index. -/
def block? (m : Module) (function block : Nat) : Option Block :=
  m.functions[function]?.bind (·.blocks[block]?)

/-- The module without the function at an index. -/
def eraseFunction? (m : Module) (index : Nat) : Option Module :=
  if index < m.functions.length then some { m with functions := m.functions.eraseIdx index }
  else none

/-- The module with the function at an index changed. -/
def modifyFunction? (m : Module) (index : Nat) (change : Function → Option Function) :
    Option Module := do
  let f ← m.functions[index]?
  return { m with functions := m.functions.set index (← change f) }

/-- The module with all blocks of a function removed. -/
def eraseBlocks? (m : Module) (function : Nat) : Option Module :=
  m.modifyFunction? function fun f => some { f with blocks := [] }

/-- The module without an instruction of the body of a block. -/
def eraseInstruction? (m : Module) (function block index : Nat) : Option Module :=
  m.modifyFunction? function fun f => do
    let b ← f.blocks[block]?
    if index < b.body.length then
      return { f with blocks := f.blocks.set block { b with body := b.body.eraseIdx index } }
    else none

end ShaderGraft.Module
