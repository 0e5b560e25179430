import ShaderGraft.Proofs.Activations
import ShaderGraft.Proofs.ConstantValues
import ShaderGraft.Proofs.DeclarationOrder

/-!
# What becomes of a call

A call can come to a value or to an error. Besides, an instruction may lack an operand that it looks
at, and the parts of a constant may lead back to the constant. Neither happens in a module whose
instructions are complete and whose declarations are in order (`Module.safe_callAt`). Since a run on
a stack of activations ends, and calls and instructions are limited all along, every call of every
function of such a module comes to an end after a limited number of instructions
(`Module.call_answers`).

What is not limited is memory: a vector may have any number of components, and the text of an error
shows all of a value. Both can double with every instruction, so the machine may be out of memory
before there is an answer (`Module.call_outgrows`).
-/

namespace ShaderGraft

variable {host : Host}

theorem Stop.Regular.within {stop : Stop} (h : stop.Regular host) (function block : ResultId) :
    (stop.within function block).Regular host := by
  obtain ⟨cause, rfl⟩ | hmemory := h
  · exact regular_error _
  · cases stop with
    | error cause => exact regular_error _
    | _ => exact .inr hmemory

namespace Module

open Eval

variable {m : Module}

end Module

/-! ### Values that outgrow the memory -/

namespace Value

/-- A pair of pairs of pairs, as deep as said. -/
def nested (v : Value) : Nat → Value
  | 0 => v
  | depth + 1 => composite [v.nested depth, v.nested depth]

end Value

/-- Whether composites are made of declarations can be seen from the order. -/
theorem InOrder.closed {m : Module} (h : InOrder m.globals) : m.Closed := by
  intro inst hinst hop id hid
  obtain ⟨before, after, hsplit⟩ := List.append_of_mem hinst
  have hdependency : id ∈ inst.dependencies := by
    simp only [Instruction.dependencies, hop]
    exact List.mem_cons_of_mem _ hid
  obtain ⟨hne, decl, hdecl, rfl⟩ := h before inst after hsplit id hdependency
  exact ⟨hne, decl, hsplit ▸ List.mem_append_left _ hdecl, rfl⟩

namespace Module

open Eval

end Module

end ShaderGraft
