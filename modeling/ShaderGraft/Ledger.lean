import ShaderGraft.Builder.Call
import ShaderGraft.Injector
import ShaderGraft.Module.Edit

/-!
What can be done with a module, and the ids that it takes. A caller can get ids from a builder and
put them into the module later; a `Ledger` is a module with the ids that are still to be used.
-/

namespace ShaderGraft

namespace Module

/-- The number of instructions in the parts of a module where compiling puts results. -/
def extent (m : Module) : Nat :=
  m.imports.length + m.globals.length + (m.functions.flatMap Function.instructions).length

/-- The number of ids that an injection into the function at an index gave out: one for the new
label, one for each new import and declaration, and one for each new instruction but the last. -/
def idsTaken (old new : Module) (index : Nat) : Nat :=
  (new.imports.length - old.imports.length) + (new.globals.length - old.globals.length) +
    ((new.block? index 0).map (·.body.length)).getD 0

end Module

namespace Builder.Call

/-- Whether a result that the caller makes has an id that is still to be used. -/
def DrawsFrom (c : Call) (unused : List ResultId) : Prop :=
  ∀ inst ∈ c.given?, inst.resultId ∈ unused ∨ inst.resultId = 0 ∧ inst.opcode.layout = .none

instance (c : Call) (unused : List ResultId) : Decidable (c.DrawsFrom unused) :=
  inferInstanceAs (Decidable (∀ inst ∈ c.given?, _))

/-- The ids that are still to be used after a call that did not fail. -/
def settle (unused : List ResultId) (id? : Option ResultId) : Call → List ResultId
  | fresh => id?.toList ++ unused
  | beginBlockWithLabel label => unused.erase label
  | insert inst => unused.erase inst.resultId
  | _ => unused

/-- The ids that are still to be used after a call. -/
def unusedAfter (c : Call) (b : Builder) (unused : List ResultId) : List ResultId :=
  match c.run.run b with
  | .ok id? _ => c.settle unused id?
  | .error _ _ => unused

end Builder.Call

/-- What can be compiled. -/
inductive Task where
  | typeId (t : ValueType)
  | constant (type : HostType) (value : type.Value)
  | tree {i : Input} {t : HostType} (root : Tree i t) (input : i.Value)

namespace Task

def run : Task → Emit ResultId
  | typeId t => Emit.typeId t
  | constant type value => type.emit value
  | tree root input => root.serialize input

/-- The module after compiling, whether it failed or not. -/
def after (task : Task) (s : Serializer) : Module :=
  (endState task.run s).builder.target

/-- The number of ids that have no instruction: one if there was no block for it. -/
def idsLost (task : Task) (s : Serializer) : Nat :=
  match task.run.run s with
  | .error (.build _) _ => 1
  | _ => 0

/-- The number of ids that compiling takes. -/
def idsTaken (task : Task) (s : Serializer) : Nat :=
  (task.after s).extent - s.builder.target.extent + task.idsLost s

end Task

/-- A module and the ids that callers have to use in it. -/
structure Ledger where
  target : Module
  unused : List ResultId := []

namespace Ledger

/-- What can be done with a module, and the number of ids that it takes. -/
inductive Step : Nat → Ledger → Ledger → Prop where
  | call {l : Ledger} (c : Builder.Call) (selection : Selection) : c.DrawsFrom l.unused →
      Step (c.idsTaken ⟨l.target, selection⟩) l
        { target := (c.after ⟨l.target, selection⟩).target
          unused := c.unusedAfter ⟨l.target, selection⟩ l.unused }
  | compile {l : Ledger} (task : Task) {s : Serializer} : s.builder.target = l.target →
      Step (task.idsTaken s) l { l with target := task.after s }
  | inject {l : Ledger} {inj next : Injector} {index : Nat} {i : Input} {t : HostType}
      {tree : Tree i t} {input : i.Value} : inj.target = l.target →
      (inj.inject tree input).2 = .ok next →
      inj.target.functionWithId? inj.functionId = some index →
      Step (inj.target.idsTaken next.target index) l { l with target := next.target }

/-- Any number of steps, and the number of ids that they take. -/
inductive Runs (l : Ledger) : Nat → Ledger → Prop where
  | refl : Runs l 0 l
  | tail {n k : Nat} {l' l'' : Ledger} : Runs l n l' → Step k l' l'' → Runs l (n + k) l''

end Ledger

end ShaderGraft
