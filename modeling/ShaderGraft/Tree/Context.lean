import ShaderGraft.HostType
import ShaderGraft.Word

/-!
Named results. The steps of a chain see the results of the steps before them by name; a later result
of the same name takes the place of the earlier one.
-/

namespace ShaderGraft

/-- A result and its host type. -/
structure Binding where
  id : ResultId
  type : HostType
deriving DecidableEq, Repr

/-- Results by name, each name once. -/
structure Context where
  entries : List (Bytes × Binding) := []
deriving DecidableEq, Repr

namespace Context

/-- A context without results. -/
def empty : Context := {}

/-- The number of results. -/
def size (c : Context) : Nat :=
  c.entries.length

/-- The result of the given name. -/
def find? (c : Context) (name : Bytes) : Option Binding :=
  c.entries.lookup name

/-- The result of the given name if it has the given type. -/
def get? (c : Context) (name : Bytes) (type : HostType) : Option ResultId :=
  match c.find? name with
  | some b => if b.type = type then some b.id else none
  | none => none

/-- The context with a result bound to a name. -/
def bind (c : Context) (name : Bytes) (b : Binding) : Context :=
  { entries := (name, b) :: c.entries.filter (·.1 != name) }

/-- Whether there is a result of the given name. -/
def contains (c : Context) (name : Bytes) : Bool :=
  (c.find? name).isSome

end Context

end ShaderGraft
