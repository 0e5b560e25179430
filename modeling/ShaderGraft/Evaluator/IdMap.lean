import Std.Data.HashMap
import ShaderGraft.Word

/-!
Maps from ids. All that is known about them is what reading after writing gives.
-/

namespace ShaderGraft

/-- A map from ids to values. -/
structure IdMap (α : Type) where
  entries : Std.HashMap ResultId α := {}

namespace IdMap

variable {α : Type}

def empty : IdMap α := {}

def get? (m : IdMap α) (id : ResultId) : Option α :=
  m.entries[id]?

def insert (m : IdMap α) (id : ResultId) (a : α) : IdMap α :=
  { entries := m.entries.insert id a }

@[simp] theorem get?_empty (id : ResultId) : (empty : IdMap α).get? id = none := by
  simp [empty, get?]

@[simp] theorem get?_insert (m : IdMap α) (k id : ResultId) (a : α) :
    (m.insert k a).get? id = if k = id then some a else m.get? id := by
  simp [insert, get?, Std.HashMap.getElem?_insert]

end IdMap

end ShaderGraft
