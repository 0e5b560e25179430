import ShaderGraft.Decimal.Layout
import ShaderGraft.Word

/-!
Values at run time. Numbers and vectors of numbers are flat lists of floats or of words; structs,
matrices and arrays have members.
-/

namespace ShaderGraft

/-- A value. An empty list of members is not the same as no members. -/
structure Value where
  floats : List Float32 := []
  uints : List UInt32 := []
  members : Option (List Value) := none

namespace Value

/-- The value of a function that returns nothing. -/
def void : Value := {}

def float (x : Float32) : Value := { floats := [x] }

def uint (n : UInt32) : Value := { uints := [n] }

def floatVector (xs : List Float32) : Value := { floats := xs }

def composite (members : List Value) : Value := { members := some members }

/-- A runtime parameter: the hash of its name and its value. -/
def parameter (hash : Word) (v : Value) : Value :=
  composite [uint hash, v]

/-- Whether there is nothing in the value. -/
def isVoid (v : Value) : Bool :=
  v.floats.isEmpty && v.uints.isEmpty && (v.members.getD []).isEmpty

/-- The number of components and members that the value itself holds. -/
def width (v : Value) : Nat :=
  v.floats.length + v.uints.length + (v.members.getD []).length

/-- One component as it is, several in parentheses. -/
def tupleText : List String → String
  | [x] => x
  | xs => "(" ++ ", ".intercalate xs ++ ")"

mutual

/-- The text of a value. -/
def text : Value → String
  | ⟨_, _, some members⟩ => "\x7b" ++ ", ".intercalate (textAll members) ++ "\x7d"
  | ⟨x :: xs, _, none⟩ => tupleText ((x :: xs).map Decimal.single)
  | ⟨[], n :: ns, none⟩ => tupleText ((n :: ns).map toString)
  | ⟨[], [], none⟩ => "void"

/-- The texts of a list of values. -/
def textAll : List Value → List String
  | [] => []
  | v :: vs => v.text :: textAll vs

end

/-- A value of another shape than wanted. -/
inductive ShapeMismatch where
  | notFloat (got : Value)
  | notVector (size : Nat) (got : Value)

def ShapeMismatch.message : ShapeMismatch → String
  | .notFloat got => "want float scalar, got " ++ got.text
  | .notVector size got => "want " ++ toString size ++ " component vector, got " ++ got.text

/-- The float of a float scalar. -/
def asFloat (v : Value) : Except ShapeMismatch Float32 :=
  match v.floats with
  | [x] => .ok x
  | _ => .error (.notFloat v)

/-- The components of a float vector of the given size. -/
def asVector (size : Nat) (v : Value) : Except ShapeMismatch (List Float32) :=
  if v.floats.length = size then .ok v.floats else .error (.notVector size v)

/-- The member or component at an index. A single number has no components. -/
def element? (v : Value) (i : Nat) : Option Value :=
  match v.members, v.floats, v.uints with
  | some members, _, _ => members[i]?
  | none, x :: y :: xs, _ => (x :: y :: xs)[i]?.map float
  | none, _, m :: n :: ns => (m :: n :: ns)[i]?.map uint
  | none, _, _ => none

/-- A function of every float. Everything else is dropped. -/
def mapFloats (f : Float32 → Float32) (v : Value) : Value :=
  { floats := v.floats.map f }

/-- The floats of two values combined in pairs, if there are equally many and at least one. -/
def zipFloats? (f : Float32 → Float32 → Float32) (a b : Value) : Option Value :=
  if a.floats.length = b.floats.length ∧ a.floats ≠ [] then
    some { floats := List.zipWith f a.floats b.floats }
  else none

end Value

end ShaderGraft
