import ShaderGraft.Decimal.Layout
import ShaderGraft.Word

/-!
The types of values in a module, apart from the ids they are declared under. A scalar constant has a
literal type of its own, which carries its value.
-/

namespace ShaderGraft

/-- The type of a value. -/
inductive ValueType where
  /-- No type at all, where one was expected. -/
  | missing
  | void
  | bool
  | int (signed : Bool) (width : Word)
  | float (width : Word)
  | vector (elem : ValueType) (count : Word)
  /-- A matrix by columns, each a vector of `rows` elements. -/
  | matrix (elem : ValueType) (columns rows : Word)
  | struct (fields : List ValueType)
  | array (elem : ValueType) (count : Word)
  | literalFloat32 (bits : UInt32)
  | literalFloat64 (bits : UInt64)
  | literalInt32 (value : UInt32)
  | literalInt64 (value : UInt64)
deriving Repr, Inhabited

namespace ValueType

mutual

/-- The name of a type in messages. -/
def text : ValueType → String
  | .missing => "<nil>"
  | .void => "void"
  | .bool => "bool"
  | .int true width => "i" ++ toString width
  | .int false width => "u" ++ toString width
  | .float width => "f" ++ toString width
  | .vector elem count => "vec" ++ toString count ++ "<" ++ elem.text ++ ">"
  | .matrix elem columns rows =>
    "mat" ++ toString columns ++ "x" ++ toString rows ++ "<" ++ elem.text ++ ">"
  | .struct fields => "struct\x7b" ++ ", ".intercalate (textAll fields) ++ "\x7d"
  | .array elem count => "[" ++ toString count ++ "]" ++ elem.text
  | .literalFloat32 bits => "literal f32 " ++ Decimal.text .single bits.toNat
  | .literalFloat64 bits => "literal f64 " ++ Decimal.text .double bits.toNat
  | .literalInt32 value => "literal i32 " ++ toString value
  | .literalInt64 value => "literal i64 " ++ toString value

/-- The names of a list of types. -/
def textAll : List ValueType → List String
  | [] => []
  | t :: ts => t.text :: textAll ts

end

mutual

/-- Whether two types are the same. A missing type is not even the same as itself. -/
def same : ValueType → ValueType → Bool
  | .void, .void => true
  | .bool, .bool => true
  | .int s w, .int s' w' => s == s' && w == w'
  | .float w, .float w' => w == w'
  | .vector e n, .vector e' n' => n == n' && same e e'
  | .matrix e c r, .matrix e' c' r' => c == c' && r == r' && same e e'
  | .struct fs, .struct fs' => sameAll fs fs'
  | .array e n, .array e' n' => n == n' && same e e'
  | .literalFloat32 b, .literalFloat32 b' => b == b'
  | .literalFloat64 b, .literalFloat64 b' => b == b'
  | .literalInt32 v, .literalInt32 v' => v == v'
  | .literalInt64 v, .literalInt64 v' => v == v'
  | _, _ => false

/-- Whether two lists have the same length and the same types in order. -/
def sameAll : List ValueType → List ValueType → Bool
  | [], [] => true
  | t :: ts, t' :: ts' => same t t' && sameAll ts ts'
  | _, _ => false

end

/-- The type of 32-bit floats. -/
abbrev f32 : ValueType := .float 32

/-- The type of 32-bit unsigned integers. -/
abbrev u32 : ValueType := .int false 32

/-- Whether the type is a float or a vector of floats. -/
def isFloat : ValueType → Bool
  | .float _ => true
  | .vector (.float _) _ => true
  | _ => false

/-- Whether the type is a single number or truth value. -/
def isScalar : ValueType → Bool
  | .bool | .int .. | .float _ => true
  | _ => false

end ValueType

end ShaderGraft
