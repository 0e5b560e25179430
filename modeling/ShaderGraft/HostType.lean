import ShaderGraft.ValueType.Basic

/-!
The types that constants and variables have on the side of the caller. Each of them stands for a type
in the module, or for none. Two host types can stand for the same module type and still be
different, so a result of one is not a result of the other.
-/

namespace ShaderGraft

/-- A single number or truth value. -/
inductive Scalar where
  | bool
  | int32
  | int64
  | uint32
  | uint64
  | float32
  | float64
deriving DecidableEq, Repr

namespace Scalar

def name : Scalar → String
  | .bool => "bool"
  | .int32 => "int32"
  | .int64 => "int64"
  | .uint32 => "uint32"
  | .uint64 => "uint64"
  | .float32 => "float32"
  | .float64 => "float64"

/-- The type in the module. -/
def type : Scalar → ValueType
  | .bool => .bool
  | .int32 => .int true 32
  | .int64 => .int true 64
  | .uint32 => .int false 32
  | .uint64 => .int false 64
  | .float32 => .float 32
  | .float64 => .float 64

/-- The values, numbers by their bits. -/
abbrev Value : Scalar → Type
  | .bool => Bool
  | .int32 | .uint32 | .float32 => UInt32
  | .int64 | .uint64 | .float64 => UInt64

end Scalar

/-- A host type. -/
inductive HostType where
  | scalar (s : Scalar)
  /-- A scalar type under a name of its own. -/
  | named (name : String) (s : Scalar)
  | vec2
  | vec3
  | dvec2
  | dvec3
  | mat2
  | mat3
  | mat4
  | array (count : Nat) (elem : HostType)
  /-- A type that has no equivalent in a module. -/
  | foreign (name : String)
deriving DecidableEq, Repr

namespace HostType

/-- The type of 32-bit floats. -/
abbrev f32 : HostType := .scalar .float32

/-- The name of a host type in messages. -/
def name : HostType → String
  | .scalar s => s.name
  | .named name _ => name
  | .vec2 => "ms2.Vec"
  | .vec3 => "ms3.Vec"
  | .dvec2 => "md2.Vec"
  | .dvec3 => "md3.Vec"
  | .mat2 => "ms2.Mat2"
  | .mat3 => "ms3.Mat3"
  | .mat4 => "ms3.Mat4"
  | .array count elem => "[" ++ toString count ++ "]" ++ elem.name
  | .foreign name => name

/-- The module type that a host type stands for, or the host type that stands for none. Arrays of
two to four scalars are vectors. -/
def valueType : HostType → Except HostType ValueType
  | .scalar s | .named _ s => .ok s.type
  | .vec2 => .ok (.vector .f32 2)
  | .vec3 => .ok (.vector .f32 3)
  | .dvec2 => .ok (.vector (.float 64) 2)
  | .dvec3 => .ok (.vector (.float 64) 3)
  | .mat2 => .ok (.matrix .f32 2 2)
  | .mat3 => .ok (.matrix .f32 3 3)
  | .mat4 => .ok (.matrix .f32 4 4)
  | .array count elem =>
    if count < 2 || 4 < count then .error (.array count elem)
    else match elem.valueType with
      | .error t => .error t
      | .ok t => if t.isScalar then .ok (.vector t count.toUInt32) else .error (.array count elem)
  | .foreign name => .error (.foreign name)

/-- The values of a host type. Matrices are given row by row. -/
abbrev Value : HostType → Type
  | .scalar s | .named _ s => s.Value
  | .vec2 => Vector UInt32 2
  | .vec3 => Vector UInt32 3
  | .dvec2 => Vector UInt64 2
  | .dvec3 => Vector UInt64 3
  | .mat2 => Vector UInt32 4
  | .mat3 => Vector UInt32 9
  | .mat4 => Vector UInt32 16
  | .array count elem => Vector elem.Value count
  | .foreign _ => Unit

end HostType

end ShaderGraft
