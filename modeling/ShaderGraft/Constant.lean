import ShaderGraft.Serializer

/-!
Host values as constants of the module. Vectors are composites of their components and matrices are
composites of their column vectors.
-/

namespace ShaderGraft

namespace Scalar

/-- A scalar constant of a declared type. -/
def constant : (s : Scalar) → (type : ResultId) → s.Value → Declare ResultId
  | .bool, type, v => Declare.constantBool type v
  | .int32, type, v | .uint32, type, v | .float32, type, v => Declare.constant type [v]
  | .int64, type, v | .uint64, type, v | .float64, type, v => Declare.constant64 type v

/-- A scalar constant with its type. -/
def emit (s : Scalar) (v : s.Value) : Emit ResultId := do
  let type ← Emit.typeId s.type
  Emit.declare (s.constant type v)

/-- A vector constant. The vector type is declared before the components. -/
def emitVector (s : Scalar) (vs : List s.Value) : Emit ResultId := do
  let type ← Emit.typeId (.vector s.type vs.length.toUInt32)
  let parts ← vs.mapM s.emit
  Emit.declare (Declare.constantComposite type parts)

end Scalar

/-- A matrix of `n` columns and rows from its elements row by row. -/
def emitMatrix (n : Nat) (elements : List UInt32) : Emit ResultId := do
  let type ← Emit.typeId (.matrix .f32 n.toUInt32 n.toUInt32)
  let columnType ← Emit.typeId (.vector .f32 n.toUInt32)
  let elementType ← Emit.typeId .f32
  let columns ← (List.range n).mapM fun c => do
    let column := (List.range n).map fun r => elements.getD (r * n + c) 0
    let parts ← column.mapM fun bits => Emit.declare (Declare.constant elementType [bits])
    Emit.declare (Declare.constantComposite columnType parts)
  Emit.declare (Declare.constantComposite type columns)

namespace HostType

/-- The constant for a value of a host type. -/
def emit : (type : HostType) → type.Value → Emit ResultId
  | .scalar s, v | .named _ s, v => s.emit v
  | .vec2, v => Scalar.float32.emitVector v.toList
  | .vec3, v => Scalar.float32.emitVector v.toList
  | .dvec2, v => Scalar.float64.emitVector v.toList
  | .dvec3, v => Scalar.float64.emitVector v.toList
  | .mat2, v => emitMatrix 2 v.toList
  | .mat3, v => emitMatrix 3 v.toList
  | .mat4, v => emitMatrix 4 v.toList
  | .array count (.scalar s), v => do
    let _ ← Emit.valueType (.array count (.scalar s))
    s.emitVector v.toList
  | .array count (.named name s), v => do
    let _ ← Emit.valueType (.array count (.named name s))
    s.emitVector v.toList
  | type, _ => do
    match type.valueType with
    | .ok t => throw (.noTypeId t)
    | .error unsupported => throw (.unsupportedType unsupported)

end HostType

end ShaderGraft
