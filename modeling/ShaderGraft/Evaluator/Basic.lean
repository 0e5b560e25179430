import ShaderGraft.Evaluator.Host
import ShaderGraft.Evaluator.IdMap

/-!
Evaluating a function of a module. Values are looked up in the frame of the running call, then among
the constants evaluated before, then in the module. A run makes at most `maxSteps` steps over all
its calls, and calls nest at most `maxCallDepth` deep. The machine that it runs on is a parameter.
-/

namespace ShaderGraft

/-- The values and the memory of one call. -/
structure Frame where
  values : IdMap Value := .empty
  /-- The contents of variables by pointer id. -/
  memory : IdMap Value := .empty

/-- What all calls of a run share: the constants evaluated so far and the number of instructions
begun. -/
structure Machine where
  constants : IdMap Value := .empty
  steps : Nat := 0

/-- A part of a run. -/
abbrev Eval (α : Type) := StateT Machine (Except Stop) α

/-- How deep calls nest below the first. -/
def maxCallDepth : Nat := 64

/-- The number of instructions that a run may begin. -/
def maxSteps : Nat := 1 <<< 20

namespace Eval

/-- Ends the run with an error. -/
def fail {α : Type} (cause : EvalError) : Eval α :=
  throw (.error cause)

/-- Counts an instruction. -/
def countStep : Eval Unit := do
  let steps := (← get).steps + 1
  modify fun s => { s with steps }
  if steps > maxSteps then fail .stepLimit

/-- Marks an error of `part` with the function and the block it happened in. -/
def inBlock {α : Type} (function block : ResultId) (part : Eval α) : Eval α := fun s =>
  match part s with
  | .error (.error cause) => .error (.error (.within function block cause))
  | other => other

/-- The result of a pure step. -/
def lift {α : Type} : Except Stop α → Eval α
  | .ok a => pure a
  | .error stop => throw stop

end Eval

namespace Module

/-- The value of a scalar constant. -/
def constantValue (m : Module) (inst : Instruction) : Except Stop Value :=
  match m.typeOf inst with
  | .error .endless => .error .endless
  | .error (.error cause) => .error (.error (.unreadableType cause))
  | .ok (.literalFloat32 bits) => .ok (.float (Float32.ofBits bits))
  | .ok (.literalInt32 value) => .ok (.uint value)
  | .ok type => .error (.error (.unsupportedConstant type))

/-- The composite of the given type from its parts: a vector joins them, anything else has them as
members. -/
def compositeValue (host : Host) (type : Instruction) (parts : List Value) : Except Stop Value :=
  if type.opcode = .typeVector then
    match parts.find? (·.members.isSome) with
    | some part => .error (host.refuse (.notScalarOrVector part))
    | none => host.build { floats := parts.flatMap (·.floats), uints := parts.flatMap (·.uints) }
  else host.build (.composite parts)

/-- The value of an id, following at most `fuel` references between constants in a row. A constant
that is not in the frame is remembered under its id. -/
def valueOf (m : Module) (host : Host) (frame : Frame) : (fuel : Nat) → ResultId → Eval Value
  | 0, _ => throw .endless
  | fuel + 1, id => do
    if let some v := frame.values.get? id then return v
    if let some v := (← get).constants.get? id then return v
    match m.global? id with
    | none => Eval.fail (.undefined id)
    | some inst =>
      let v ← match inst.opcode with
        | .constant => Eval.lift (m.constantValue inst)
        | .constantTrue => pure (.uint 1)
        | .constantFalse => pure (.uint 0)
        | .constantComposite =>
          match m.global? inst.resultType with
          | none => Eval.fail (.undefinedType inst.resultType)
          | some type => do
            let parts ← inst.operands.mapM (m.valueOf host frame fuel)
            Eval.lift (compositeValue host type parts)
        | op => Eval.fail (.unsupportedGlobal op id)
      modify fun s => { s with constants := s.constants.insert id v }
      return v

/-- The value of an id in a frame. -/
def value (m : Module) (host : Host) (frame : Frame) (id : ResultId) : Eval Value :=
  m.valueOf host frame (m.globals.length + 1) id

/-- The values of a list of ids. -/
def valuesOf (m : Module) (host : Host) (frame : Frame) (ids : List ResultId) :
    Eval (List Value) :=
  ids.mapM (m.value host frame)

end Module

namespace Value

/-- The element that a list of indices leads to. -/
def extract (v : Value) (host : Host) : List Word → Except Stop Value
  | [] => .ok v
  | i :: rest =>
    match v.element? i.toNat with
    | none => .error (host.refuse (.indexOutOfRange i v))
    | some e => e.extract host rest

/-- The euclidean length of a list of floats. The squares are added from left to right. -/
def lengthOf (host : Host) (xs : List Float32) : Float32 :=
  host.sqrt (xs.foldl (fun sum x => sum + x * x) 0)

/-- The cross product of two vectors of three components. -/
def cross? (a b : Value) : Option Value :=
  match a.floats, b.floats with
  | [a₀, a₁, a₂], [b₀, b₁, b₂] =>
    some (.floatVector [a₁ * b₂ - a₂ * b₁, a₂ * b₀ - a₀ * b₂, a₀ * b₁ - a₁ * b₀])
  | _, _ => none

/-- Component by component arithmetic. -/
def zipFloats (host : Host) (f : Float32 → Float32 → Float32) (a b : Value) : Except Stop Value :=
  match zipFloats? f a b with
  | some v => .ok v
  | none => .error (host.refuse (.floatMismatch a b))

end Value

/-- The arithmetic of an opcode. -/
def Opcode.arithmetic? : Opcode → Option (Float32 → Float32 → Float32)
  | .fAdd => some (· + ·)
  | .fSub => some (· - ·)
  | .fMul => some (· * ·)
  | .fDiv => some (· / ·)
  | _ => none

/-- The functions of one value in the standard set, by number. -/
def standardFunction? (host : Host) : Word → Option (Value → Value)
  | 4 => some (Value.mapFloats host.abs)
  | 13 => some (Value.mapFloats host.sin)
  | 14 => some (Value.mapFloats host.cos)
  | 15 => some (Value.mapFloats host.tan)
  | 31 => some (Value.mapFloats host.sqrt)
  | 66 => some fun v => .float (Value.lengthOf host v.floats)
  | 69 => some fun v => v.mapFloats (· / Value.lengthOf host v.floats)
  | _ => none

/-- The value of a function of the standard set on its arguments. Functions of one value do not look
at further arguments. -/
def standardValue (host : Host) (n : Word) (args : List Value) : Except Stop Value :=
  match standardFunction? host n, args with
  | some f, v :: _ => .ok (f v)
  | some _, [] => .error (.error (.badOperands n))
  | none, args =>
    match n, args with
    | 37, [a, b] => a.zipFloats host host.min b
    | 40, [a, b] => a.zipFloats host host.max b
    | 68, [a, b] =>
      match a.cross? b with
      | some v => .ok v
      | none => .error (.error (.badOperands n))
    | 37, _ | 40, _ | 68, _ => .error (.error (.badOperands n))
    | _, _ => .error (.error (.unsupportedFunction n))

end ShaderGraft
