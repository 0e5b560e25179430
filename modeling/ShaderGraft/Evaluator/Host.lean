import ShaderGraft.Evaluator.Error

/-!
What an evaluation takes from the machine it runs on: functions of floats, and memory for the values
it builds and for the messages that show them.
-/

namespace ShaderGraft

/-- A machine that functions are evaluated on. -/
structure Host where
  abs : Float32 → Float32
  sqrt : Float32 → Float32
  sin : Float32 → Float32
  cos : Float32 → Float32
  tan : Float32 → Float32
  min : Float32 → Float32 → Float32
  max : Float32 → Float32 → Float32
  /-- The number of components that there is memory for in one value. -/
  room : Nat
  /-- The number of characters that there is memory for in one message. -/
  textRoom : Nat

namespace Host

/-- A machine with the floats of the runtime, and with more memory than can be addressed. -/
def native : Host where
  abs := Float32.abs
  sqrt := Float32.sqrt
  sin := Float32.sin
  cos := Float32.cos
  tan := Float32.tan
  min x y := if x < y then x else y
  max x y := if x < y then y else x
  room := UInt64.size
  textRoom := UInt64.size

/-- A value, if there is memory for it. There always is for four components. -/
def build (host : Host) (v : Value) : Except Stop Value :=
  if v.width ≤ 4 ∨ v.width ≤ host.room then .ok v else .error (.tooLarge v.width)

/-- Stops with an error that shows values, if there is memory for its message. -/
def refuse (host : Host) (cause : EvalError) : Stop :=
  if cause.message.length ≤ host.textRoom then .error cause else .tooLong cause.message.length

end Host

end ShaderGraft
