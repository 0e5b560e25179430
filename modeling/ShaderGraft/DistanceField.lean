import ShaderGraft.Evaluator.Run
import ShaderGraft.NameHash

/-!
Evaluating a function over positions of the plane. One of its runtime parameters is the position, the
others keep the values they were given by name.
-/

namespace ShaderGraft

open Text

/-- A function of positions. -/
structure DistanceField where
  /-- The index of the function. -/
  function : Nat
  /-- Which argument the position is. -/
  coordinate : Nat
  /-- The hash of the position's name. -/
  hash : Word
  /-- The other arguments, and a void value in place of the position. -/
  arguments : List Value

/-- Why there is no function of positions, or none of its values. -/
inductive FieldError where
  | otherParameters (formals known : Nat)
  | noValue (index : Nat) (hash : Word)
  | noCoordinate (name : Bytes)
  | bufferMismatch
  | emptyBuffers
  | shape (cause : Value.ShapeMismatch)
  /-- A call was stopped, or there is no memory for the message about its value. -/
  | stopped (stop : Stop)
  /-- The function is not in the module. -/
  | broken

def FieldError.message : FieldError → String
  | .otherParameters formals known =>
    "function has " ++ toString formals ++ " parameters but " ++ toString known ++
      " are runtime variables"
  | .noValue index hash =>
    "no value for parameter " ++ toString index ++ " with hash 0x" ++ hex hash
  | .noCoordinate name => "no vec2 parameter called " ++ quote name
  | .bufferMismatch => "position and distance buffer length mismatch"
  | .emptyBuffers => "empty buffers"
  | .shape cause => cause.message
  | .stopped (.error cause) => cause.message
  | .stopped _ | .broken => ""

namespace DistanceField

/-- The value for a name hash. Of several names with that hash the last one counts. -/
def valueFor? (values : List (Bytes × Value)) (hash : Word) : Option Value :=
  (values.reverse.find? fun (name, _) => nameHash name == hash).map (·.2)

/-- Whether a parameter is the position of the given hash. -/
def isCoordinate (hash : Word) (p : Parameter) : Bool :=
  p.hash == hash && p.type.same (.vector .f32 2)

/-- The arguments of the parameters from `index` on, with void values for positions. -/
def fixedArguments (values : List (Bytes × Value)) (hash : Word) :
    (index : Nat) → List Parameter → Except FieldError (List Value)
  | _, [] => .ok []
  | index, p :: ps =>
    if isCoordinate hash p then do
      return .void :: (← fixedArguments values hash (index + 1) ps)
    else
      match valueFor? values p.hash with
      | none => .error (.noValue index p.hash)
      | some v => do
        return .parameter p.hash v :: (← fixedArguments values hash (index + 1) ps)

/-- The index of the last position among the parameters. -/
def coordinateIndex? (hash : Word) (ps : List Parameter) : Option Nat :=
  (ps.zipIdx.filter fun (p, _) => isCoordinate hash p).getLast?.map (·.2)

/-- The function of an interface as a function of the parameter called `name`. -/
def create (m : Module) (interface : Interface) (name : Bytes) (values : List (Bytes × Value)) :
    Except FieldError DistanceField := do
  match m.functions[interface.function]? with
  | none => throw .broken
  | some f =>
    if interface.parameters.length ≠ f.parameters.length then
      throw (.otherParameters f.parameters.length interface.parameters.length)
    let hash := nameHash name
    let arguments ← fixedArguments values hash 0 interface.parameters
    match coordinateIndex? hash interface.parameters with
    | none => throw (.noCoordinate name)
    | some coordinate => return { function := interface.function, coordinate, hash, arguments }

/-- What the function gives at a position. -/
def valueAt (d : DistanceField) (host : Host) (m : Module) (x y : Float32) : Except Stop Value :=
  let position := Value.parameter d.hash (.floatVector [x, y])
  m.call host d.function (d.arguments.set d.coordinate position)

/-- Why a value is no distance. -/
def refuse (host : Host) (cause : Value.ShapeMismatch) : FieldError :=
  if cause.message.length ≤ host.textRoom then .shape cause
  else .stopped (.tooLong cause.message.length)

/-- Fills a buffer from the front until a position fails. There is a zero where a value is no
distance. -/
def fill (d : DistanceField) (host : Host) (m : Module) :
    List (Float32 × Float32) → List Float32 → List Float32 × Option FieldError
  | (x, y) :: rest, old :: buffer =>
    match d.valueAt host m x y with
    | .error stop => (old :: buffer, some (.stopped stop))
    | .ok v =>
      match v.asFloat with
      | .error cause => (0 :: buffer, some (refuse host cause))
      | .ok r =>
        let (rs, e) := d.fill host m rest buffer
        (r :: rs, e)
  | _, buffer => (buffer, none)

/-- The buffer with the values at the positions, and why it is not complete. -/
def evaluate (d : DistanceField) (host : Host) (m : Module) (positions : List (Float32 × Float32))
    (buffer : List Float32) : List Float32 × Option FieldError :=
  if positions.length ≠ buffer.length then (buffer, some .bufferMismatch)
  else if positions.isEmpty then (buffer, some .emptyBuffers)
  else d.fill host m positions buffer

end DistanceField

end ShaderGraft
