import ShaderGraft.Injector

/-!
Serving the binary form of a module that is injected into. The words are computed when they are
first asked for and again only after an injection was committed.
-/

namespace ShaderGraft

/-- The words of a module at a generation of its injector. -/
structure WordCache where
  words : List Word
  generation : UInt64

/-- An injector with the words it last served. -/
structure Jit where
  injector : Injector
  cache : Option WordCache := none
  capacity : Int := 0

namespace Jit

/-- Makes a server for the module and function that the options name. -/
def create (m : Module) (options : Options := {}) : List Record × Except (Halt ReflectError) Jit :=
  let (log, made) := Injector.create m options.function options
  (log, made.map fun injector => { injector, capacity := options.capacity })

/-- The words that are still valid. -/
def cached? (j : Jit) : Option (List Word) :=
  match j.cache with
  | some c => if c.generation = j.injector.generation then some c.words else none
  | none => none

/-- The largest number of words that a buffer can be made for. -/
def maxCapacity : Int := 0x400000000000

/-- The words of the current module, and the server that remembers them. There are none if a buffer
of the wanted capacity cannot be made. -/
def words? (j : Jit) : Option (List Word × Jit) :=
  match j.cached? with
  | some ws => some (ws, j)
  | none =>
    if j.capacity < 0 || maxCapacity < j.capacity then none
    else
      let ws := j.injector.target.assemble
      some (ws, { j with cache := some { words := ws, generation := j.injector.generation } })

/-- The bytes of the current module, least significant byte of each word first. -/
def bytes? (j : Jit) : Option (Bytes × Jit) :=
  j.words?.map fun (ws, j) => (Word.toLittleEndian ws, j)

/-- The server after an injection into its module. -/
def inject {i : Input} {t : HostType} (j : Jit) (tree : Tree i t) (input : i.Value) :
    List Record × Except (Halt InjectError) Jit :=
  let (log, result) := j.injector.inject tree input
  (log, result.map fun injector => { j with injector })

/-! ### Calls -/

/-- A call of a server. -/
inductive Call where
  | inject {i : Input} {t : HostType} (tree : Tree i t) (input : i.Value)
  | words
  | bytes

/-- What a call gives back; of words and bytes also whether they were computed for it. -/
inductive Answer where
  | committed
  | failed
  /-- The injection does not end. -/
  | endless
  | words (ws : List Word) (computed : Bool)
  | bytes (bs : Bytes) (computed : Bool)
  /-- No buffer could be made. -/
  | fault
deriving DecidableEq, Repr

namespace Answer

/-- Whether words were computed for the answer. -/
def computed : Answer → Bool
  | .words _ computed | .bytes _ computed => computed
  | .committed | .failed | .endless | .fault => false

/-- The answer where no buffer can be made. -/
def faulted : Answer → Answer
  | .words _ _ | .bytes _ _ => .fault
  | answer => answer

end Answer

/-- The answer of a server to a call, and the server after it. -/
def perform (j : Jit) : Call → Answer × Jit
  | .inject tree input =>
    match (j.inject tree input).2 with
    | .ok next => (.committed, next)
    | .error (.error _) => (.failed, j)
    | .error .endless => (.endless, j)
  | .words =>
    match j.words? with
    | some (ws, next) => (.words ws j.cached?.isNone, next)
    | none => (.fault, j)
  | .bytes =>
    match j.bytes? with
    | some (bs, next) => (.bytes bs j.cached?.isNone, next)
    | none => (.fault, j)

/-- The answers to calls one after the other, and the server after them. -/
def performAll (j : Jit) : List Call → List Answer × Jit
  | [] => ([], j)
  | call :: calls =>
    let rest := (j.perform call).2.performAll calls
    ((j.perform call).1 :: rest.1, rest.2)

end Jit

end ShaderGraft
