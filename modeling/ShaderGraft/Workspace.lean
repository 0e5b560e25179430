import ShaderGraft.DistanceField
import ShaderGraft.Loading
import ShaderGraft.Module.Edit

/-!
Working on several modules at once. A builder, a serializer, an injector and a function of positions
can work on the same module, and each sees what the others do to it. So a workspace numbers its
modules, and everything that works on one knows its number.

One module is the current one, with a builder that new steps go to. Making a module current gives it
a new builder with nothing selected; older builders stay with the serializers that use them.
-/

namespace ShaderGraft

/-- Where a builder is: the number of its module, and what it has selected there. -/
structure Cursor where
  place : Nat
  selection : Selection := {}

/-- A serializer and the number of its cursor. -/
structure OpenSerializer where
  cursor : Nat
  interface : Option Interface
  setName : Bytes
  setId : ResultId := 0

/-- An injector and the number of its module. -/
structure PlacedInjector where
  place : Nat
  injector : Injector

/-- A server of binary forms and the number of its injector. -/
structure OpenJit where
  injector : Nat
  jit : Jit

/-- A function of positions and the number of its module. -/
structure PlacedField where
  place : Nat
  field : DistanceField

/-- Words that were served: the number of the injector they are from, and its generation. -/
structure Served where
  injector : Nat
  generation : UInt64
deriving DecidableEq

/-- Modules and what works on them. -/
structure Workspace where
  modules : List Module
  cursors : List Cursor
  injectors : List PlacedInjector := []
  /-- The number of the current builder's cursor. -/
  cursor : Nat
  /-- The number of the module that was set aside. -/
  saved : Option Nat := none
  interface : Option Interface := none
  serializer : Option OpenSerializer := none
  /-- The number of the injector that trees go to. -/
  injector : Option Nat := none
  jit : Option OpenJit := none
  served : Option Served := none
  field : Option PlacedField := none
  directory : Directory := {}

namespace Workspace

def ofModule (m : Module) (directory : Directory := {}) : Workspace :=
  { modules := [m], cursors := [{ place := 0 }], cursor := 0, directory }

def moduleAt (w : Workspace) (place : Nat) : Module :=
  (w.modules[place]?).getD (.empty ⟨1, 3⟩)

def cursorAt (w : Workspace) (n : Nat) : Cursor :=
  (w.cursors[n]?).getD { place := 0 }

def place (w : Workspace) : Nat :=
  (w.cursorAt w.cursor).place

def current (w : Workspace) : Module :=
  w.moduleAt w.place

def selection (w : Workspace) : Selection :=
  (w.cursorAt w.cursor).selection

def builderAt (w : Workspace) (n : Nat) : Builder :=
  let c := w.cursorAt n
  { target := w.moduleAt c.place, selection := c.selection }

/-- The workspace after a step of the builder at a cursor. -/
def putBuilder (w : Workspace) (n : Nat) (b : Builder) : Workspace :=
  let c := w.cursorAt n
  { w with
    modules := w.modules.set c.place b.target
    cursors := w.cursors.set n { c with selection := b.selection } }

/-- An injector with its module as it is now. -/
def injectorAt? (w : Workspace) (n : Nat) : Option Injector :=
  (w.injectors[n]?).map fun p => { p.injector with target := w.moduleAt p.place }

def use (w : Workspace) (place : Nat) : Workspace :=
  { w with cursors := w.cursors ++ [{ place }], cursor := w.cursors.length }

def add (w : Workspace) (m : Module) : Workspace :=
  { w with modules := w.modules ++ [m] }.use w.modules.length

end Workspace

abbrev Work (α : Type) := StateM Workspace α

namespace Work

def build {α : Type} (step : Build α) : Work (Except BuildError α) := fun w =>
  match step.run (w.builderAt w.cursor) with
  | .ok a b => (.ok a, w.putBuilder w.cursor b)
  | .error e b => (.error e, w.putBuilder w.cursor b)

/-- Changes the current module, if the change is possible. -/
def edit (change : Module → Option Module) : Work Bool := fun w =>
  match change w.current with
  | some m => (true, { w with modules := w.modules.set w.place m })
  | none => (false, w)

/-- Sets the current module aside and goes on with a copy. -/
def branchOff : Work Unit :=
  modify fun w => { w with saved := some w.place }.add w.current

/-- Goes back to the module that was set aside, if there is one. -/
def restore : Work Bool := fun w =>
  match w.saved with
  | some place => (true, w.use place)
  | none => (false, w)

/-- Goes on with what reading the binary form of the current module gives, and tells whether its
binary form is the same. -/
def reparse : Work (Except ParseError Bool) := fun w =>
  let ws := w.current.assemble
  match Module.parse ws with
  | .ok m => (.ok (m.assemble == ws), w.add m)
  | .error e => (.error e, w)

/-- Reflects a function of the current module and remembers its interface. -/
def reflect (name : Bytes) : Work (List Record × Except (Halt ReflectError) Interface) := fun w =>
  let (dropped, result) := w.current.reflect name
  let log := dropped.map (Record.parameterDropped name)
  match result with
  | .ok interface => ((log, .ok interface), { w with interface := some interface })
  | .error e => ((log, .error e), w)

/-- Opens a serializer over the current builder, with the remembered interface if `bound` is set. -/
def openSerializer (setName : Bytes) (bound : Bool) : Work OpenSerializer := fun w =>
  let s : OpenSerializer := {
    cursor := w.cursor
    interface := if bound then w.interface else none
    setName := if setName.isEmpty then standardSet else setName }
  (s, { w with serializer := some s })

/-- Runs a step of the serializer, if there is one. -/
def emit {α : Type} (step : Emit α) : Work (Option (List Record × Except EmitError α)) := fun w =>
  match w.serializer with
  | none => (none, w)
  | some s =>
    let after (t : Serializer) : Workspace :=
      { w.putBuilder s.cursor t.builder with serializer := some { s with setId := t.setId } }
    match step.run {
        builder := w.builderAt s.cursor, interface := s.interface
        setName := s.setName, setId := s.setId } with
    | .ok a t => (some (t.log, .ok a), after t)
    | .error e t => (some (t.log, .error e), after t)

/-- Remembers an injector for the module with a number, and makes that module current. -/
def keepInjector (injector : Injector) (place : Nat) : Work Nat := fun w =>
  let n := w.injectors.length
  let next : Workspace := { w with
    injectors := w.injectors ++ [⟨place, injector⟩]
    injector := some n
    interface := some injector.interface }
  (n, next.use place)

def openInjector (name : Bytes) (options : Options) :
    Work (List Record × Except (Halt ReflectError) Interface) := do
  let w ← get
  let (log, made) := Injector.create w.current name options
  match made with
  | .error e => return (log, .error e)
  | .ok injector =>
    let _ ← keepInjector injector w.place
    return (log, .ok injector.interface)

/-- Injects a tree with the injector, if there is one. The new module becomes the current one; the
result is the number of injections so far. -/
def inject {i : Input} {t : HostType} (tree : Tree i t) (input : i.Value) :
    Work (Option (List Record × Except (Halt InjectError) UInt64)) := fun w =>
  match w.injector.bind fun n => (w.injectorAt? n).map (n, ·) with
  | none => (none, w)
  | some (n, injector) =>
    let (log, result) := injector.inject tree input
    match result with
    | .error e => (some (log, .error e), w)
    | .ok next =>
      let injectors := w.injectors.set n { place := w.modules.length, injector := next }
      (some (log, .ok next.generation), { w with injectors }.add next.target)

/-- The number of injections so far. -/
def generation : Work (Option UInt64) := fun w =>
  ((w.injector.bind w.injectorAt?).map (·.generation), w)

/-- Remembers a server for the module with a number. -/
def serve (jit : Jit) (place : Nat) : Work Unit := do
  let injector ← keepInjector jit.injector place
  modify fun w => { w with jit := some ⟨injector, jit⟩ }

def openJit (options : Options) : Work (List Record × Except (Halt ReflectError) Jit) := do
  let w ← get
  let (log, made) := Jit.create w.current options
  if let .ok jit := made then serve jit w.place
  return (log, made)

/-- Goes on with a server that was made for a module of its own. -/
def adopt (made : List Record × Except (Halt OpenError) Jit) :
    Work (List Record × Except (Halt OpenError) Jit) := do
  if let .ok jit := made.2 then
    let w ← get
    set { w with modules := w.modules ++ [jit.injector.target] }
    serve jit w.modules.length
  return made

def loadJit (path : Bytes) (options : Options) :
    Work (List Record × Except (Halt OpenError) Jit) := do
  adopt (Jit.load path ((← get).directory.read path) options)

def configureJit (c : Config) : Work (List Record × Except (Halt OpenError) Jit) := do
  adopt (Jit.ofConfig c (← get).directory.read)

/-- Runs a query of the server, if there is one that can answer. -/
def ask {α : Type} (query : Jit → Option (α × Jit)) : Work (Option (α × Served)) := fun w =>
  let answer : Option ((α × Served) × Workspace) := do
    let s ← w.jit
    let injector ← w.injectorAt? s.injector
    let (a, jit) ← query { s.jit with injector }
    return ((a, ⟨s.injector, injector.generation⟩), { w with jit := some { s with jit } })
  match answer with
  | some (a, w) => (some a, w)
  | none => (none, w)

/-- The words of the served module, and whether they are those that were given the last time. -/
def words : Work (Option (List Word × Bool)) := do
  match ← ask Jit.words? with
  | none => return none
  | some (ws, served) =>
    let before := (← get).served
    modify fun w => { w with served := some served }
    return some (ws, before == some served)

def bytes : Work (Option Bytes) := do
  return (← ask Jit.bytes?).map (·.1)

inductive WriteError where
  | notServed
  | file (cause : FileError)

def writeFile (path : Bytes) : Work (Except WriteError Unit) := do
  match ← bytes with
  | none => return .error .notServed
  | some bs =>
    match (← get).directory.write path bs with
    | .error e => return .error (.file e)
    | .ok directory =>
      modify fun w => { w with directory }
      return .ok ()

/-- Makes a function of positions from the current module and the remembered interface. -/
def openField (name : Bytes) (values : List (Bytes × Value)) : Work (Except FieldError Unit) :=
  fun w =>
    match w.interface with
    | none => (.error .broken, w)
    | some interface =>
      match DistanceField.create w.current interface name values with
      | .error e => (.error e, w)
      | .ok field => (.ok (), { w with field := some { place := w.place, field } })

/-- Evaluates the function of positions into `room` results, if there is such a function and so much
room. -/
def evaluateField (host : Host) (positions : List (Float32 × Float32)) (room : Int) :
    Work (Option (List Float32 × Option FieldError)) := fun w =>
  if room < 0 || Jit.maxCapacity < room then (none, w)
  else
    let buffer := List.replicate room.toNat (Float32.ofBits 0)
    (w.field.map fun p => p.field.evaluate host (w.moduleAt p.place) positions buffer, w)

end Work

end ShaderGraft
