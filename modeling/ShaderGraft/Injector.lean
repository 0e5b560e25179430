import ShaderGraft.Tree.Serialize

/-!
Replacing the body of a function by a compiled tree. The function is found by its debug name once,
when the injector is made. An injection works on a copy: it either commits a whole new module or
changes nothing.
-/

namespace ShaderGraft

/-- The debug name of the function that is injected into when none is given. -/
def defaultFunction : Bytes := utf8 "test_shader::injector"

/-- How an injector is set up. -/
structure Options where
  function : Bytes := defaultFunction
  /-- The instruction set for mathematical functions, the standard one if empty. -/
  instructionSet : Bytes := []
  /-- The number of words that a buffer for the binary form is made for. -/
  capacity : Int := 0
  /-- Whether records are not kept. -/
  quiet : Bool := false

/-- A module and the function in it that trees are injected into. -/
structure Injector where
  target : Module
  interface : Interface
  functionId : ResultId
  name : Bytes
  instructionSet : Bytes
  /-- The number of committed injections, as far as 64 bits go. -/
  generation : UInt64 := 0
  quiet : Bool := false

/-- Why the result of a tree does not fit the function. -/
inductive ReturnTypeError where
  | notDeclared
  | unreadable (cause : TypeError)
  | differs (function tree : ValueType)

/-- Why an injection is not committed. -/
inductive InjectError where
  | functionNotFound (name : Bytes)
  | returnType (cause : ReturnTypeError)
  | emit (cause : EmitError)

def ReturnTypeError.message (e : ReturnTypeError) : String :=
  "tree result type does not match function return type: " ++
    match e with
    | .notDeclared => "return type declaration not found"
    | .unreadable cause => cause.message
    | .differs function tree =>
      "function returns " ++ function.text ++ ", tree results in " ++ tree.text

namespace Injector

/-- The records that are kept. -/
def keep (quiet : Bool) (log : List Record) : List Record :=
  if quiet then [] else log

/-- Makes an injector for the function with the given debug name. -/
def create (m : Module) (name : Bytes) (options : Options := {}) :
    List Record × Except (Halt ReflectError) Injector :=
  let (dropped, reflected) := m.reflect name
  let warnings := dropped.map (Record.parameterDropped name)
  match reflected with
  | .error e => (keep options.quiet warnings, .error e)
  | .ok interface =>
    (keep options.quiet (warnings ++ [.interfaceReflected name interface.parameters.length]), .ok {
      target := m
      interface
      functionId := ((m.functions[interface.function]?).map Function.id).getD 0
      name
      instructionSet := options.instructionSet
      quiet := options.quiet })

end Injector

namespace Module

/-- Checks that a tree of type `t` can be the body of `f`. -/
def checkReturnType (m : Module) (f : Function) (t : HostType) :
    Except (Halt InjectError) Unit := do
  match t.valueType with
  | .error unsupported => throw (.error (.emit (.unsupportedType unsupported)))
  | .ok want =>
    match m.global? f.definition.resultType with
    | none => throw (.error (.returnType .notDeclared))
    | some decl =>
      match m.typeOf decl with
      | .error halt => throw (halt.map fun cause => .returnType (.unreadable cause))
      | .ok got =>
        if want.same got then return else throw (.error (.returnType (.differs got want)))

/-- The ids that blocks define: their labels and the results in them. -/
def definedIn (blocks : List Block) : List ResultId :=
  blocks.flatMap fun b => b.label.resultId :: (b.body.map (·.resultId)).filter (· != 0)

/-- Whether an instruction is about one of the given ids, which is its first operand. -/
def isAbout (ids : List ResultId) (inst : Instruction) : Bool :=
  match inst.operands with
  | [] => false
  | target :: _ => ids.contains target

/-- The module with only the last block of a function left, and without the names and annotations of
what the others defined. -/
def keepLastBlock (m : Module) (index : Nat) (f : Function) : Module :=
  let ids := definedIn f.blocks.dropLast
  { m with
    names := m.names.filter (! isAbout ids ·)
    annotations := m.annotations.filter (! isAbout ids ·)
    functions := m.functions.set index { f with blocks := f.blocks.getLast?.toList } }

end Module

namespace Injector

/-- The serializer that a tree is compiled with: a copy of the module with a new block at the end of
the function. -/
def start (inj : Injector) (index : Nat) : Emit Unit := do
  Emit.build (Build.selectFunction index)
  let _ ← Emit.build Build.beginBlock
  modify fun s => { s with
    interface := some inj.interface
    setName := if inj.instructionSet.isEmpty then standardSet else inj.instructionSet }

/-- Compiles a tree into a new block that returns its result. -/
def compile {i : Input} {t : HostType} (inj : Injector) (index : Nat) (tree : Tree i t)
    (input : i.Value) : Emit Unit := do
  inj.start index
  let result ← tree.serialize input
  Emit.build (Build.returnValue result)

/-- The injector after a committed injection. -/
def commit (inj : Injector) (m : Module) : Injector :=
  { inj with target := m, generation := inj.generation + 1 }

/-- The records of a committed injection. -/
def commitRecords (inj : Injector) : List Record :=
  [.injectionCommitted inj.name inj.generation, .injectedModule inj.target]

/-- Injects a tree. The result is the injector with the new module, or the reason why there is none;
the records that were made before a failure are kept. -/
def inject {i : Input} {t : HostType} (inj : Injector) (tree : Tree i t) (input : i.Value) :
    List Record × Except (Halt InjectError) Injector :=
  match inj.target.functionWithId? inj.functionId with
  | none => ([], .error (.error (.functionNotFound inj.name)))
  | some index =>
    match inj.target.functions[index]? with
    | none => ([], .error (.error (.functionNotFound inj.name)))
    | some f =>
      match inj.target.checkReturnType f t with
      | .error e => ([], .error e)
      | .ok _ =>
        match (inj.compile index tree input).run { builder := { target := inj.target } } with
        | .error e s => (keep inj.quiet s.log, .error (.error (.emit e)))
        | .ok _ s =>
          match s.builder.target.functions[index]? with
          | none => (keep inj.quiet s.log, .error (.error (.functionNotFound inj.name)))
          | some g =>
            let next := inj.commit (s.builder.target.keepLastBlock index g)
            (keep inj.quiet (s.log ++ next.commitRecords), .ok next)

end Injector

end ShaderGraft
