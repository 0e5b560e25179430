import ShaderGraft.Text.Quoted
import ShaderGraft.ValueType.Parse

/-!
The runtime parameters of a function. A function that can be injected into takes each of its runtime
parameters as a struct of a name hash and a value. The types come from the function's own
declaration; the hashes come from its first call site, where the structs are built one after the
other right before the call.
-/

namespace ShaderGraft

open Text

/-- A runtime parameter. -/
structure Parameter where
  /-- The formal parameter that holds the struct of hash and value. -/
  composite : ResultId
  /-- The type id of the value. -/
  typeId : ResultId
  /-- The hash of the variable's name. -/
  hash : Word
  /-- The type of the value. -/
  type : ValueType
deriving Repr

/-- The runtime parameters of the function at an index of its module. -/
structure Interface where
  function : Nat
  parameters : List Parameter
deriving Repr

/-- Why an argument at the call site does not name a runtime parameter. -/
inductive ArgumentError where
  | hashNotConstant (id : ResultId)
  | hashTypeNotDeclared (id : ResultId)
  | hashTypeUnreadable (cause : TypeError)
  | hashNotUnsigned (id : ResultId) (type : ValueType)
  | valueUntyped (id : ResultId)
deriving Repr

/-- Why a function has no interface. -/
inductive ReflectError where
  | functionNotFound (name : Bytes)
  | notWrapped (index : Nat) (name : Bytes) (type : ValueType)
  | noCallSite (name : Bytes) (arguments : Nat)
  | notConstructed (index : Nat) (name : Bytes) (op : Opcode)
  | argument (index : Nat) (name : Bytes) (cause : ArgumentError)
deriving Repr

/-- What callers tell the errors of reflection apart by. -/
inductive ReflectError.Kind where
  | functionNotFound
  | noVariableDescriptor
  | typeUnparsable
  | noTypeInstruction
deriving DecidableEq

def TypeError.kind : TypeError → ReflectError.Kind
  | .notAType _ => .noTypeInstruction
  | .shape .. | .operandNotDeclared _ | .parameterNotDeclared _ => .typeUnparsable

def ArgumentError.kind : ArgumentError → ReflectError.Kind
  | .hashTypeUnreadable cause => cause.kind
  | .hashNotConstant _ | .hashTypeNotDeclared _ | .hashNotUnsigned .. | .valueUntyped _ =>
    .noVariableDescriptor

def ReflectError.kind : ReflectError → ReflectError.Kind
  | .functionNotFound _ => .functionNotFound
  | .notWrapped .. | .noCallSite .. | .notConstructed .. => .noVariableDescriptor
  | .argument _ _ cause => cause.kind

/-- How messages about parameters without a descriptor start. -/
def notWrappedText : String := "parameter not wrapped in variable descriptor: "

def ArgumentError.message : ArgumentError → String
  | .hashNotConstant id => notWrappedText ++ "hash " ++ idText id ++ " is not a 32 bit constant"
  | .hashTypeNotDeclared id => notWrappedText ++ "hash " ++ idText id ++ " has undeclared type"
  | .hashTypeUnreadable cause => cause.message
  | .hashNotUnsigned id type =>
    notWrappedText ++ "hash " ++ idText id ++ " is " ++ type.text ++ ", want u32"
  | .valueUntyped id => notWrappedText ++ "value " ++ idText id ++ " has no result type"

/-- The message for a function that is not in the module. -/
def functionNotFoundText (name : Bytes) : String :=
  "function not found: " ++ quote name

def ReflectError.message : ReflectError → String
  | .functionNotFound name => functionNotFoundText name
  | .notWrapped index name type =>
    "parameter " ++ toString index ++ " of " ++ quote name ++ ": " ++ notWrappedText ++ "got " ++
      type.text
  | .noCallSite name arguments =>
    quote name ++ ": " ++ notWrappedText ++ "no call site with " ++ toString arguments ++
      " preceding argument constructions"
  | .notConstructed index name op =>
    notWrappedText ++ "argument " ++ toString index ++ " of " ++ quote name ++ " built by " ++
      op.mnemonic
  | .argument index name cause =>
    "argument " ++ toString index ++ " of " ++ quote name ++ ": " ++ cause.message

/-- A formal parameter that is left out of the interface because its type cannot be read. -/
structure Dropped where
  index : Nat
  cause : TypeError
deriving Repr

/-- A formal parameter with the type of its value. -/
structure Formal where
  index : Nat
  composite : ResultId
  type : ValueType
deriving Repr

/-- What reading a formal parameter gives: the type of its value, or a type that is no struct of
hash and value, or an unreadable type, or nothing. -/
inductive FormalType where
  | wrapped (value : ValueType)
  | plain (type : ValueType)
  | unreadable (cause : TypeError)
  | endless

namespace Module

/-- The type of a formal parameter. -/
def formalType (m : Module) (parameter : Instruction) : FormalType :=
  match m.global? parameter.resultType with
  | none => .unreadable (.parameterNotDeclared parameter.resultType)
  | some decl =>
    match m.typeOf decl with
    | .error (.error cause) => .unreadable cause
    | .error .endless => .endless
    | .ok (.struct [.int false 32, value]) => .wrapped value
    | .ok type => .plain type

/-- The formal parameters from `index` on that make up the interface, and those that are dropped on
the way. Reading stops at the first that is no struct of hash and value. -/
def formals (m : Module) (name : Bytes) :
    (index : Nat) → List Instruction → List Dropped × Except (Halt ReflectError) (List Formal)
  | _, [] => ([], .ok [])
  | index, p :: ps =>
    match m.formalType p with
    | .plain type => ([], .error (.error (.notWrapped index name type)))
    | .endless => ([], .error .endless)
    | .unreadable cause =>
      let (dropped, rest) := formals m name (index + 1) ps
      ({ index, cause } :: dropped, rest)
    | .wrapped type =>
      let (dropped, rest) := formals m name (index + 1) ps
      (dropped, rest.map ({ index, composite := p.resultId, type } :: ·))

/-- Whether an instruction calls the function with the given id. -/
def calls (id : ResultId) (inst : Instruction) : Bool :=
  inst.opcode == .functionCall && inst.operands.head? == some id

/-- The `n` instructions before the first call of a function, in module order. -/
def callArguments? (m : Module) (id : ResultId) (n : Nat) : Option (List Instruction) :=
  match m.instructions.span (! calls id ·) with
  | (_, []) => none
  | (before, _ :: _) => if before.length < n then none else some (before.drop (before.length - n))

/-- The hash that a constant holds. -/
def hashConstant (m : Module) (id : ResultId) : Except (Halt ArgumentError) Word :=
  match m.global? id with
  | none => .error (.error (.hashNotConstant id))
  | some inst =>
    match inst.opcode, inst.operands with
    | .constant, [value] =>
      match m.global? inst.resultType with
      | none => .error (.error (.hashTypeNotDeclared id))
      | some decl =>
        match m.typeOf decl with
        | .error halt => .error (halt.map .hashTypeUnreadable)
        | .ok type =>
          if type.same .u32 then .ok value else .error (.error (.hashNotUnsigned id type))
    | _, _ => .error (.error (.hashNotConstant id))

/-- The result type of the instruction that defines `id`. -/
def valueTypeId (m : Module) (id : ResultId) : Except ArgumentError ResultId :=
  match m.definition? id with
  | none => .error (.valueUntyped id)
  | some inst => if inst.resultType = 0 then .error (.valueUntyped id) else .ok inst.resultType

/-- The runtime parameter of a formal whose argument is built by `construct`. -/
def parameterOf (m : Module) (name : Bytes) (formal : Formal) (construct : Instruction) :
    Except (Halt ReflectError) Parameter :=
  match construct.opcode, construct.operands with
  | .compositeConstruct, [hashId, valueId] => do
    let hash ← (m.hashConstant hashId).mapError (.map (.argument formal.index name))
    let typeId ← (m.valueTypeId valueId).mapError fun e => .error (.argument formal.index name e)
    return { composite := formal.composite, typeId, hash, type := formal.type }
  | op, _ => .error (.error (.notConstructed formal.index name op))

/-- The runtime parameters of a list of formals, by the arguments of a call. -/
def parametersOf (m : Module) (name : Bytes) (arguments : List Instruction) :
    List Formal → Except (Halt ReflectError) (List Parameter)
  | [] => .ok []
  | formal :: rest =>
    match arguments[formal.index]? with
    | none => .error (.error (.noCallSite name arguments.length))
    | some construct => do
      let parameter ← m.parameterOf name formal construct
      return parameter :: (← m.parametersOf name arguments rest)

/-- Reflects the interface of the function with the given debug name, with the formal parameters
that were dropped. A function without runtime parameters needs no call site. -/
def reflect (m : Module) (name : Bytes) : List Dropped × Except (Halt ReflectError) Interface :=
  match m.functionNamed? name with
  | none => ([], .error (.error (.functionNotFound name)))
  | some index =>
    match m.functions[index]? with
    | none => ([], .error (.error (.functionNotFound name)))
    | some f =>
      let (dropped, read) := m.formals name 0 f.parameters
      (dropped, do
        let formals ← read
        if formals.isEmpty then return { function := index, parameters := [] }
        match m.callArguments? f.id f.parameters.length with
        | none => throw (.error (.noCallSite name f.parameters.length))
        | some arguments =>
          return { function := index, parameters := ← m.parametersOf name arguments formals })

end Module

namespace Interface

/-- The first parameter with the given name hash and type. -/
def parameter? (i : Interface) (hash : Word) (type : ValueType) : Option Parameter :=
  i.parameters.find? fun p => p.hash == hash && p.type.same type

end Interface

end ShaderGraft
