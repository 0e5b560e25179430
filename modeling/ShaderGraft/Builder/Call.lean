import ShaderGraft.Builder
import ShaderGraft.Tree.Serialize

/-!
Calls of a builder as data, and what a sequence of them does to it.
-/

namespace ShaderGraft

namespace Builder

/-- What a builder can be asked for. -/
inductive Call where
  | fresh
  | selectFunction (index : Int)
  | selectBlock (index : Int)
  | beginBlock
  | beginBlockWithLabel (label : ResultId)
  | insert (inst : Instruction)
  | typeVoid
  | typeBool
  | typeInt (width : Word) (signed : Bool)
  | typeFloat (width : Word)
  | typeVector (component count : Word)
  | typeMatrix (column count : Word)
  | typeArray (element length : ResultId)
  | typeStruct (members : List ResultId)
  | typePointer (storageClass : Word) (pointee : ResultId)
  | typeFunction (result : ResultId) (parameters : List ResultId)
  | constant (type : ResultId) (literal : List Word)
  | constant64 (type : ResultId) (bits : UInt64)
  | constantBool (type : ResultId) (value : Bool)
  | constantComposite (type : ResultId) (constituents : List ResultId)
  | extInstImport (name : Bytes)
  | capability (c : Word)
  | memoryModel (addressing memory : Word)
  | entryPoint (model : Word) (function : ResultId) (name : Bytes) (interface : List ResultId)
  | executionMode (entry mode : Word) (parameters : List Word)
  | name (id : ResultId) (text : Bytes)
  | beginFunction (result : ResultId) (control : Word) (type : ResultId)
  | functionParameter (type : ResultId)
  | endFunction
  | arithmetic (op : Arithmetic) (type x y : ResultId)
  | extInst (type set n : Word) (operands : List ResultId)
  | compositeConstruct (type : ResultId) (constituents : List ResultId)
  | compositeExtract (type composite : ResultId) (indices : List Word)
  | functionCall (type function : ResultId) (arguments : List ResultId)
  | memoryVariable (pointerType storageClass : Word)
  | load (type pointer : ResultId)
  | store (pointer value : ResultId)
  | branch (target : ResultId)
  | returnValue (value : ResultId)
  | returnVoid

namespace Call

/-- The step that a call makes, with the id that it gives back. -/
def run : Call → Build (Option ResultId)
  | fresh => some <$> Build.fresh
  | selectFunction index => (fun _ => none) <$> Build.selectFunction index
  | selectBlock index => (fun _ => none) <$> Build.selectBlock index
  | beginBlock => (fun r => some r.1) <$> Build.beginBlock
  | beginBlockWithLabel label => (fun _ => none) <$> Build.beginBlockWithLabel label
  | insert inst => (fun _ => none) <$> Build.insert inst
  | typeVoid => some <$> Build.declare .typeVoid
  | typeBool => some <$> Build.declare .typeBool
  | typeInt width signed => some <$> Build.declare (.typeInt width signed)
  | typeFloat width => some <$> Build.declare (.typeFloat width)
  | typeVector component count => some <$> Build.declare (.typeVector component count)
  | typeMatrix column count => some <$> Build.declare (.typeMatrix column count)
  | typeArray element length => some <$> Build.declare (.typeArray element length)
  | typeStruct members => some <$> Build.declare (.typeStruct members)
  | typePointer storageClass pointee => some <$> Build.declare (.typePointer storageClass pointee)
  | typeFunction result parameters => some <$> Build.declare (.typeFunction result parameters)
  | constant type literal => some <$> Build.declare (.constant type literal)
  | constant64 type bits => some <$> Build.declare (.constant64 type bits)
  | constantBool type value => some <$> Build.declare (.constantBool type value)
  | constantComposite type constituents =>
    some <$> Build.declare (.constantComposite type constituents)
  | extInstImport set => some <$> Build.declare (.extInstImport set)
  | capability c => (fun _ => none) <$> Build.declare (.capability c)
  | memoryModel addressing memory =>
    (fun _ => none) <$> Build.declare (.memoryModel addressing memory)
  | entryPoint model function entry interface =>
    (fun _ => none) <$> Build.declare (.entryPoint model function entry interface)
  | executionMode entry mode parameters =>
    (fun _ => none) <$> Build.declare (.executionMode entry mode parameters)
  | name id text => (fun _ => none) <$> Build.declare (.name id text)
  | beginFunction result control type => some <$> Build.beginFunction result control type
  | functionParameter type => some <$> Build.functionParameter type
  | endFunction => (fun _ => none) <$> Build.endFunction
  | arithmetic op type x y => some <$> Build.binary op.opcode type x y
  | extInst type set n operands => some <$> Build.extInst type set n operands
  | compositeConstruct type constituents => some <$> Build.compositeConstruct type constituents
  | compositeExtract type composite indices =>
    some <$> Build.compositeExtract type composite indices
  | functionCall type function arguments => some <$> Build.functionCall type function arguments
  | memoryVariable pointerType storageClass =>
    some <$> Build.memoryVariable pointerType storageClass
  | load type pointer => some <$> Build.load type pointer
  | store pointer value => (fun _ => none) <$> Build.store pointer value
  | branch target => (fun _ => none) <$> Build.branch target
  | returnValue value => (fun _ => none) <$> Build.returnValue value
  | returnVoid => (fun _ => none) <$> Build.returnVoid

/-- The builder after a call, whether it failed or not. -/
def after (c : Call) (b : Builder) : Builder :=
  endState c.run b

/-- The number of ids that a call takes. -/
def idsTaken (c : Call) (b : Builder) : Nat :=
  if (c.after b).target.header.bound = b.target.header.bound then 0 else 1

/-- The result type that a call is given. -/
def resultType? : Call → Option ResultId
  | constant type _ | constant64 type _ | constantBool type _ | constantComposite type _
  | beginFunction type _ _ | functionParameter type | arithmetic _ type _ _ | extInst type _ _ _
  | compositeConstruct type _ | compositeExtract type _ _ | functionCall type _ _
  | memoryVariable type _ | load type _ => some type
  | _ => none

def label? : Call → Option ResultId
  | beginBlockWithLabel label => some label
  | _ => none

def inserted? : Call → Option Instruction
  | insert inst => some inst
  | _ => none

/-- The instruction that the caller makes. -/
def given? (c : Call) : Option Instruction :=
  c.inserted? <|> c.label?.map fun label => { opcode := .label, resultId := label }

end Call

/-- The builder after a sequence of calls. -/
def perform (b : Builder) (calls : List Call) : Builder :=
  calls.foldl (fun b c => c.after b) b

/-- The number of ids that a sequence of calls takes. -/
def idsTaken (b : Builder) : List Call → Nat
  | [] => 0
  | c :: calls => c.idsTaken b + (c.after b).idsTaken calls

end Builder

end ShaderGraft
