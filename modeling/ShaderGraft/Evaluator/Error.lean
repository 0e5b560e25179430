import ShaderGraft.Evaluator.Value
import ShaderGraft.Interface
import ShaderGraft.Serializer

/-!
Why an evaluation does not give a value.
-/

namespace ShaderGraft

open Text

/-- A reason that an evaluation ends with an error. -/
inductive EvalError where
  | functionNotFound (name : Bytes)
  | functionOutOfRange (index : Int)
  | callDepth
  | argumentCount (function : ResultId) (want got : Nat)
  | noBody (function : ResultId)
  /-- An error in a block of a function. -/
  | within (function block : ResultId) (cause : EvalError)
  | branchTarget (label : ResultId)
  | stepLimit
  | noTerminator
  | undefined (id : ResultId)
  | uninitialized (pointer : ResultId)
  | undefinedType (id : ResultId)
  | undefinedFunction (id : ResultId)
  | undefinedSet (id : ResultId)
  | unsupported (op : Opcode)
  | unsupportedGlobal (op : Opcode) (id : ResultId)
  | unsupportedConstant (type : ValueType)
  | unsupportedSet (name : Bytes)
  | unsupportedFunction (n : Word)
  | unreadableType (cause : TypeError)
  | notScalarOrVector (part : Value)
  | indexOutOfRange (index : Word) (v : Value)
  | extInstOperands
  | badOperands (n : Word)
  | floatMismatch (a b : Value)

namespace EvalError

def message : EvalError → String
  | .functionNotFound name => functionNotFoundText name
  | .functionOutOfRange index => "function index " ++ toString index ++ " out of range"
  | .callDepth => "maximum call depth exceeded"
  | .argumentCount function want got =>
    "function " ++ idText function ++ " takes " ++ toString want ++ " arguments, got " ++
      toString got
  | .noBody function => "function " ++ idText function ++ " has no body"
  | .within function block cause =>
    "function " ++ idText function ++ " block " ++ idText block ++ ": " ++ cause.message
  | .branchTarget label => "branch target " ++ idText label ++ " not found"
  | .stepLimit => "step limit exceeded"
  | .noTerminator => "block has no terminator"
  | .undefined id => "undefined id: " ++ idText id
  | .uninitialized pointer => "undefined id: load of uninitialized pointer " ++ idText pointer
  | .undefinedType id => "undefined id: type " ++ idText id
  | .undefinedFunction id => "undefined id: function " ++ idText id
  | .undefinedSet id => "undefined id: extended instruction set " ++ idText id
  | .unsupported op => "unsupported instruction: " ++ op.mnemonic
  | .unsupportedGlobal op id =>
    "unsupported instruction: global " ++ op.mnemonic ++ " " ++ idText id
  | .unsupportedConstant type => "unsupported instruction: " ++ type.text ++ " constant"
  | .unsupportedSet name => "unsupported instruction: extended instruction set " ++ quote name
  | .unsupportedFunction n =>
    "unsupported instruction: GLSL.std.450 instruction " ++ toString n
  | .unreadableType cause => cause.message
  | .notScalarOrVector part => "vector constituent " ++ part.text ++ " is not a scalar or vector"
  | .indexOutOfRange index v => "index " ++ toString index ++ " out of range for " ++ v.text
  | .extInstOperands => "OpExtInst missing operands"
  | .badOperands n => "bad operands for GLSL.std.450 instruction " ++ toString n
  | .floatMismatch a b => "float operand mismatch: " ++ a.text ++ " and " ++ b.text

/-- The error apart from the blocks it went through. -/
def root : EvalError → EvalError
  | .within _ _ cause => cause.root
  | e => e

end EvalError

/-- What an error is about. -/
inductive EvalErrorKind where
  | functionNotFound
  | unreadableType (cause : TypeError)
  | unsupported
  | undefined
  | other

/-- What an error is about, apart from the blocks it went through. -/
def EvalError.kind (e : EvalError) : EvalErrorKind :=
  match e.root with
  | .functionNotFound _ => .functionNotFound
  | .unreadableType cause => .unreadableType cause
  | .unsupported _ | .unsupportedGlobal .. | .unsupportedConstant _ | .unsupportedSet _
  | .unsupportedFunction _ => .unsupported
  | .undefined _ | .uninitialized _ | .undefinedType _ | .undefinedFunction _
  | .undefinedSet _ => .undefined
  | _ => .other

/-- How an evaluation stops before its end. Only an error is an answer. -/
inductive Stop where
  | error (cause : EvalError)
  /-- An instruction has too few operands to be looked at. -/
  | tooFewOperands
  /-- The parts of a constant lead back to it. -/
  | endless
  /-- There is no memory for a value of so many components. -/
  | tooLarge (components : Nat)
  /-- There is no memory for a message of so many characters. -/
  | tooLong (characters : Nat)

end ShaderGraft
