import ShaderGraft.Interface
import ShaderGraft.Module.Listing
import ShaderGraft.Tree.Context

/-!
What happens along the way and is worth telling. Records are part of the results of the operations
that make them, in the order they were made.
-/

namespace ShaderGraft

/-- How much a record matters. -/
inductive RecordLevel where
  | debug
  | info
  | warn
  /-- Asked for by an inspecting tree node. -/
  | probe
deriving DecidableEq, Repr

def RecordLevel.text : RecordLevel → String
  | .debug => "DEBUG"
  | .info => "INFO"
  | .warn => "WARN"
  | .probe => "PROBE"

/-- What an inspecting node finds for one name: the result, and its id if it has the type of the
node. -/
structure Finding where
  binding : Option Binding
  typed : Option ResultId

/-- Something that happened. -/
inductive Record where
  | parameterDropped (function : Bytes) (dropped : Dropped)
  | interfaceReflected (function : Bytes) (parameters : Nat)
  | variableDefaulted (name : Bytes) (type : ValueType) (host : HostType) (value : host.Value)
  | resultOverwritten (name : Bytes)
  | moduleLoaded (path : Bytes) (version : Version) (functions : Nat) (bound : ResultId)
  | injectionCommitted (function : Bytes) (generation : UInt64)
  | injectedModule (result : Module)
  | contextInspected (size : Nat) (found : List Finding)

/-- The value of an attribute of a record. -/
inductive Attribute where
  | number (n : Nat)
  | text (s : Bytes)
  | value (host : HostType) (v : host.Value)
  | findings (found : List Finding)

namespace Record

def level : Record → RecordLevel
  | .parameterDropped .. | .variableDefaulted .. | .resultOverwritten _ => .warn
  | .interfaceReflected .. | .moduleLoaded .. | .injectionCommitted .. => .info
  | .injectedModule _ => .debug
  | .contextInspected .. => .probe

def message : Record → String
  | .parameterDropped .. => "dropping parameter"
  | .interfaceReflected .. => "function interface reflected"
  | .variableDefaulted .. => "variable not in function interface, using default"
  | .resultOverwritten _ => "result overwritten in context"
  | .moduleLoaded .. => "module loaded"
  | .injectionCommitted .. => "injection committed"
  | .injectedModule _ => "injected module"
  | .contextInspected .. => "context"

/-- The named details of a record. -/
def attributes : Record → List (String × Attribute)
  | .parameterDropped function dropped => [
      ("function", .text function), ("index", .number dropped.index),
      ("err", .text (utf8 dropped.cause.message))]
  | .interfaceReflected function parameters =>
    [("function", .text function), ("parameters", .number parameters)]
  | .variableDefaulted name type host value =>
    [("name", .text name), ("type", .text (utf8 type.text)), ("default", .value host value)]
  | .resultOverwritten name => [("name", .text name)]
  | .moduleLoaded path version functions bound => [
      ("path", .text path), ("version", .text (utf8 version.text)),
      ("functions", .number functions), ("bound", .number bound.toNat)]
  | .injectionCommitted function generation =>
    [("function", .text function), ("generation", .number generation.toNat)]
  | .injectedModule result => [("disassembly", .text (utf8 result.listing))]
  | .contextInspected size found => [("len", .number size), ("found", .findings found)]

end Record

end ShaderGraft
