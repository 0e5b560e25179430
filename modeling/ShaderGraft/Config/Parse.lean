import ShaderGraft.Config.Basic
import ShaderGraft.Yaml.Scan
import ShaderGraft.Yaml.Value

/-!
Reading a configuration from text. Only the known keys may occur, each at most once, and a key
without a value changes nothing.
-/

namespace ShaderGraft

/-- Why a text is no configuration. -/
inductive ConfigParseError where
  /-- The text is no mapping of the known keys to values of their kinds. -/
  | refused
  | invalid (cause : ConfigError)
deriving DecidableEq, Repr

namespace Config

open Yaml

/-- The smallest integer of 64 bits, which stands for every number that is out of range below. -/
def least64 : Int := -int64Limit

/-- A number cut off at the point. It may be at most `int64Limit`, which itself is out of range. -/
def truncate? (x : Float) : Option Int :=
  if x < 0.0 then
    let n : Int := (-x).toUInt64.toNat
    some (if fits64 (-n) then -n else least64)
  else if x ≤ Float.ofNat int64Limit then
    let n : Int := x.toUInt64.toNat
    some (if fits64 n then n else least64)
  else none

/-- The capacity that a value stands for. -/
def capacity? : Yaml.Value → Option Int
  | .integer n => if fits64 n then some n else none
  | .float x => truncate? x
  | _ => none

/-- The names of the settings. -/
def names : List String := ["module", "function", "ext_inst_set", "capacity", "log_level"]

/-- The configuration with a setting. -/
def set? (c : Config) (name : String) (n : Node) : Option Config := do
  if name == "capacity" then
    match ← n.value? with
    | .null => return c
    | value => return { c with capacity := ← capacity? value }
  else
    match ← n.text? with
    | none => return c
    | some text =>
      match name with
      | "module" => return { c with modulePath := text }
      | "function" => return { c with function := text }
      | "ext_inst_set" => return { c with instructionSet := text }
      | "log_level" => return { c with logLevel := text }
      | _ => none

/-- The name of the setting that a key stands for, or `none` inside if the key is a null. -/
def name? (key : Node) : Option (Option String) := do
  match ← key.text? with
  | none => return none
  | some text => return some (← names.find? (utf8 · == text))

/-- Whether no two keys are spelled the same. -/
def distinct : List (Node × Node) → Bool
  | [] => true
  | (key, _) :: rest => ! rest.any (·.1.sameKey key) && distinct rest

/-- A configuration together with the settings that were made so far. -/
structure Draft where
  config : Config := {}
  made : List String := []

namespace Draft

/-- Adds an entry of a mapping. In a mapping that is merged in, settings made already are passed
over; otherwise they must not come again. An entry whose key is a null is no setting. -/
def add? (merging : Bool) (d : Draft) (entry : Node × Node) : Option Draft := do
  if entry.1.isMerge then return d
  match ← name? entry.1 with
  | none => return d
  | some name =>
    if d.made.contains name then
      if merging then return d else none
    return { config := ← d.config.set? name entry.2, made := name :: d.made }

mutual

/-- Adds a mapping: its own entries first, then the mappings merged into it. -/
def addMapping? (merging : Bool) (d : Draft) : Node → Option Draft
  | .mapping entries => do
    let d ← entries.foldlM (add? merging) d
    if distinct entries then mergeEntries? d entries else none
  | .reference _ target => addMapping? merging d target
  | _ => none

/-- Merges what the merge keys among some entries ask for. -/
def mergeEntries? (d : Draft) : List (Node × Node) → Option Draft
  | [] => some d
  | (key, value) :: rest =>
    if key.isMerge then (merge? d value).bind (mergeEntries? · rest) else mergeEntries? d rest

/-- Merges a mapping or a sequence of mappings. -/
def merge? (d : Draft) : Node → Option Draft
  | .sequence items => mergeAll? d items
  | .mapping entries => addMapping? true d (.mapping entries)
  | .reference _ target => addMapping? true d target
  | _ => none

/-- Merges several mappings. -/
def mergeAll? (d : Draft) : List Node → Option Draft
  | [] => some d
  | n :: rest => (addMapping? true d n).bind (mergeAll? · rest)

end

end Draft

/-- The configuration of a document. -/
def ofNode? (root : Node) : Option Config :=
  match root.value? with
  | some .null => some {}
  | _ => (({} : Draft).addMapping? false root).map (·.config)

/-- Reads a configuration and checks it. A text without a document is the configuration that changes
nothing. -/
def parse (bs : Bytes) : Except ConfigParseError Config :=
  match Node.ofTokens? (tokens (Source.ofBytes bs)) with
  | none => .error .refused
  | some root =>
    match (root.map ofNode?).getD (some {}) with
    | none => .error .refused
    | some c => (c.validate.map fun _ => c).mapError .invalid

end Config

end ShaderGraft
