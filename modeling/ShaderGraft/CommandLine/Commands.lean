import ShaderGraft.CommandLine.Flags
import ShaderGraft.Loading
import ShaderGraft.Text.Json
import ShaderGraft.Text.LogLine
import ShaderGraft.Text.Lowercase
import ShaderGraft.Text.Table

/-!
The commands: listing a module, showing the runtime parameters of a function, and hashing names. A
command reads files only through a function it is given, so it can run anywhere.
-/

namespace ShaderGraft.CommandLine

open Text

/-- The commands. The root command only has others below it. -/
inductive Command where
  | root
  | dis
  | reflect
  | hash
deriving DecidableEq, Repr

def programName : Bytes := utf8 "algaejit"

/-- The commands below the root, by name. -/
def commandNames : List (String × Command) := [("dis", .dis), ("reflect", .reflect), ("hash", .hash)]

def commonFlags : List Flag := [
  { name := "verbose", shorthand := some 'v', isSwitch := true }, { name := "format" }]

/-- The flags that a command is found with. -/
def Command.flags : Command → List Flag
  | .reflect => commonFlags ++ [{ name := "function" }, { name := "config" }]
  | _ => commonFlags

def helpFlag : Flag := { name := "help", shorthand := some 'h', isSwitch := true }

/-- Why a command fails. -/
inductive Failure where
  | unknownCommand (name : Bytes)
  | flags (cause : FlagError)
  | exactArguments (want got : Nat)
  | tooManyArguments (most got : Nat)
  | tooFewArguments (least got : Nat)
  | format (name : Bytes)
  | noModule
  | load (cause : LoadError)
  | config (cause : ConfigLoadError)
  | reflect (cause : ReflectError)

/-- The next row of the table of edit distances: from the row before it, which starts with `corner`,
and the first number of the new row. -/
def nextRow (b : UInt8) (left corner : Nat) : Bytes → List Nat → List Nat
  | c :: cs, above :: row =>
    let cost := if b == c then corner else 1 + min corner (min above left)
    cost :: nextRow b cost above cs row
  | _, _ => []

/-- The number of bytes that must be inserted, deleted or replaced to make one text the other. -/
def editDistance (s t : Bytes) : Nat :=
  let start := (List.range (t.length + 1))
  let last := s.foldl (fun (row : List Nat) b =>
    match row with
    | [] => []
    | corner :: rest => (corner + 1) :: nextRow b (corner + 1) corner t rest) start
  last.getLastD 0

/-- The names of commands that can be suggested. -/
def suggestable : List String := ["dis", "reflect", "hash", "completion"]

/-- The suggestions for a name that is no command: those two edits away, and those it begins. -/
def suggestions (name : Bytes) : List String :=
  let typed := lower name
  suggestable.filter fun known =>
    editDistance typed (utf8 known) ≤ 2 || startsWith typed (utf8 known)

/-- The suggestions as they are added to a message. -/
def suggestionText (name : Bytes) : String :=
  match suggestions name with
  | [] => ""
  | names => "\n\nDid you mean this?\n" ++ String.join (names.map fun n => "\t" ++ n ++ "\n")

def formats : List String := ["text", "json"]

def Failure.message : Failure → Bytes
  | .unknownCommand name =>
    utf8 ("unknown command " ++ quote name ++ " for " ++ quote programName ++ suggestionText name)
  | .flags cause => cause.message
  | .exactArguments want got =>
    utf8 ("accepts " ++ toString want ++ " arg(s), received " ++ toString got)
  | .tooManyArguments most got =>
    utf8 ("accepts at most " ++ toString most ++ " arg(s), received " ++ toString got)
  | .tooFewArguments least got =>
    utf8 ("requires at least " ++ toString least ++ " arg(s), only received " ++ toString got)
  | .format name =>
    utf8 ("invalid format " ++ quote name ++ ": must be one of [" ++ " ".intercalate formats ++ "]")
  | .noModule => utf8 "no module given"
  | .load cause => cause.message
  | .config cause => cause.message
  | .reflect cause => utf8 cause.message

/-- What a command writes and how it ends. -/
structure Outcome where
  stdout : Bytes := []
  stderr : Bytes := []
  failure : Option (Halt Failure) := none

/-- The command that the arguments name, and the arguments without its name. -/
def find (args : List Bytes) : Except Failure (Command × List Bytes) :=
  match stripped Command.root.flags false args with
  | [] => .ok (.root, args)
  | name :: _ =>
    match commandNames.find? fun (n, _) => utf8 n == name with
    | some (_, command) => .ok (command, without Command.root.flags name false args)
    | none => .error (.unknownCommand name)

structure Settings where
  verbose : Bool := false
  format : Bytes := utf8 "text"
  function : Option Bytes := none
  config : Bytes := []
  help : Bool := false

def Settings.add (s : Settings) (one : Setting) : Settings :=
  match one.flag.name with
  | "verbose" => { s with verbose := (switchValue? one.value).getD false }
  | "help" => { s with help := (switchValue? one.value).getD false }
  | "format" => { s with format := one.value }
  | "function" => { s with function := some one.value }
  | "config" => { s with config := one.value }
  | _ => s

def checkArguments (command : Command) (n : Nat) : Except Failure Unit :=
  match command with
  | .dis => if n = 1 then .ok () else .error (.exactArguments 1 n)
  | .reflect => if n ≤ 1 then .ok () else .error (.tooManyArguments 1 n)
  | .hash => if n ≥ 1 then .ok () else .error (.tooFewArguments 1 n)
  | .root => .ok ()

/-- A log line with its end. -/
def logLine (level message : String) (pairs : List (String × Bytes)) : Bytes :=
  LogLine.render (("level", utf8 level) :: ("msg", utf8 message) :: pairs) ++ [10]

/-- The log line of a record that has only numbers and texts. -/
def recordLine (r : Record) : Bytes :=
  logLine r.level.text r.message (r.attributes.filterMap fun (key, a) =>
    match a with
    | .number n => some (key, utf8 (toString n))
    | .text s => some (key, s)
    | _ => none)

def jsonText (data : Json) : Bytes :=
  utf8 (Json.object [("status", .string (utf8 "ok")), ("data", data)]).text

structure HashEntry where
  name : Bytes
  hash : Word
deriving DecidableEq

/-- Two different names with the same hash. -/
structure Collision where
  hash : Word
  first : Bytes
  second : Bytes
deriving DecidableEq

/-- The collisions among names with their hashes: each name against the last one before it that has
the same hash. `seen` holds those before, the last first. -/
def collisionsFrom (seen : List HashEntry) : List HashEntry → List Collision
  | [] => []
  | e :: rest =>
    let here := match seen.find? (·.hash == e.hash) with
      | some other => if other.name == e.name then [] else [⟨e.hash, other.name, e.name⟩]
      | none => []
    here ++ collisionsFrom (e :: seen) rest

def hashEntries (names : List Bytes) : List HashEntry :=
  names.map fun name => { name, hash := nameHash name }

def collisions (names : List Bytes) : List Collision :=
  collisionsFrom [] (hashEntries names)

def Collision.line (c : Collision) : Bytes :=
  logLine "WARN" "hash collision" [
    ("hash", utf8 (toString c.hash)),
    ("names", utf8 "[" ++ c.first ++ 32 :: c.second ++ utf8 "]")]

def runHash (json : Bool) (names : List Bytes) : Outcome :=
  let entries := hashEntries names
  { stderr := (collisions names).flatMap Collision.line
    stdout :=
      if json then
        jsonText (.array (entries.map fun e =>
          .object [("name", .string e.name), ("hash", .number e.hash.toNat)]))
      else
        Table.render (entries.flatMap fun e => e.name ++ 9 :: utf8 (hexWord e.hash) ++ [10]) }

def runDis (verbose : Bool) (path : Bytes) (contents : Except FileError Bytes) : Outcome :=
  match Module.load path contents with
  | .error e => { failure := some (.error (.load e)) }
  | .ok m =>
    { stderr :=
        if verbose then
          logLine "DEBUG" "module loaded" [
            ("path", path), ("bound", utf8 (toString m.header.bound))]
        else []
      stdout := utf8 m.listing }

def parametersText (function : Bytes) (interface : Interface) : Bytes :=
  let rows := interface.parameters.zipIdx.map fun (p, i) =>
    "\t".intercalate [toString i, hexWord p.hash, p.type.text, idText p.composite, idText p.typeId]
  let lines := "INDEX\tHASH\tTYPE\tCOMPOSITE\tTYPE ID" :: rows
  utf8 ("function " ++ quote function ++ " (index " ++ toString interface.function ++ "), " ++
    toString interface.parameters.length ++ " runtime parameters\n") ++
    Table.render (utf8 (String.join (lines.map (· ++ "\n"))))

def parametersJson (function : Bytes) (interface : Interface) : Json :=
  .object [
    ("function", .string function),
    ("index", .number interface.function),
    ("parameters", .array (interface.parameters.zipIdx.map fun (p, i) => .object [
      ("index", .number i), ("hash", .number p.hash.toNat), ("type", .string (utf8 p.type.text)),
      ("composite_id", .number p.composite.toNat), ("type_id", .number p.typeId.toNat)]))]

/-- Shows the runtime parameters of a function of a module. -/
def showParameters (json : Bool) (function path : Bytes) (contents : Except FileError Bytes) :
    Outcome :=
  match Module.load path contents with
  | .error e => { failure := some (.error (.load e)) }
  | .ok m =>
    let (dropped, reflected) := m.reflect function
    let stderr := dropped.flatMap fun d => recordLine (.parameterDropped function d)
    match reflected with
    | .error halt => { stderr, failure := some (halt.map .reflect) }
    | .ok interface =>
      { stderr
        stdout :=
          if json then jsonText (parametersJson function interface)
          else parametersText function interface }

section

variable {m : Type → Type} [Monad m]

/-- Shows the runtime parameters of a function. The module and the function can come from a
configuration; what is given directly wins. -/
def runReflect (read : Bytes → m (Except FileError Bytes)) (s : Settings) (json : Bool)
    (path : Bytes) : m Outcome := do
  let config : Except ConfigLoadError Config ←
    if s.config.isEmpty then pure (.ok {})
    else do pure (Config.load (← read s.config))
  match config with
  | .error e => return { failure := some (.error (.config e)) }
  | .ok c =>
    let path := if path.isEmpty then c.modulePath else path
    let function := s.function.getD c.options.function
    if path.isEmpty then return { failure := some (.error .noModule) }
    return showParameters json function path (← read path)

def runCommand (read : Bytes → m (Except FileError Bytes)) (command : Command)
    (args : List Bytes) : m Outcome := do
  let fail := fun e : Failure => pure ({ failure := some (.error e) } : Outcome)
  match parse (command.flags ++ [helpFlag]) false args with
  | .error e => fail (.flags e)
  | .ok parsed =>
    let settings := parsed.settings.foldl Settings.add {}
    if settings.help || command == .root then
      return { stdout := utf8 "Usage:\n  algaejit [command]\n" }
    match checkArguments command parsed.arguments.length with
    | .error e => fail e
    | .ok _ =>
      if ! formats.any (utf8 · == settings.format) then fail (.format settings.format)
      else
        let json := settings.format == utf8 "json"
        let first := parsed.arguments.head?.getD []
        match command with
        | .root => return {}
        | .hash => return runHash json parsed.arguments
        | .dis => return runDis settings.verbose first (← read first)
        | .reflect => runReflect read settings json first

/-- The outcome with the message of its failure written to the error output. -/
def Outcome.report (o : Outcome) : Outcome :=
  match o.failure with
  | none | some .endless => o
  | some (.error e) =>
    let hint := match e with
      | .unknownCommand _ => utf8 "Run '" ++ programName ++ utf8 " --help' for usage.\n"
      | _ => []
    { o with stderr := o.stderr ++ utf8 "Error: " ++ e.message ++ 10 :: hint }

/-- Runs the program on its arguments. `read` gives the contents of a file. -/
def run (read : Bytes → m (Except FileError Bytes)) (args : List Bytes) : m Outcome := do
  match find args with
  | .error e => return Outcome.report { failure := some (.error e) }
  | .ok (command, rest) => return (← runCommand read command rest).report

end

end ShaderGraft.CommandLine
