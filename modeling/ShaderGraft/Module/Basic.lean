import ShaderGraft.Instruction

/-!
Modules in memory. A module is a header, the sections of its logical layout, and its functions; the
sections keep their instructions in order.
-/

namespace ShaderGraft

/-- The version of the binary form. -/
structure Version where
  major : UInt8
  minor : UInt8
deriving DecidableEq, Repr

namespace Version

/-- The version in the second word of a module. -/
def word (v : Version) : Word :=
  (v.major.toUInt32 <<< 16) ||| (v.minor.toUInt32 <<< 8)

/-- The version that a header word encodes. Its top and bottom bytes are not looked at. -/
def ofWord (w : Word) : Version :=
  { major := (w >>> 16).toUInt8, minor := (w >>> 8).toUInt8 }

def text (v : Version) : String :=
  toString v.major ++ "." ++ toString v.minor

end Version

/-- The five words in front of the instructions, less the magic number. -/
structure Header where
  version : Version
  generator : Word := 0
  /-- The next id to be given out: every id in use is smaller. -/
  bound : ResultId := 1
  schema : Word := 0
deriving DecidableEq, Repr

/-- A label and the instructions up to the next label. -/
structure Block where
  label : Instruction
  body : List Instruction := []
deriving DecidableEq, Repr

/-- A function from its definition to its end. -/
structure Function where
  definition : Instruction
  parameters : List Instruction := []
  blocks : List Block := []
  ending : Instruction := { opcode := .functionEnd }
deriving DecidableEq, Repr

/-- A module. -/
structure Module where
  header : Header
  capabilities : List Instruction := []
  extensions : List Instruction := []
  imports : List Instruction := []
  memoryModel : Option Instruction := none
  entryPoints : List Instruction := []
  executionModes : List Instruction := []
  sources : List Instruction := []
  names : List Instruction := []
  processed : List Instruction := []
  annotations : List Instruction := []
  /-- Types, constants and global variables. -/
  globals : List Instruction := []
  functions : List Function := []
deriving DecidableEq, Repr

namespace Block

/-- The label and the body. -/
def instructions (b : Block) : List Instruction :=
  b.label :: b.body

/-- The last instruction of the body. -/
def terminator? (b : Block) : Option Instruction :=
  b.body.getLast?

end Block

namespace Function

/-- The id the function is called by. -/
def id (f : Function) : ResultId :=
  f.definition.resultId

/-- All instructions of the function in order. -/
def instructions (f : Function) : List Instruction :=
  f.definition :: f.parameters ++ f.blocks.flatMap Block.instructions ++ [f.ending]

end Function

/-- The sections that hold any number of instructions. -/
inductive Section where
  | capabilities
  | extensions
  | imports
  | entryPoints
  | executionModes
  | sources
  | names
  | processed
  | annotations
  | globals
deriving DecidableEq, Repr

namespace Module

/-- A module with nothing in it. Ids start at 1. -/
def empty (version : Version) : Module :=
  { header := { version } }

/-- The instructions of a section. -/
def instructionsIn (m : Module) : Section → List Instruction
  | .capabilities => m.capabilities
  | .extensions => m.extensions
  | .imports => m.imports
  | .entryPoints => m.entryPoints
  | .executionModes => m.executionModes
  | .sources => m.sources
  | .names => m.names
  | .processed => m.processed
  | .annotations => m.annotations
  | .globals => m.globals

/-- The module with an instruction added at the end of a section. -/
def append (m : Module) (inst : Instruction) : Section → Module
  | .capabilities => { m with capabilities := m.capabilities ++ [inst] }
  | .extensions => { m with extensions := m.extensions ++ [inst] }
  | .imports => { m with imports := m.imports ++ [inst] }
  | .entryPoints => { m with entryPoints := m.entryPoints ++ [inst] }
  | .executionModes => { m with executionModes := m.executionModes ++ [inst] }
  | .sources => { m with sources := m.sources ++ [inst] }
  | .names => { m with names := m.names ++ [inst] }
  | .processed => { m with processed := m.processed ++ [inst] }
  | .annotations => { m with annotations := m.annotations ++ [inst] }
  | .globals => { m with globals := m.globals ++ [inst] }

/-- All instructions outside of functions, in layout order. -/
def declarations (m : Module) : List Instruction :=
  m.capabilities ++ m.extensions ++ m.imports ++ m.memoryModel.toList ++ m.entryPoints ++
    m.executionModes ++ m.sources ++ m.names ++ m.processed ++ m.annotations ++ m.globals

/-- All instructions of the module in layout order. -/
def instructions (m : Module) : List Instruction :=
  m.declarations ++ m.functions.flatMap Function.instructions

/-- The first word of every module. -/
def magic : Word := 0x07230203

/-- The words of the header. -/
def headerWords (m : Module) : List Word :=
  [magic, m.header.version.word, m.header.generator, m.header.bound, m.header.schema]

/-- The binary form of the module. -/
def assemble (m : Module) : List Word :=
  m.headerWords ++ m.instructions.flatMap Instruction.words

/-- The binary form in bytes, least significant byte of each word first. -/
def bytes (m : Module) : Bytes :=
  Word.toLittleEndian m.assemble

end Module

end ShaderGraft
