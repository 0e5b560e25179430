import ShaderGraft.Module.Scan

/-!
Reading a module from words or bytes. Instructions outside of functions go to the section of their
opcode, in the order they come in; a function runs from its definition to its end and is a list of
parameters followed by labelled blocks.
-/

namespace ShaderGraft

/-- Where an instruction that stands outside of functions goes. -/
inductive Placement where
  | within (s : Section)
  | memoryModel
  | opensFunction
  | misplaced
deriving DecidableEq, Repr

/-- The place of an opcode outside of functions. Whatever has no section of its own is a global. -/
def Opcode.placement : Opcode → Placement
  | .capability => .within .capabilities
  | .extension => .within .extensions
  | .extInstImport => .within .imports
  | .memoryModel => .memoryModel
  | .entryPoint => .within .entryPoints
  | .executionMode | .executionModeId => .within .executionModes
  | .string | .source | .sourceContinued | .sourceExtension => .within .sources
  | .name | .memberName => .within .names
  | .moduleProcessed => .within .processed
  | .decorate | .memberDecorate | .decorationGroup | .groupDecorate | .groupMemberDecorate
  | .decorateId | .decorateString | .memberDecorateString => .within .annotations
  | .function => .opensFunction
  | .functionParameter | .functionEnd | .label => .misplaced
  | _ => .within .globals

/-- The blocks with an instruction added to the last one, if there is one. -/
def Block.appendToLast? (inst : Instruction) : List Block → Option (List Block)
  | [] => none
  | [b] => some [{ b with body := b.body ++ [inst] }]
  | b :: bs => (appendToLast? inst bs).map (b :: ·)

/-- The function with an instruction other than its end added. -/
def Function.extend (f : Function) (inst : Instruction) : Except Defect Function :=
  match inst.opcode with
  | .functionParameter =>
    if f.blocks.isEmpty then .ok { f with parameters := f.parameters ++ [inst] }
    else .error .parameterAfterBlock
  | .label => .ok { f with blocks := f.blocks ++ [{ label := inst }] }
  | .function => .error .nestedFunction
  | op =>
    match Block.appendToLast? inst f.blocks with
    | some blocks => .ok { f with blocks }
    | none => .error (.outsideBlock op)

/-- A module being read: what is complete, and the function that is still open. -/
structure Draft where
  complete : Module
  current : Option Function := none
deriving DecidableEq, Repr

namespace Draft

/-- The draft with the next instruction of the stream put in its place. -/
def place (d : Draft) (inst : Instruction) : Except Defect Draft :=
  match d.current with
  | some f =>
    if inst.opcode = .functionEnd then
      .ok { complete := { d.complete with
        functions := d.complete.functions ++ [{ f with ending := inst }] } }
    else (f.extend inst).map fun g => { d with current := some g }
  | none =>
    match inst.opcode.placement with
    | .within s => .ok { d with complete := d.complete.append inst s }
    | .memoryModel =>
      if d.complete.memoryModel.isSome then .error .duplicateMemoryModel
      else .ok { d with complete := { d.complete with memoryModel := some inst } }
    | .opensFunction => .ok { d with current := some { definition := inst } }
    | .misplaced => .error (.outsideFunction inst.opcode)

/-- Puts a located instruction in its place. -/
def placeAt (d : Draft) (item : Located) : Except ParseError Draft :=
  (d.place item.inst).mapError (.malformed item.offset)

/-- The module of a draft whose stream has ended. -/
def finish (d : Draft) : Except ParseError Module :=
  if d.current.isSome then .error .missingFunctionEnd else .ok d.complete

end Draft

namespace Module

/-- The module with the given header and the instructions of a scan. A defect in what was read comes
before whatever stopped the scan. -/
def ofScan (header : Header) (s : Scan) : Except ParseError Module := do
  let draft ← s.items.foldlM Draft.placeAt { complete := { header } }
  match s.failure with
  | some e => throw e
  | none => draft.finish

/-- The number of words of the header. -/
def headerLength : Nat := 5

/-- The module of a stream in native byte order, by the words after the magic number. -/
def parseNative (version generator bound schema : Word) (body : List Word) :
    Except ParseError Module :=
  ofScan { version := .ofWord version, generator, bound, schema }
    (Scan.scanFrom 0 headerLength body)

/-- Reads a module from words. The magic number tells whether the bytes of every word are in the
opposite order. -/
def parse : List Word → Except ParseError Module
  | first :: version :: generator :: bound :: schema :: body =>
    if first = magic then parseNative version generator bound schema body
    else if Word.reverseBytes first = magic then
      parseNative (Word.reverseBytes version) (Word.reverseBytes generator)
        (Word.reverseBytes bound) (Word.reverseBytes schema) (body.map Word.reverseBytes)
    else .error (.invalidMagic first)
  | _ => .error .truncatedHeader

/-- Reads a module from bytes, in the byte order that the magic number tells. -/
def parseBytes (bs : Bytes) : Except ParseError Module :=
  if bs.length % 4 ≠ 0 then .error (.raggedBytes bs.length)
  else if bs.length < 4 * headerLength then .error .truncatedHeader
  else if (Word.ofLittleEndian bs).head? ≠ some magic ∧ (Word.ofBigEndian bs).head? = some magic then
    parse (Word.ofBigEndian bs)
  else parse (Word.ofLittleEndian bs)

end Module

end ShaderGraft
