import ShaderGraft.Module.Basic
import ShaderGraft.Text.Number

/-!
Splitting a word stream into instructions. Each instruction tells its own length, so a scan goes from
one to the next until the stream ends or an instruction cannot be read.
-/

namespace ShaderGraft

/-- Why an instruction has no place in a module. -/
inductive Defect where
  | missingResultType (op : Opcode)
  | missingResultId (op : Opcode)
  | duplicateMemoryModel
  | outsideFunction (op : Opcode)
  | parameterAfterBlock
  | nestedFunction
  | outsideBlock (op : Opcode)
deriving DecidableEq, Repr

def Defect.message : Defect → String
  | .missingResultType op => op.mnemonic ++ " missing result type"
  | .missingResultId op => op.mnemonic ++ " missing result id"
  | .duplicateMemoryModel => "duplicate OpMemoryModel"
  | .outsideFunction op => op.mnemonic ++ " outside of function"
  | .parameterAfterBlock => "OpFunctionParameter after first block"
  | .nestedFunction => "nested OpFunction"
  | .outsideBlock op => op.mnemonic ++ " outside of block"

/-- Why a word or byte stream is no module. Offsets count words from the start of the stream. -/
inductive ParseError where
  | invalidMagic (word : Word)
  | truncatedHeader
  | raggedBytes (length : Nat)
  | zeroWordCount (offset : Nat)
  | truncatedInstruction (op : Opcode) (offset needed : Nat)
  | malformed (offset : Nat) (defect : Defect)
  | missingFunctionEnd
deriving DecidableEq, Repr

/-- The three kinds of parse errors. -/
inductive ParseErrorKind where
  | invalidMagic
  | truncated
  | malformed
deriving DecidableEq, Repr

namespace ParseError

def kind : ParseError → ParseErrorKind
  | .invalidMagic _ => .invalidMagic
  | .truncatedHeader | .raggedBytes _ | .truncatedInstruction .. => .truncated
  | .zeroWordCount _ | .malformed .. | .missingFunctionEnd => .malformed

def message : ParseError → String
  | .invalidMagic word => "spirv: invalid magic number: " ++ Text.hexWord word
  | .truncatedHeader => "spirv: truncated word stream"
  | .raggedBytes length =>
    "spirv: truncated word stream: byte length " ++ toString length ++ " not a multiple of 4"
  | .zeroWordCount offset =>
    "spirv: malformed module: zero word count at word " ++ toString offset
  | .truncatedInstruction op offset needed =>
    "spirv: truncated word stream: " ++ op.mnemonic ++ " at word " ++ toString offset ++
      " needs " ++ toString needed ++ " words"
  | .malformed offset defect =>
    "word " ++ toString offset ++ ": spirv: malformed module: " ++ defect.message
  | .missingFunctionEnd => "spirv: malformed module: missing OpFunctionEnd"

end ParseError

/-- The instruction with the given opcode and remaining words. -/
def Instruction.ofWords (op : Opcode) (ws : List Word) : Except Defect Instruction :=
  match op.layout, ws with
  | .none, ws => .ok { opcode := op, operands := ws }
  | .id, id :: ws => .ok { opcode := op, resultId := id, operands := ws }
  | .id, [] => .error (.missingResultId op)
  | .typed, t :: id :: ws =>
    .ok { opcode := op, resultType := t, resultId := id, operands := ws }
  | .typed, [_] => .error (.missingResultId op)
  | .typed, [] => .error (.missingResultType op)

/-- An instruction and the offset of its first word. -/
structure Located where
  offset : Nat
  inst : Instruction
deriving DecidableEq, Repr

/-- The instructions read from a stream, and what stopped the reading before its end. -/
structure Scan where
  items : List Located
  failure : Option ParseError
deriving DecidableEq, Repr

namespace Scan

/-- A scan that stops at once. -/
def stop (e : ParseError) : Scan :=
  { items := [], failure := some e }

/-- A scan with one more instruction in front. -/
def cons (item : Located) (s : Scan) : Scan :=
  { s with items := item :: s.items }

/-- The number of words that a first word announces. -/
def length (w : Word) : Nat :=
  (w >>> 16).toNat

/-- The opcode in a first word. -/
def opcode (w : Word) : Opcode :=
  ⟨w.toUInt16⟩

/-- Scans the words from `offset` on, of which the first `skip` belong to an instruction already
read. -/
def scanFrom : (skip offset : Nat) → List Word → Scan
  | _, _, [] => { items := [], failure := none }
  | skip + 1, offset, _ :: ws => scanFrom skip (offset + 1) ws
  | 0, offset, w :: ws =>
    let operands := ws.take (length w - 1)
    if length w = 0 then stop (.zeroWordCount offset)
    else if operands.length < length w - 1 then
      stop (.truncatedInstruction (opcode w) offset (length w))
    else match Instruction.ofWords (opcode w) operands with
      | .error defect => stop (.malformed offset defect)
      | .ok inst => (scanFrom (length w - 1) (offset + 1) ws).cons { offset, inst }

end Scan

end ShaderGraft
