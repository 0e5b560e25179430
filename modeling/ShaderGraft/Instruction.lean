import ShaderGraft.Opcode
import ShaderGraft.Word

/-!
Instructions and their binary form: a first word with the length in the high half and the opcode in
the low half, then the result type and the result id where there are any, then the operands.
-/

namespace ShaderGraft

/-- One instruction. A zero `resultType` or `resultId` means that the instruction has none. -/
structure Instruction where
  opcode : Opcode
  resultType : ResultId := 0
  resultId : ResultId := 0
  operands : List Word := []
deriving DecidableEq, Repr

namespace Instruction

/-- The words between the first word and the operands. -/
def resultWords (inst : Instruction) : List Word :=
  (if inst.resultType = 0 then [] else [inst.resultType]) ++
    (if inst.resultId = 0 then [] else [inst.resultId])

/-- The number of words of the binary form. -/
def wordCount (inst : Instruction) : Nat :=
  1 + inst.resultWords.length + inst.operands.length

/-- The first word of the binary form. A length of 2^16 or more loses its high bits. -/
def firstWord (inst : Instruction) : Word :=
  (inst.wordCount.toUInt32 <<< 16) ||| inst.opcode.code.toUInt32

/-- The binary form. -/
def words (inst : Instruction) : List Word :=
  inst.firstWord :: (inst.resultWords ++ inst.operands)

end Instruction

end ShaderGraft
