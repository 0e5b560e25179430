import ShaderGraft.Module.Scan

/-!
# The binary form of one instruction

Writing decides by the ids which result words there are (`Instruction.resultWords`); reading decides
by the opcode (`Instruction.ofWords`). The two agree on the instructions whose result slots are
filled (`Instruction.SlotsFilled`), and only there. What reading gives is never longer when it is
written again (`Instruction.length_resultWords_le`), with equality exactly where no slot is zero.
-/

namespace ShaderGraft

namespace Version

theorem toNat_word (v : Version) : v.word.toNat = v.major.toNat * 65536 + v.minor.toNat * 256 := by
  have hmajor : v.major.toNat < 256 := v.major.toNat_lt
  have hminor : v.minor.toNat < 256 := v.minor.toNat_lt
  have h16 : (v.major.toUInt32 <<< 16).toNat = v.major.toNat <<< 16 := by
    rw [UInt32.toNat_shiftLeft]
    simp [Nat.shiftLeft_eq]
    omega
  have h8 : (v.minor.toUInt32 <<< 8).toNat = v.minor.toNat <<< 8 := by
    rw [UInt32.toNat_shiftLeft]
    simp [Nat.shiftLeft_eq]
    omega
  rw [Version.word, UInt32.toNat_or, h16, h8, ← Nat.shiftLeft_add_eq_or_of_lt]
  · simp [Nat.shiftLeft_eq]
  · simp [Nat.shiftLeft_eq]; omega

@[simp] theorem ofWord_word (v : Version) : Version.ofWord v.word = v := by
  have hmajor : v.major.toNat < 256 := v.major.toNat_lt
  have hminor : v.minor.toNat < 256 := v.minor.toNat_lt
  cases v with
  | mk major minor =>
    simp only [Version.ofWord, Version.mk.injEq, ← UInt8.toNat_inj]
    simp [toNat_word, Nat.shiftRight_eq_div_pow] at *
    omega

/-- A version word is kept if the two bytes that are not looked at are zero. -/
theorem word_ofWord_iff (w : Word) :
    (Version.ofWord w).word = w ↔ (w >>> 24).toUInt8 = 0 ∧ w.toUInt8 = 0 := by
  have hw : w.toNat < 4294967296 := w.toNat_lt
  simp only [← UInt32.toNat_inj, ← UInt8.toNat_inj, toNat_word]
  simp [Version.ofWord, Nat.shiftRight_eq_div_pow] at *
  omega

end Version

/-! ### First words -/

namespace Scan

theorem length_eq_div (w : Word) : length w = w.toNat / 65536 := by
  simp [length, Nat.shiftRight_eq_div_pow]

theorem opcode_toNat (w : Word) : (opcode w).code.toNat = w.toNat % 65536 := by
  simp [opcode]

theorem length_le (w : Word) : length w ≤ 65535 := by
  have hw : w.toNat < 4294967296 := w.toNat_lt
  rw [length_eq_div]
  omega

/-- A first word is its length and its opcode. -/
theorem ext_firstWord {w w' : Word} (hlen : length w = length w') (hop : opcode w = opcode w') :
    w = w' := by
  have hcode : w.toNat % 65536 = w'.toNat % 65536 := by
    rw [← opcode_toNat, ← opcode_toNat, hop]
  rw [length_eq_div, length_eq_div] at hlen
  exact UInt32.toNat_inj.1 (by omega)

end Scan

namespace Instruction

/-- The largest number of words that a first word can tell. -/
def maxWords : Nat := 65535

theorem toNat_firstWord {inst : Instruction} (h : inst.wordCount ≤ maxWords) :
    inst.firstWord.toNat = inst.wordCount * 65536 + inst.opcode.code.toNat := by
  have hop : inst.opcode.code.toNat < 2 ^ 16 := inst.opcode.code.toNat_lt
  unfold maxWords at h
  have hn : inst.wordCount.toUInt32.toNat = inst.wordCount :=
    UInt32.toNat_ofNat_of_lt' (by change inst.wordCount < 4294967296; omega)
  have hs : (inst.wordCount.toUInt32 <<< 16).toNat = inst.wordCount <<< 16 := by
    rw [UInt32.toNat_shiftLeft, hn]
    simp [Nat.shiftLeft_eq]
    omega
  rw [firstWord, UInt32.toNat_or, hs, UInt16.toNat_toUInt32,
    ← Nat.shiftLeft_add_eq_or_of_lt hop, Nat.shiftLeft_eq]

theorem length_firstWord {inst : Instruction} (h : inst.wordCount ≤ maxWords) :
    Scan.length inst.firstWord = inst.wordCount := by
  have hop : inst.opcode.code.toNat < 65536 := inst.opcode.code.toNat_lt
  rw [Scan.length_eq_div, toNat_firstWord h]
  omega

theorem opcode_firstWord {inst : Instruction} (h : inst.wordCount ≤ maxWords) :
    Scan.opcode inst.firstWord = inst.opcode := by
  have hop : inst.opcode.code.toNat < 65536 := inst.opcode.code.toNat_lt
  have hcode : (Scan.opcode inst.firstWord).code.toNat = inst.opcode.code.toNat := by
    rw [Scan.opcode_toNat, toNat_firstWord h]
    omega
  cases hinst : inst.opcode with
  | mk code =>
    rw [hinst] at hcode
    exact congrArg Opcode.mk (UInt16.toNat_inj.1 hcode)

/-! ### Result slots -/

/-- The words in the result slots of the opcode, whether they are zero or not. -/
def slotWords (inst : Instruction) : List Word :=
  match inst.opcode.layout with
  | .none => []
  | .id => [inst.resultId]
  | .typed => [inst.resultType, inst.resultId]

/-- The result slots of the opcode hold something and there is no result besides them. -/
structure SlotsFilled (inst : Instruction) : Prop where
  id : inst.resultId ≠ 0 ↔ inst.opcode.layout ≠ .none
  type : inst.resultType ≠ 0 ↔ inst.opcode.layout = .typed

instance (inst : Instruction) : Decidable inst.SlotsFilled :=
  decidable_of_iff ((inst.resultId ≠ 0 ↔ inst.opcode.layout ≠ .none) ∧
    (inst.resultType ≠ 0 ↔ inst.opcode.layout = .typed))
    ⟨fun h => ⟨h.1, h.2⟩, fun h => ⟨h.id, h.type⟩⟩

/-- No result slot of the opcode is zero. -/
structure NoZeroSlot (inst : Instruction) : Prop where
  id : inst.opcode.layout ≠ .none → inst.resultId ≠ 0
  type : inst.opcode.layout = .typed → inst.resultType ≠ 0

/-- There is no result besides the result slots of the opcode. All that is read is like this. -/
structure Decoded (inst : Instruction) : Prop where
  id : inst.opcode.layout = .none → inst.resultId = 0
  type : inst.opcode.layout ≠ .typed → inst.resultType = 0

theorem slotsFilled_iff {inst : Instruction} :
    inst.SlotsFilled ↔ inst.Decoded ∧ inst.NoZeroSlot := by
  constructor
  · intro ⟨hid, htype⟩
    exact ⟨⟨by grind, by grind⟩, ⟨hid.2, htype.2⟩⟩
  · intro ⟨⟨hid, htype⟩, ⟨hid', htype'⟩⟩
    exact ⟨⟨by grind, hid'⟩, ⟨by grind, htype'⟩⟩

/-- What reading gives: the opcode, the words of its result slots, and the operands. -/
theorem ofWords_eq_ok {op : Opcode} {ws : List Word} {inst : Instruction} :
    ofWords op ws = .ok inst ↔
      inst.opcode = op ∧ inst.Decoded ∧ ws = inst.slotWords ++ inst.operands := by
  constructor
  · intro h
    unfold ofWords at h
    split at h <;> cases h
    all_goals
      rename_i hlayout
      exact ⟨rfl, ⟨by simp [hlayout], by simp [hlayout]⟩, by simp [slotWords, hlayout]⟩
  · rintro ⟨rfl, ⟨hid, htype⟩, rfl⟩
    cases inst with
    | mk op type id operands =>
      cases hlayout : op.layout <;> simp [ofWords, slotWords, hlayout] at hid htype ⊢ <;> grind

theorem resultWords_eq_slotWords {inst : Instruction} (h : inst.SlotsFilled) :
    inst.resultWords = inst.slotWords := by
  obtain ⟨hid, htype⟩ := h
  cases hlayout : inst.opcode.layout <;> simp [hlayout] at hid htype <;>
    simp [resultWords, slotWords, hlayout, hid, htype]

theorem length_resultWords_le {inst : Instruction} (h : inst.Decoded) :
    inst.resultWords.length ≤ inst.slotWords.length := by
  obtain ⟨hid, htype⟩ := h
  cases hlayout : inst.opcode.layout <;> simp [hlayout] at hid htype <;>
    simp [resultWords, slotWords, hlayout, hid, htype] <;> grind

theorem slotsFilled_of_length {inst : Instruction} (h : inst.Decoded)
    (hlen : inst.resultWords.length = inst.slotWords.length) : inst.SlotsFilled := by
  refine slotsFilled_iff.2 ⟨h, ?_⟩
  obtain ⟨hid, htype⟩ := h
  cases hlayout : inst.opcode.layout <;> simp [hlayout] at hid htype <;>
    simp [resultWords, slotWords, hlayout, hid, htype] at hlen <;>
    exact ⟨by grind, by grind⟩

theorem wordCount_le_of_decoded {inst : Instruction} (h : inst.Decoded) :
    inst.wordCount ≤ inst.slotWords.length + inst.operands.length + 1 := by
  have := length_resultWords_le h
  unfold wordCount
  omega

theorem length_words (inst : Instruction) : inst.words.length = inst.wordCount := by
  simp [words, wordCount]
  omega

/-- Reading the words of an instruction gives it back exactly if its result slots are filled. -/
theorem ofWords_resultWords_iff {inst : Instruction} :
    ofWords inst.opcode (inst.resultWords ++ inst.operands) = .ok inst ↔ inst.SlotsFilled := by
  rw [ofWords_eq_ok]
  constructor
  · rintro ⟨-, hdec, hwords⟩
    exact slotsFilled_of_length hdec (congrArg List.length (List.append_cancel_right hwords))
  · intro h
    exact ⟨rfl, (slotsFilled_iff.1 h).1, by rw [resultWords_eq_slotWords h]⟩

end Instruction

end ShaderGraft
