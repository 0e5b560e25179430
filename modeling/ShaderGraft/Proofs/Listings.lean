import ShaderGraft.Module.Listing
import ShaderGraft.Proofs.Literals

/-!
# Listings

Every instruction of a module is one line of its listing (`Module.listing_by_line`). This takes two
things. No part of a line has a newline in it, whatever the opcode, the operands and the bytes of
the strings are (`Text.OneLine`). And an instruction always has a line: its operands are taken apart
at positions that depend on the opcode and on the length of a string among them, and no such
position is out of range, however few operands there are (`Instruction.text?_eq`).
-/

namespace ShaderGraft

open Text

/-! ### Texts on one line -/

namespace Text

/-- A text without a newline. -/
def OneLine (s : String) : Prop :=
  '\n' ∉ s.toList

instance (s : String) : Decidable (OneLine s) :=
  inferInstanceAs (Decidable ('\n' ∉ s.toList))

@[simp] theorem oneLine_append {s t : String} : OneLine (s ++ t) ↔ OneLine s ∧ OneLine t := by
  simp [OneLine]

@[simp] theorem oneLine_join {ss : List String} :
    OneLine (String.join ss) ↔ ∀ s ∈ ss, OneLine s := by
  simp [OneLine]

@[simp] theorem oneLine_ofList {cs : List Char} : OneLine (String.ofList cs) ↔ '\n' ∉ cs := by
  simp [OneLine]

theorem oneLine_repr (n : Nat) : OneLine n.repr := by
  intro h
  rw [Nat.toList_repr] at h
  exact absurd (Nat.isDigit_of_mem_toDigits (by decide) (by decide) h) (by decide)

@[simp] theorem oneLine_toString (w : Word) : OneLine (toString w) :=
  oneLine_repr w.toNat

@[simp] theorem oneLine_idText (w : Word) : OneLine (idText w) :=
  oneLine_append.2 ⟨by decide, oneLine_toString w⟩

theorem newline_notMem_hexDigits (width n : Nat) : '\n' ∉ hexDigits width n := by
  have hdigit : ∀ d < 16, '\n' ≠ hexDigit d := by decide
  induction width generalizing n with
  | zero => exact List.not_mem_nil
  | succ width ih => simp [hexDigits, ih, hdigit _ (Nat.mod_lt n (by decide))]

theorem oneLine_hex (w : Word) : OneLine (hex w) := by
  unfold hex
  dsimp only
  split
  · decide
  · rw [oneLine_ofList]
    exact fun h => newline_notMem_hexDigits 8 w.toNat ((List.dropWhile_sublist _).subset h)

theorem newline_notMem_escapeChar (c : Char) : '\n' ∉ escapeChar '"' c := by
  unfold escapeChar
  split
  · rename_i h
    simp only [Bool.or_eq_true, beq_iff_eq] at h
    rcases h with rfl | rfl <;> decide
  split
  · rename_i hprintable
    have hnewline : isPrintable '\n' = false := by decide
    rw [List.mem_singleton]
    rintro rfl
    rw [hnewline] at hprintable
    cases hprintable
  split
  · rename_i letter h
    unfold shortEscape? at h
    split at h <;> cases h <;> decide
  · split
    · simp [newline_notMem_hexDigits]
    split <;> simp [newline_notMem_hexDigits]

/-- Whatever is quoted, its newlines are escaped. -/
@[simp] theorem oneLine_quote (s : Bytes) : OneLine (quote s) := by
  have hglyph (g : Glyph) : '\n' ∉ escapeGlyph g := by
    cases g with
    | char c => exact newline_notMem_escapeChar c
    | stray b => simp [escapeGlyph, newline_notMem_hexDigits]
  rw [quote, oneLine_ofList]
  simp [hglyph]

/-- Lines without newlines, each followed by one, are found again between the newlines. -/
theorem splitOn_lines {α : Type} [BEq α] [LawfulBEq α] {newline : α} {lines : List (List α)}
    (h : ∀ line ∈ lines, newline ∉ line) :
    (lines.flatMap (· ++ [newline])).splitOn newline = lines ++ [[]] := by
  induction lines with
  | nil => rfl
  | cons line lines ih =>
    obtain ⟨hline, hlines⟩ := List.forall_mem_cons.1 h
    have hfirst : line.splitOn newline = [line] := by
      apply List.splitOn_eq_singleton_of_beq_eq_false
      intro c hc
      exact beq_false_of_ne fun hnewline => hline (hnewline ▸ hc)
    rw [List.splitOn_eq_splitOnP] at ih hfirst ⊢
    rw [List.flatMap_cons, List.append_assoc, List.singleton_append,
      List.splitOnP_append_cons (p := (· == newline)) _ _ BEq.rfl, hfirst, ih hlines]
    rfl

end Text

/-! ### The line of an instruction -/

theorem mem_of_lookup {α β : Type} [BEq α] [LawfulBEq α] {entries : List (α × β)} {a : α} {b : β}
    (h : entries.lookup a = some b) : (a, b) ∈ entries := by
  obtain ⟨before, after, hentries, -⟩ := List.lookup_eq_some_iff.1 h
  simp [hentries]

theorem Opcode.oneLine_mnemonic (op : Opcode) : OneLine op.mnemonic := by
  have hknown : ∀ p ∈ mnemonics, OneLine p.2 := by decide +kernel
  unfold mnemonic
  split
  · rename_i known h
    exact hknown (op, known) (mem_of_lookup h)
  · rw [oneLine_append, oneLine_append]
    exact ⟨⟨by decide, oneLine_repr op.code.toNat⟩, by decide⟩

@[simp] theorem oneLine_extendedName (n : Word) : OneLine (extendedName n) := by
  have hknown : ∀ p ∈ extendedNames, OneLine p.2 := by decide +kernel
  unfold extendedName
  cases h : extendedNames.lookup n with
  | none => exact oneLine_toString n
  | some known => exact hknown (n, known) (mem_of_lookup h)

namespace OperandClass

@[simp] theorem oneLine_show (cls : OperandClass) (w : Word) : OneLine (cls.show w) := by
  cases cls <;> exact oneLine_append.2 ⟨by decide, by simp⟩

@[simp] theorem oneLine_showAll (cls : OperandClass) (ws : List Word) :
    OneLine (cls.showAll ws) := by
  simp [showAll]

end OperandClass

namespace Instruction

@[simp] theorem oneLine_showString (ws : List Word) : OneLine (showString ws) :=
  oneLine_append.2 ⟨by decide, oneLine_quote _⟩

theorem oneLine_showOperands (inst : Instruction) : OneLine inst.showOperands := by
  have hblank : OneLine " " := by decide
  unfold showOperands
  split <;> simp [hblank]

theorem oneLine_showResult (inst : Instruction) : OneLine inst.showResult := by
  unfold showResult
  dsimp only
  rw [oneLine_append, oneLine_ofList]
  refine ⟨fun h => ?_, ?_⟩
  · cases List.eq_of_mem_replicate h
  · split
    · decide
    · exact oneLine_append.2 ⟨oneLine_idText _, by decide⟩

/-- The line of an instruction is one line. -/
theorem oneLine_text (inst : Instruction) : OneLine inst.text := by
  have htype : OneLine (if inst.resultType = 0 then "" else " " ++ idText inst.resultType) := by
    split
    · decide
    · exact oneLine_append.2 ⟨by decide, oneLine_idText _⟩
  rw [text, oneLine_append, oneLine_append, oneLine_append]
  refine ⟨⟨⟨inst.oneLine_showResult, ?_⟩, htype⟩, inst.oneLine_showOperands⟩
  exact inst.opcode.oneLine_mnemonic

end Instruction

/-! ### Operands by position -/

theorem wordsFrom?_eq {ws : List Word} {n : Nat} (h : n ≤ ws.length) :
    wordsFrom? ws n = some (ws.drop n) :=
  if_pos h

namespace OperandClass

theorem showSplit?_eq {first second : OperandClass} {ws : List Word} {n : Nat}
    (h : n ≤ ws.length) : showSplit? first second ws n =
      some (first.showAll (ws.take n) ++ second.showAll (ws.drop n)) := by
  rw [showSplit?, wordsUpTo?, if_pos h, wordsFrom?_eq h]
  rfl

theorem showAll_cons (cls : OperandClass) (w : Word) (ws : List Word) :
    cls.showAll (w :: ws) = cls.show w ++ cls.showAll ws := by
  simp [showAll]

theorem showSplit?_one (first second : OperandClass) (w : Word) (ws : List Word) :
    showSplit? first second (w :: ws) 1 = some (first.show w ++ second.showAll ws) := by
  have hfirst : first.showAll [w] = first.show w := by simp [showAll]
  rw [showSplit?_eq (by simp), ← hfirst]
  rfl

end OperandClass

namespace Instruction

open OperandClass

/-- The name of an entry point takes no more words than there are, also if no zero byte ends it. -/
theorem showEntryPoint?_eq (model entry : Word) (rest : List Word) :
    showEntryPoint? (model :: entry :: rest) =
      some (OperandClass.literal.show model ++ OperandClass.id.show entry ++ " " ++
        quote (Literal.decode rest).1 ++
        OperandClass.id.showAll (rest.drop (Literal.decode rest).2)) := by
  have hname := Literal.length_decode_le rest
  have hids : wordsFrom? (model :: entry :: rest) (2 + (Literal.decode rest).2) =
      some (rest.drop (Literal.decode rest).2) := by
    rw [wordsFrom?_eq (by simp only [List.length_cons]; omega), Nat.add_comm]
    rfl
  rw [showEntryPoint?, wordsFrom?_eq (by simp)]
  simp [hids, showAt?]

/-- No position is out of range, and what is shown is the text of the operands. -/
theorem showOperands?_eq (inst : Instruction) : inst.showOperands? = some inst.showOperands := by
  obtain ⟨op, type, id, ws⟩ := inst
  unfold showOperands?
  dsimp only
  -- one case for each opcode with a shape, in the order of the definition
  split
  -- a name, of an id or of a member
  iterate 2
    · rcases ws with _ | ⟨target, _ | ⟨member, rest⟩⟩ <;> rfl
  -- strings
  iterate 5
    · rfl
  · rcases ws with _ | ⟨model, _ | ⟨entry, rest⟩⟩
    · rfl
    · rfl
    · exact showEntryPoint?_eq model entry rest
  · rcases ws with _ | ⟨set, _ | ⟨n, rest⟩⟩ <;> rfl
  -- an element taken out of a composite, and one put into it
  · rcases ws with _ | ⟨composite, indices⟩
    · rfl
    · exact showSplit?_one ..
  · rcases ws with _ | ⟨object, _ | ⟨composite, indices⟩⟩
    · rfl
    · rfl
    · exact showSplit?_eq (by simp)
  -- the type of an array is shown with a length that is an id, the other types with a number
  · rcases ws with _ | ⟨element, length⟩
    · rfl
    · exact (showSplit?_one ..).trans (congrArg some (showAll_cons ..).symm)
  iterate 6
    · rcases ws with _ | ⟨first, rest⟩
      · rfl
      · exact showSplit?_one ..
  -- a pointer type, and a function
  iterate 2
    · rcases ws with _ | ⟨first, _ | ⟨second, rest⟩⟩
      · rfl
      · rfl
      · exact showSplit?_one ..
  -- no other opcode has a shape
  · unfold showOperands
    split
    all_goals try contradiction
    rfl

/-- Every instruction has a line. -/
theorem text?_eq (inst : Instruction) : inst.text? = some inst.text := by
  rw [text?, showOperands?_eq]
  rfl

end Instruction

namespace Module

/-- Every module has a listing. -/
theorem listing?_eq (m : Module) : m.listing? = some m.listing := by
  have htext : Instruction.text? = fun inst => pure inst.text := funext Instruction.text?_eq
  rw [listing?, htext, List.mapM_pure]
  rfl

theorem oneLine_headerLines (m : Module) : ∀ line ∈ m.headerLines, OneLine line := by
  have hversion : OneLine m.header.version.text := by
    rw [Version.text, oneLine_append, oneLine_append]
    exact ⟨⟨oneLine_repr _, by decide⟩, oneLine_repr _⟩
  simp only [headerLines, List.forall_mem_cons, oneLine_append]
  refine ⟨by decide, ⟨by decide, hversion⟩, ⟨by decide, oneLine_hex _⟩, ⟨by decide, ?_⟩,
    ⟨by decide, ?_⟩, by simp⟩
  · exact oneLine_toString _
  · exact oneLine_toString _

theorem oneLine_lines (m : Module) : ∀ line ∈ m.lines, OneLine line := by
  rw [lines, List.forall_mem_append]
  refine ⟨m.oneLine_headerLines, fun line hline => ?_⟩
  obtain ⟨inst, -, rfl⟩ := List.mem_map.1 hline
  exact inst.oneLine_text

theorem toList_listing (m : Module) :
    m.listing.toList = (m.lines.map String.toList).flatMap (· ++ ['\n']) := by
  simp [listing, List.flatMap_map]

/-- **A listing has one line for each instruction.** Whatever a module holds, no operand is looked
for out of range, and the listing is five lines and then the line of each instruction in order, each
followed by a newline and none with a newline inside. -/
theorem listing_by_line (m : Module) :
    m.listing? = some m.listing ∧ (∀ inst : Instruction, inst.text? = some inst.text) ∧
      m.headerLines.length = 5 ∧
      m.listing.toList.splitOn '\n' =
        (m.headerLines ++ m.instructions.map Instruction.text).map String.toList ++ [[]] ∧
      ∀ line ∈ m.headerLines ++ m.instructions.map Instruction.text, '\n' ∉ line.toList := by
  have hlines : ∀ line ∈ m.lines.map String.toList, '\n' ∉ line := by
    intro line hline
    obtain ⟨s, hs, rfl⟩ := List.mem_map.1 hline
    exact m.oneLine_lines s hs
  refine ⟨m.listing?_eq, Instruction.text?_eq, rfl, ?_, m.oneLine_lines⟩
  rw [toList_listing, splitOn_lines hlines]
  rfl

/-- A module with an entry point whose name no zero byte ends, an instruction without the operands
that its opcode needs, and a name with a newline. -/
def misshapen : Module where
  header := { version := ⟨1, 3⟩ }
  entryPoints := [{ opcode := .entryPoint, operands := [5, 1, 0x64636261] }]
  names := [{ opcode := .memberName }, { opcode := .name, operands := [1, 0x00620A61] }]

theorem listing_by_line_misshapen :
    misshapen.instructions.map Instruction.text =
        ["               OpEntryPoint 5 %1 \"abcd\"", "               OpMemberName",
          "               OpName %1 \"a\\nb\""] ∧
      (misshapen.listing.toList.splitOn '\n').length = 9 ∧
      '\n' ∉ "               OpName %1 \"a\\nb\"".toList := by
  have htexts : misshapen.instructions.map Instruction.text =
      ["               OpEntryPoint 5 %1 \"abcd\"", "               OpMemberName",
        "               OpName %1 \"a\\nb\""] := by decide +kernel
  obtain ⟨-, -, hheader, hlines, hnewline⟩ := listing_by_line misshapen
  refine ⟨htexts, ?_, hnewline _ (List.mem_append_right _ (by simp [htexts]))⟩
  rw [hlines, List.length_append, List.length_map, List.length_append, hheader, List.length_map]
  rfl

end Module

end ShaderGraft
