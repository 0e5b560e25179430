import Mathlib.Data.List.Forall2
import ShaderGraft.Proofs.Encoding

/-!
# Splitting a stream into instructions

`Splits ws insts` says that the words are those of the instructions one after the other, each as
long as its first word tells. A scan that reaches the end of the stream finds exactly this split
(`splits_scanFrom`, `Splits.scanFrom_eq`), so there is at most one (`Splits.unique`).

The words of a list of instructions split back into them if all result slots are filled and no
instruction is too long (`splits_words`). A split in which an instruction has a zero slot is longer
than the words of its instructions (`Splits.length_words_le`, `Splits.slotsFilled_of_length`).
-/

namespace ShaderGraft

open Scan

/-- The words are those of the instructions, each as long as its first word tells. -/
inductive Splits : List Word → List Instruction → Prop where
  | nil : Splits [] []
  | cons {w : Word} {ws rest : List Word} {inst : Instruction} {insts : List Instruction} :
    length w = ws.length + 1 → Instruction.ofWords (opcode w) ws = .ok inst → Splits rest insts →
      Splits (w :: (ws ++ rest)) (inst :: insts)

namespace Scan

theorem scanFrom_nil (skip offset : Nat) :
    scanFrom skip offset [] = { items := [], failure := none } := by
  cases skip <;> rfl

theorem scanFrom_skip (skip offset : Nat) (ws : List Word) :
    scanFrom skip offset ws = scanFrom 0 (offset + skip) (ws.drop skip) := by
  induction skip generalizing offset ws with
  | zero => rfl
  | succ skip ih =>
    cases ws with
    | nil => simp [scanFrom_nil]
    | cons w ws =>
      rw [scanFrom, ih, List.drop_succ_cons]
      congr 1
      omega

/-- A scan at the first word of an instruction that can be read. -/
theorem scanFrom_cons {w : Word} {ws : List Word} (rest : List Word) (offset : Nat)
    {inst : Instruction} (hlen : length w = ws.length + 1)
    (hinst : Instruction.ofWords (opcode w) ws = .ok inst) :
    scanFrom 0 offset (w :: (ws ++ rest)) =
      (scanFrom 0 (offset + length w) rest).cons { offset, inst } := by
  have hskip : offset + 1 + (length w - 1) = offset + length w := by omega
  rw [scanFrom]
  simp only [hlen, Nat.add_sub_cancel, List.take_left, Nat.lt_irrefl, if_false, hinst]
  rw [if_neg (by omega), scanFrom_skip, List.drop_left]
  congr 2
  omega

theorem scanFrom_failure_cons {w : Word} {ws : List Word} {offset : Nat}
    (h : (scanFrom 0 offset (w :: ws)).failure = none) :
    length w ≠ 0 ∧ length w - 1 ≤ ws.length ∧
      ∃ inst, Instruction.ofWords (opcode w) (ws.take (length w - 1)) = .ok inst := by
  rw [scanFrom] at h
  split at h
  · cases h
  split at h
  · cases h
  rename_i hzero hshort
  rw [List.length_take] at hshort
  split at h
  · cases h
  · rename_i inst hinst
    exact ⟨hzero, by omega, inst, hinst⟩

end Scan

/-- A scan that reaches the end of the stream has split it. -/
theorem splits_scanFrom {offset : Nat} {ws : List Word}
    (h : (scanFrom 0 offset ws).failure = none) :
    Splits ws ((scanFrom 0 offset ws).items.map (·.inst)) := by
  -- The scan goes on behind the words of an instruction, so the induction is on their number.
  induction hn : ws.length using Nat.strongRecOn generalizing offset ws with
  | ind n ih =>
    cases ws with
    | nil => exact .nil
    | cons w ws =>
      obtain ⟨hzero, hshort, inst, hinst⟩ := scanFrom_failure_cons h
      have hlen : length w = (ws.take (length w - 1)).length + 1 := by
        rw [List.length_take]
        omega
      rw [← List.take_append_drop (length w - 1) ws, scanFrom_cons _ _ hlen hinst] at h ⊢
      refine .cons hlen hinst (ih _ ?_ h rfl)
      simp only [List.length_cons] at hn
      rw [List.length_drop]
      omega

namespace Splits

theorem scanFrom_eq {ws : List Word} {insts : List Instruction} (h : Splits ws insts)
    (offset : Nat) : ∃ items, scanFrom 0 offset ws = { items, failure := none } ∧
      items.map (·.inst) = insts := by
  induction h generalizing offset with
  | nil => exact ⟨[], rfl, rfl⟩
  | @cons w ws rest inst insts hlen hinst _ ih =>
    obtain ⟨items, hscan, hitems⟩ := ih (offset + length w)
    refine ⟨{ offset, inst } :: items, ?_, by simp [hitems]⟩
    rw [scanFrom_cons _ _ hlen hinst, hscan]
    rfl

theorem unique {ws : List Word} {insts insts' : List Instruction} (h : Splits ws insts)
    (h' : Splits ws insts') : insts = insts' := by
  obtain ⟨items, hscan, rfl⟩ := h.scanFrom_eq 0
  obtain ⟨items', hscan', rfl⟩ := h'.scanFrom_eq 0
  rw [hscan] at hscan'
  cases hscan'
  rfl

/-- All instructions of a split are as reading gives them, and none is too long. -/
theorem decoded {ws : List Word} {insts : List Instruction} (h : Splits ws insts) :
    ∀ inst ∈ insts, inst.Decoded ∧ inst.wordCount ≤ Instruction.maxWords := by
  induction h with
  | nil => simp
  | @cons w ws rest inst insts hlen hinst _ ih =>
    obtain ⟨-, hdec, rfl⟩ := Instruction.ofWords_eq_ok.1 hinst
    have hcount := Instruction.wordCount_le_of_decoded hdec
    have hmax := Scan.length_le w
    rw [hlen, List.length_append] at hmax
    intro i hi
    rcases List.mem_cons.1 hi with rfl | hi
    · exact ⟨hdec, Nat.le_trans hcount hmax⟩
    · exact ih i hi

/-- The words of the instructions of a split are not more than the words that were split. -/
theorem length_words_le {ws : List Word} {insts : List Instruction} (h : Splits ws insts) :
    (insts.flatMap Instruction.words).length ≤ ws.length := by
  induction h with
  | nil => simp
  | cons _ hinst _ ih =>
    obtain ⟨-, hdec, rfl⟩ := Instruction.ofWords_eq_ok.1 hinst
    have hcount := Instruction.wordCount_le_of_decoded hdec
    simp only [List.flatMap_cons, List.length_append, List.length_cons, Instruction.length_words]
    omega

/-- If they are as many, then no result slot is zero. -/
theorem slotsFilled_of_length {ws : List Word} {insts : List Instruction} (h : Splits ws insts)
    (hlen : (insts.flatMap Instruction.words).length = ws.length) :
    ∀ inst ∈ insts, inst.SlotsFilled := by
  induction h with
  | nil => simp
  | @cons w ws rest inst insts _ hinst hrest ih =>
    obtain ⟨-, hdec, rfl⟩ := Instruction.ofWords_eq_ok.1 hinst
    have hle := hrest.length_words_le
    have hslots := Instruction.length_resultWords_le hdec
    simp only [List.flatMap_cons, List.length_append, List.length_cons, Instruction.length_words,
      Instruction.wordCount] at hlen
    intro i hi
    rcases List.mem_cons.1 hi with rfl | hi
    · exact Instruction.slotsFilled_of_length hdec (by omega)
    · exact ih (by omega) i hi

/-- A split without zero slots is the words of its instructions. -/
theorem eq_words {ws : List Word} {insts : List Instruction} (h : Splits ws insts)
    (hfilled : ∀ inst ∈ insts, inst.SlotsFilled) : ws = insts.flatMap Instruction.words := by
  induction h with
  | nil => rfl
  | @cons w ws rest inst insts hlen hinst hrest ih =>
    obtain ⟨hop, hdec, rfl⟩ := Instruction.ofWords_eq_ok.1 hinst
    have hslots := Instruction.resultWords_eq_slotWords (hfilled inst List.mem_cons_self)
    have hcount : inst.wordCount = length w := by
      rw [hlen, Instruction.wordCount, hslots, List.length_append]
      omega
    have hmax : inst.wordCount ≤ Instruction.maxWords := hcount ▸ Scan.length_le w
    have hw : w = inst.firstWord := by
      apply Scan.ext_firstWord
      · rw [Instruction.length_firstWord hmax, hcount]
      · rw [Instruction.opcode_firstWord hmax, hop]
    rw [List.flatMap_cons, ← ih fun i hi => hfilled i (List.mem_cons_of_mem _ hi), hw,
      Instruction.words, hslots]
    simp

/-- A split of the words of short enough instructions has one instruction for each of them, which is
what reading its words gives. -/
theorem of_words {insts read : List Instruction} (h : Splits (insts.flatMap Instruction.words) read)
    (hmax : ∀ inst ∈ insts, inst.wordCount ≤ Instruction.maxWords) :
    List.Forall₂ (fun inst read => Instruction.ofWords inst.opcode
      (inst.resultWords ++ inst.operands) = .ok read) insts read := by
  induction insts generalizing read with
  | nil =>
    cases h
    exact .nil
  | cons inst insts ih =>
    have hcount := hmax inst List.mem_cons_self
    have hlen := Instruction.length_firstWord hcount
    rw [List.flatMap_cons, Instruction.words, List.cons_append] at h
    generalize hstream : (inst.resultWords ++ inst.operands) ++ _ = stream at h
    cases h with
    | @cons _ ws rest first read hlen' hinst hrest =>
      -- Both cuts of the stream are made after as many words as the first word tells.
      have hws : (inst.resultWords ++ inst.operands).length = ws.length := by
        rw [hlen, Instruction.wordCount] at hlen'
        rw [List.length_append]
        omega
      obtain ⟨hpart, hpart'⟩ := List.append_inj hstream hws
      rw [Instruction.opcode_firstWord hcount] at hinst
      subst hpart'
      exact .cons (hpart ▸ hinst) (ih hrest fun i hi => hmax i (List.mem_cons_of_mem _ hi))

end Splits

/-- The words of instructions with filled slots split back into them. -/
theorem splits_words {insts : List Instruction}
    (h : ∀ inst ∈ insts, inst.SlotsFilled ∧ inst.wordCount ≤ Instruction.maxWords) :
    Splits (insts.flatMap Instruction.words) insts := by
  induction insts with
  | nil => exact .nil
  | cons inst insts ih =>
    obtain ⟨hfilled, hcount⟩ := h inst List.mem_cons_self
    refine .cons ?_ ?_ (ih fun i hi => h i (List.mem_cons_of_mem _ hi))
    · rw [Instruction.length_firstWord hcount, Instruction.wordCount, List.length_append]
      omega
    · rw [Instruction.opcode_firstWord hcount]
      exact Instruction.ofWords_resultWords_iff.2 hfilled

end ShaderGraft
