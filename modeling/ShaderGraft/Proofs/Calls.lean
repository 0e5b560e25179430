import ShaderGraft.Proofs.Changes

/-!
# Calls of a builder

`Builder.Call` lists what a caller can ask a builder for, and `Call.run` is the step that does it.
`Call.changes` says once what the calls do to a module, whether they fail or not: at most one id is
taken, all that is added has it or is without a result, and what a call gives back after taking an
id is that id. The two calls that put in what the caller made, `Call.insert` and
`Call.beginBlockWithLabel`, are treated on their own (`Call.run_given`).
-/

namespace ShaderGraft

/-! ### Taking at most one id -/

namespace Declare

variable {α β : Type} {kind : Module → ResultId → Prop}

/-- What a step does that declares at most one thing with a result: it takes the next id for it, and
then it gives nothing else back. -/
def Numbers (kind : Module → ResultId → Prop) (x : Declare α) (id? : α → Option ResultId) : Prop :=
  ∀ m, ∃ n ≤ 1, m.Changes Instruction.Plain kind n (x.run m).2 ∧
    (n = 1 → ∀ id, id? (x.run m).1 = some id → id = m.header.bound)

/-- A step that takes no id. -/
theorem numbers_of_changes {x : Declare α} {id? : α → Option ResultId}
    (h : ∀ m : Module, m.Changes Instruction.Plain kind 0 (x.run m).2) : x.Numbers kind id? :=
  fun m => ⟨0, Nat.zero_le 1, h m, by simp⟩

theorem Numbers.after {x : Declare α} {f : α → Declare β} {id? : β → Option ResultId}
    (hx : ∀ m : Module, m.Changes Instruction.Plain kind 0 (x.run m).2)
    (hf : ∀ a, (f a).Numbers kind id?) : (x >>= f).Numbers kind id? := by
  intro m
  obtain ⟨n, hn, hchanges, hid⟩ := hf (x.run m).1 (x.run m).2
  refine ⟨n, hn, Nat.zero_add n ▸ (hx m).trans hchanges, fun h1 id h => ?_⟩
  rw [hid h1 id h, (hx m).bound]
  exact UInt32.add_zero _

theorem numbers_global {op : Opcode} {type : ResultId} (operands : List Word)
    (hop : op.placement = .within .globals)
    (htyped : ∀ m, ({ opcode := op, resultType := type } : Instruction).Typed (kind m)) :
    (global op type operands).Numbers kind some := by
  intro m
  rw [run_global]
  cases m.globals.find? (declares op type operands) with
  | some inst => exact ⟨0, Nat.zero_le 1, .refl, by simp⟩
  | none =>
    have hadds : Module.Adds
        { opcode := op, resultType := type, resultId := m.header.bound, operands } m.takeId _ :=
      .within hop
    refine ⟨1, Nat.le_refl 1, .new .refl rfl ?_ hadds, fun _ id h => ?_⟩
    · exact htyped m
    · exact (Option.some.inj h).symm

theorem numbers_type {op : Opcode} (operands : List Word) (hop : op.placement = .within .globals)
    (hlayout : op.layout = .id) : (global op 0 operands).Numbers kind some :=
  numbers_global operands hop fun _ => .inl ⟨hlayout, rfl⟩

theorem numbers_constant {op : Opcode} {type : ResultId} (operands : List Word)
    (hop : op.placement = .within .globals) (hlayout : op.layout = .typed)
    (htype : ∀ m, kind m type) : (global op type operands).Numbers kind some :=
  numbers_global operands hop fun m => .inr ⟨hlayout, htype m⟩

theorem numbers_extInstImport (name : Bytes) : (extInstImport name).Numbers kind some := by
  intro m
  rw [run_extInstImport]
  cases m.imports.find? _ with
  | some inst => exact ⟨0, Nat.zero_le 1, .refl, by simp⟩
  | none =>
    have hadds : Module.Adds
        { opcode := .extInstImport, resultId := m.header.bound, operands := Literal.encode name }
        m.takeId _ :=
      .within rfl
    refine ⟨1, Nat.le_refl 1, .new .refl rfl (.inl ⟨?_, rfl⟩) hadds, fun _ id h => ?_⟩
    · exact (by decide : Opcode.extInstImport.layout = .id)
    · exact (Option.some.inj h).symm

theorem changes_append {s : Section} {op : Opcode} (operands : List Word)
    (hlayout : op.layout = .none) (hs : op.placement = .within s) (m : Module) :
    m.Changes Instruction.Plain kind 0 ((append s { opcode := op, operands }).run m).2 :=
  .put .refl ⟨rfl, rfl, hlayout⟩ (.within hs)

theorem changes_capability (c : Word) (m : Module) :
    m.Changes Instruction.Plain kind 0 ((capability c).run m).2 := by
  rw [run_capability]
  split
  · exact .refl
  · have hadds : Module.Adds { opcode := .capability, operands := [c] } m _ := .within rfl
    exact .put .refl ⟨rfl, rfl, show Opcode.capability.layout = .none by decide⟩ hadds

theorem changes_memoryModel (addressing memory : Word) (m : Module) :
    m.Changes Instruction.Plain kind 0 ((memoryModel addressing memory).run m).2 :=
  .memoryModel .refl rfl ⟨rfl, rfl, show Opcode.memoryModel.layout = .none by decide⟩

/-- A type that needs a capability if it has 64 bits. -/
theorem numbers_sized {op : Opcode} (width c : Word) (operands : List Word)
    (hop : op.placement = .within .globals) (hlayout : op.layout = .id) :
    Numbers kind (do
      if width = 64 then capability c
      global op 0 operands) some := by
  have htype : (global op 0 operands).Numbers kind some := numbers_type operands hop hlayout
  by_cases hw : width = 64
  · simp only [if_pos hw]
    exact .after (changes_capability c) fun _ => htype
  · simp only [if_neg hw]
    exact htype

end Declare

namespace Build

variable {α : Type} {kind : Module → ResultId → Prop}

/-- What a step does to a builder if it makes at most one instruction with a result. -/
def NumbersAt (kind : Module → ResultId → Prop) (x : Build α) (id? : α → Option ResultId)
    (b : Builder) : Prop :=
  ∃ n ≤ 1, b.target.Changes Instruction.Plain kind n (endState x b).target ∧
    (n = 1 → ∀ a c id, x.run b = .ok a c → id? a = some id → id = b.target.header.bound)

/-- What a step does that makes at most one instruction with a result. -/
def Numbers (kind : Module → ResultId → Prop) (x : Build α) (id? : α → Option ResultId) : Prop :=
  ∀ b, NumbersAt kind x id? b

namespace NumbersAt

variable {x : Build α} {id? : α → Option ResultId} {b c : Builder}

theorem of_changes (h : b.target.Changes Instruction.Plain kind 0 (endState x b).target) :
    NumbersAt kind x id? b :=
  ⟨0, Nat.zero_le 1, h, by simp⟩

/-- A step that leaves the module as it is. -/
theorem of_target (h : (endState x b).target = b.target) : NumbersAt kind x id? b := by
  refine of_changes ?_
  rw [h]
  exact .refl

theorem of_error {e : BuildError} (h : x.run b = .error e b) : NumbersAt kind x id? b := by
  refine of_target ?_
  rw [endState, h]

/-- A step that loses an id. -/
theorem of_lost {e : BuildError} (h : x.run b = .error e (b.withTarget b.target.takeId)) :
    NumbersAt kind x id? b := by
  refine ⟨1, Nat.le_refl 1, ?_, by simp [h]⟩
  rw [endState, h]
  exact .take .refl

/-- A step that takes an id for a new instruction. -/
theorem of_ok {a : α} {inst : Instruction} (h : x.run b = .ok a c)
    (hid : id? a = some b.target.header.bound) (hinst : inst.resultId = b.target.header.bound)
    (htyped : inst.Typed (kind b.target)) (hadds : Module.Adds inst b.target.takeId c.target) :
    NumbersAt kind x id? b := by
  refine ⟨1, Nat.le_refl 1, ?_, fun _ a' c' id h' ha => ?_⟩
  · rw [endState, h]
    exact .new .refl hinst htyped hadds
  · cases h.symm.trans h'
    exact Option.some.inj (ha.symm.trans hid)

end NumbersAt

theorem run_map {β : Type} (f : α → β) (x : Build α) (b : Builder) :
    (f <$> x).run b = match x.run b with
      | .ok a c => .ok (f a) c
      | .error e c => .error e c := by
  change EStateM.map f x b = _
  rw [EStateM.map, EStateM.run]
  cases x b <;> rfl

theorem endState_map {β : Type} (f : α → β) (x : Build α) (b : Builder) :
    endState (f <$> x) b = endState x b := by
  rw [endState, endState, run_map]
  cases x.run b <;> rfl

theorem Numbers.map {x : Build α} {id? : α → Option ResultId} (h : x.Numbers kind id?) :
    Numbers kind (id? <$> x) id := by
  intro b
  obtain ⟨n, hn, hchanges, hid⟩ := h b
  refine ⟨n, hn, by rwa [endState_map], fun h1 a c id hrun ha => ?_⟩
  rw [run_map] at hrun
  cases hx : x.run b with
  | error e c' => simp [hx] at hrun
  | ok a' c' =>
    simp only [hx, EStateM.Result.ok.injEq] at hrun
    obtain ⟨rfl, rfl⟩ := hrun
    exact hid h1 a' c' id hx ha

theorem numbers_declare {x : Declare α} {id? : α → Option ResultId} (h : x.Numbers kind id?) :
    (declare x).Numbers kind id? := by
  intro b
  obtain ⟨n, hn, hchanges, hid⟩ := h b.target
  refine ⟨n, hn, hchanges, fun h1 a c id hrun ha => ?_⟩
  cases hrun
  exact hid h1 id ha

theorem numbers_fresh : fresh.Numbers kind some := by
  intro b
  refine ⟨1, Nat.le_refl 1, .take .refl, fun _ a c id h ha => ?_⟩
  cases h
  exact (Option.some.inj ha).symm

theorem numbers_emit {op : Opcode} {type : ResultId} (operands : List Word)
    (hlayout : op.layout = .typed) (hbody : op.IsBody) (htype : ∀ m, kind m type) :
    (emit op type operands).Numbers kind some := by
  intro b
  cases hsel : b.selected? with
  | none =>
    obtain ⟨e, he⟩ := run_emit_none hsel op type operands
    exact .of_lost he
  | some block =>
    have hrun := run_emit hsel op type operands
    exact .of_ok hrun rfl rfl (.inr ⟨hlayout, htype _⟩) (Module.adds_appendTo hsel rfl hbody)

theorem numbers_insert {op : Opcode} (operands : List Word) (hlayout : op.layout = .none)
    (hbody : op.IsBody) {id? : Unit → Option ResultId} :
    (insert { opcode := op, operands }).Numbers kind id? := by
  intro b
  cases hsel : b.selected? with
  | none =>
    obtain ⟨e, he⟩ := run_insert_none hsel { opcode := op, operands }
    exact .of_error he
  | some block =>
    refine .of_changes ?_
    rw [endState, run_insert hsel]
    exact .put .refl ⟨rfl, rfl, hlayout⟩ (Module.adds_appendTo hsel rfl hbody)

theorem target_selectFunction (index : Int) (b : Builder) :
    (endState (selectFunction index) b).target = b.target := by
  simp only [endState, selectFunction, EStateM.run_bind, EStateM.run_get]
  by_cases hrange : 0 ≤ index ∧ index < b.target.functions.length
  · simp only [if_pos hrange]
    rfl
  · simp only [if_neg hrange]
    rfl

theorem target_selectBlock (index : Int) (b : Builder) :
    (endState (selectBlock index) b).target = b.target := by
  simp only [endState, selectBlock, EStateM.run_bind, EStateM.run_get]
  cases b.selection.function with
  | none => rfl
  | some f =>
    by_cases hneg : index < 0
    · simp only [if_pos hneg]
      rfl
    · simp only [if_neg hneg]
      cases b.target.functions[f]? with
      | none => rfl
      | some fn =>
        by_cases hlt : index < fn.blocks.length
        · simp only [if_pos hlt]
          rfl
        · simp only [if_neg hlt]
          rfl

theorem run_beginBlockWithLabel {b : Builder} {index : Nat} {f : Function}
    (hindex : b.selection.function = some index) (hf : b.target.functions[index]? = some f)
    (label : ResultId) :
    (beginBlockWithLabel label).run b = .ok f.blocks.length
      { target := { b.target with
          functions := b.target.functions.set index { f with
            blocks := f.blocks ++ [{ label := { opcode := .label, resultId := label } }] } }
        selection := { b.selection with block := some f.blocks.length } } := by
  simp only [beginBlockWithLabel, EStateM.run_bind, EStateM.run_get, hindex, hf]
  rfl

theorem run_beginBlockWithLabel_none {b : Builder}
    (h : ∀ index, b.selection.function = some index → b.target.functions[index]? = none)
    (label : ResultId) : ∃ e, (beginBlockWithLabel label).run b = .error e b := by
  simp only [beginBlockWithLabel, EStateM.run_bind, EStateM.run_get]
  cases hindex : b.selection.function with
  | none => exact ⟨_, rfl⟩
  | some index =>
    simp only [h index hindex]
    exact ⟨_, rfl⟩

theorem run_beginBlock {b : Builder} {index : Nat} {f : Function}
    (hindex : b.selection.function = some index) (hf : b.target.functions[index]? = some f) :
    beginBlock.run b = .ok (b.target.header.bound, f.blocks.length)
      { target := { b.target.takeId with
          functions := b.target.functions.set index { f with
            blocks := f.blocks ++
              [{ label := { opcode := .label, resultId := b.target.header.bound } }] } }
        selection := { b.selection with block := some f.blocks.length } } := by
  have hblock := run_beginBlockWithLabel (b := b.withTarget b.target.takeId) hindex hf
    b.target.header.bound
  simp only [beginBlock, EStateM.run_bind, EStateM.run_get, hindex, Option.isNone_some,
    Bool.false_eq_true, if_false, run_fresh, hblock]
  rw [← hindex]
  rfl

theorem numbers_beginBlock : beginBlock.Numbers kind fun r => some r.1 := by
  intro b
  cases hindex : b.selection.function with
  | none =>
    have hrun : beginBlock.run b = .error (.refused .noFunctionSelected) b := by
      simp only [beginBlock, EStateM.run_bind, EStateM.run_get, hindex]
      rfl
    exact .of_error hrun
  | some index =>
    cases hf : b.target.functions[index]? with
    | none =>
      -- the function is gone, and the id is lost
      have hgone (i : Nat) (hi : b.selection.function = some i) :
          b.target.functions[i]? = none := by
        cases hindex.symm.trans hi
        exact hf
      obtain ⟨e, he⟩ := run_beginBlockWithLabel_none (b := b.withTarget b.target.takeId) hgone
        b.target.header.bound
      have hrun : beginBlock.run b = .error e (b.withTarget b.target.takeId) := by
        simp only [beginBlock, EStateM.run_bind, EStateM.run_get, hindex, Option.isNone_some,
          Bool.false_eq_true, if_false, run_fresh, he]
      exact .of_lost hrun
    | some f =>
      let inst : Instruction := { opcode := .label, resultId := b.target.header.bound }
      have htyped : inst.Typed (kind b.target) :=
        .inl ⟨(by decide : Opcode.label.layout = .id), rfl⟩
      exact .of_ok (run_beginBlock hindex hf) rfl rfl htyped (.inside hf (.label rfl))

theorem numbers_beginFunction {result : ResultId} (control : Word) (type : ResultId)
    (hresult : ∀ m, kind m result) : (beginFunction result control type).Numbers kind some := by
  intro b
  let inst : Instruction := {
    opcode := .function
    resultType := result
    resultId := b.target.header.bound
    operands := [control, type] }
  have htyped : inst.Typed (kind b.target) :=
    .inr ⟨(by decide : Opcode.function.layout = .typed), hresult _⟩
  exact .of_ok rfl rfl rfl htyped (.function rfl)

theorem run_functionParameter {b : Builder} {index : Nat} {f : Function}
    (hindex : b.selection.function = some index) (hf : b.target.functions[index]? = some f)
    (hblocks : f.blocks.isEmpty = true) (type : ResultId) :
    (functionParameter type).run b = .ok b.target.header.bound (b.withTarget
      { b.target.takeId with functions := b.target.functions.set index { f with
          parameters := f.parameters ++ [
            { opcode := .functionParameter, resultType := type
              resultId := b.target.header.bound }] } }) := by
  simp only [functionParameter, EStateM.run_bind, EStateM.run_get, hindex, hf, hblocks]
  rfl

theorem numbers_functionParameter {type : ResultId} (htype : ∀ m, kind m type) :
    (functionParameter type).Numbers kind some := by
  intro b
  cases hindex : b.selection.function with
  | none =>
    have hrun : (functionParameter type).run b = .error (.misuse .noFunctionSelected) b := by
      simp only [functionParameter, EStateM.run_bind, EStateM.run_get, hindex]
      rfl
    exact .of_error hrun
  | some index =>
    cases hf : b.target.functions[index]? with
    | none =>
      have hrun : (functionParameter type).run b = .error .lost b := by
        simp only [functionParameter, EStateM.run_bind, EStateM.run_get, hindex, hf]
        rfl
      exact .of_error hrun
    | some f =>
      cases hblocks : f.blocks.isEmpty with
      | false =>
        have hrun : (functionParameter type).run b = .error (.misuse .parameterAfterBlock) b := by
          simp only [functionParameter, EStateM.run_bind, EStateM.run_get, hindex, hf, hblocks]
          rfl
        exact .of_error hrun
      | true =>
        let inst : Instruction :=
          { opcode := .functionParameter, resultType := type, resultId := b.target.header.bound }
        have htyped : inst.Typed (kind b.target) :=
          .inr ⟨(by decide : Opcode.functionParameter.layout = .typed), htype _⟩
        exact .of_ok (run_functionParameter hindex hf hblocks type) rfl rfl htyped
          (.inside hf (.parameter rfl))

end Build

/-! ### All calls -/

namespace Builder.Call

open Build

theorem numbers (c : Call) (h : c.given? = none) :
    c.run.Numbers (fun _ id => c.resultType? = some id) id := by
  cases c with
  | fresh => exact .map numbers_fresh
  | selectFunction index => exact .map fun b => .of_target (target_selectFunction index b)
  | selectBlock index => exact .map fun b => .of_target (target_selectBlock index b)
  | beginBlock => exact .map numbers_beginBlock
  | beginBlockWithLabel | insert => cases h
  | typeVoid | typeBool | typeVector | typeMatrix | typeArray | typeStruct | typePointer
  | typeFunction => exact .map (numbers_declare (Declare.numbers_type _ rfl (by decide)))
  | typeInt width | typeFloat width =>
    exact .map (numbers_declare (Declare.numbers_sized width _ _ rfl (by decide)))
  | constant | constant64 | constantComposite =>
    exact .map (numbers_declare (Declare.numbers_constant _ rfl (by decide) fun _ => rfl))
  | constantBool type value =>
    cases value
    · exact .map (numbers_declare (Declare.numbers_constant _ rfl (by decide) fun _ => rfl))
    · exact .map (numbers_declare (Declare.numbers_constant _ rfl (by decide) fun _ => rfl))
  | extInstImport set => exact .map (numbers_declare (Declare.numbers_extInstImport set))
  | capability c =>
    exact .map (numbers_declare (Declare.numbers_of_changes (Declare.changes_capability c)))
  | memoryModel addressing memory =>
    exact .map (numbers_declare
      (Declare.numbers_of_changes (Declare.changes_memoryModel addressing memory)))
  | entryPoint | executionMode | name =>
    exact .map (numbers_declare
      (Declare.numbers_of_changes (Declare.changes_append _ (by decide) rfl)))
  | beginFunction result control type =>
    exact .map (numbers_beginFunction control type fun _ => rfl)
  | functionParameter type => exact .map (numbers_functionParameter fun _ => rfl)
  | endFunction => exact .map fun _ => .of_target rfl
  | arithmetic op type x y =>
    exact .map (numbers_emit _ op.opcode_layout op.isBody_opcode fun _ => rfl)
  | extInst | compositeConstruct | compositeExtract | functionCall | memoryVariable | load =>
    exact .map (numbers_emit _ (by decide) (by decide) fun _ => rfl)
  | store | branch | returnValue | returnVoid =>
    exact .map (numbers_insert _ (by decide) (by decide))

/-- What a call does to the module, whether it fails or not. -/
theorem changes (c : Call) (h : c.given? = none) (b : Builder) :
    b.target.Changes Instruction.Plain (fun _ id => c.resultType? = some id) (c.idsTaken b)
        (c.after b).target ∧
      (c.idsTaken b = 1 → ∀ id b', c.run.run b = .ok (some id) b' →
        id = b.target.header.bound) := by
  obtain ⟨n, hn, hchanges, hid⟩ := c.numbers h b
  have hbound : (c.after b).target.header.bound = b.target.header.bound + .ofNat n :=
    hchanges.bound
  have htaken : c.idsTaken b = n := by
    rw [idsTaken, hbound]
    rcases Nat.le_one_iff_eq_zero_or_eq_one.1 hn with rfl | rfl
    · exact if_pos (UInt32.add_zero _)
    · -- one more is never the same bound, also where it wraps around
      refine if_neg fun heq => ?_
      exact absurd (UInt32.add_eq_left.1 heq) (by decide)
  rw [htaken]
  exact ⟨hchanges, fun h1 id b' hrun => hid h1 _ b' id hrun rfl⟩

/-- A call with an instruction of the caller fails without an effect or puts it in its place. -/
theorem run_given {c : Call} {inst : Instruction} (h : c.given? = some inst) (b : Builder) :
    (∃ e, c.run.run b = .error e b) ∨
      ∃ b', c.run.run b = .ok none b' ∧ Module.Gains inst b.target b'.target ∧
        ((∀ i ∈ c.inserted?, i.opcode.IsBody) → Module.Adds inst b.target b'.target) := by
  cases c with
  | insert =>
    cases h
    cases hsel : b.selected? with
    | none =>
      obtain ⟨e, he⟩ := run_insert_none hsel inst
      exact .inl ⟨e, by rw [run, run_map, he]⟩
    | some block =>
      refine .inr ⟨_, by rw [run, run_map, run_insert hsel], Module.gains_appendTo hsel inst, ?_⟩
      exact fun hbody => Module.adds_appendTo hsel rfl (hbody inst rfl)
  | beginBlockWithLabel label =>
    cases h
    by_cases hf : ∃ index f, b.selection.function = some index ∧
        b.target.functions[index]? = some f
    · obtain ⟨index, f, hindex, hf⟩ := hf
      have hadds : Module.Adds { opcode := .label, resultId := label } b.target _ :=
        .inside hf (.label rfl)
      exact .inr ⟨_, by rw [run, run_map, run_beginBlockWithLabel hindex hf], hadds.gains,
        fun _ => hadds⟩
    · have hgone (index : Nat) (hindex : b.selection.function = some index) :
          b.target.functions[index]? = none := by
        cases hget : b.target.functions[index]? with
        | none => rfl
        | some f => exact absurd ⟨index, f, hindex, hget⟩ hf
      obtain ⟨e, he⟩ := run_beginBlockWithLabel_none hgone label
      exact .inl ⟨e, by rw [run, run_map, he]⟩
  | _ => cases h

end Builder.Call

end ShaderGraft
