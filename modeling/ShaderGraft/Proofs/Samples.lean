import ShaderGraft.Proofs.Building
import ShaderGraft.Proofs.Completeness
import ShaderGraft.Proofs.Literals
import ShaderGraft.Sample

/-!
# Samples reflect their slots

Every slot of a sample gets a struct type, a parameter of the injectable function, and in the entry
point a value and a struct of the hash and the value. Types and constants are shared between slots,
so an id can belong to many of them. What is followed through the building of a sample is therefore
only that the declarations of a slot are there under their ids, wherever they came from (`HasTypes`,
`HasValues`, `Bundles`).

With distinct ids this is what the convention for runtime parameters asks for, slot by slot
(`conforms_slot`). The main statement is `reflects_slots`: reflecting a sample gives one parameter
for each slot, in order.
-/

namespace ShaderGraft

namespace Module

variable {m : Module}

theorem IdsDistinct.eq_of_resultId_eq (hm : m.IdsDistinct) {inst other : Instruction}
    (hinst : inst ∈ m.instructions) (hother : other ∈ m.instructions) (hid : inst.resultId ≠ 0)
    (h : inst.resultId = other.resultId) : inst = other := by
  have hfound := hm.definition?_eq hinst hid
  rw [h, hm.definition?_eq hother (h ▸ hid)] at hfound
  exact (Option.some.inj hfound).symm

/-- Where ids are distinct, a type is read from the id that it is declared under. -/
theorem HasGlobal.denotes (hm : m.IdsDistinct) {op : Opcode} {type id : ResultId}
    {operands : List Word} (h : m.HasGlobal op type operands id) (hop : op.layout ≠ .none)
    {t : ValueType} (ht : ValueType.Shape m m.Denotes
      { opcode := op, resultType := type, resultId := id, operands } t) : m.Denotes id t :=
  ⟨_, hm.global?_eq h (hm.ne_zero _ (m.sublist_globals.subset h) hop), typeOf_eq_ok_iff.2 ht⟩

theorem Denotes.ne_zero {id : ResultId} {t : ValueType} (h : m.Denotes id t) : id ≠ 0 := by
  rintro rfl
  obtain ⟨decl, hdecl, -⟩ := h
  cases hdecl

/-- No declaration of a module that was built from an empty one is a call. -/
theorem Issues.calls_eq_false {version : Version} (h : (empty version).Issues m) (id : ResultId)
    {inst : Instruction} (hinst : inst ∈ m.declarations) : calls id inst = false := by
  have hrouted := h.routed
  suffices hop : inst.opcode ≠ .functionCall by simp [calls, hop]
  intro hop
  have hsection {s : Section} (hmem : inst ∈ m.instructionsIn s) : False := by
    have hplacement := hrouted.sections s inst hmem
    rw [hop] at hplacement
    cases hplacement
    rcases h.noCalls inst hmem with hempty | hne
    · cases hempty
    · exact hne hop
  rw [m.declarations_eq, List.mem_append, List.mem_append, Option.mem_toList] at hinst
  rcases hinst with (hinst | hmodel) | hinst
  · obtain ⟨s, -, hmem⟩ := List.mem_flatMap.1 hinst
    exact hsection hmem
  · have hmodel' := hrouted.memoryModel inst hmodel
    rw [hop] at hmodel'
    cases hmodel'
  · obtain ⟨s, -, hmem⟩ := List.mem_flatMap.1 hinst
    exact hsection hmem

end Module

/-- The type of the value of a slot. -/
def Slot.valueType (s : Slot) : ValueType :=
  if s.size > 1 then .vector .f32 s.size else .f32

namespace Sample

open Build

variable {float uint : ResultId} {m m' : Module} {b : Builder}

/-! ### Types of slots -/

/-- Whether an id is that of the value type of a slot. -/
def HasValueType (m : Module) (float : ResultId) (s : Slot) (id : ResultId) : Prop :=
  if s.size > 1 then m.HasGlobal .typeVector 0 [float, s.size] id else id = float

theorem HasValueType.mono {s : Slot} {id : ResultId} (h : HasValueType m float s id)
    (hext : m.Issues m') : HasValueType m' float s id := by
  unfold HasValueType at h ⊢
  split at h
  · rw [if_pos ‹_›]
    exact hext.hasGlobal h
  · rwa [if_neg ‹_›]

/-- Whether the value type and the struct type of a slot are declared. -/
structure HasTypes (m : Module) (float uint : ResultId) (s : Slot) (types : ResultId × ResultId) :
    Prop where
  value : HasValueType m float s types.1
  struct : m.HasGlobal .typeStruct 0 [uint, types.1] types.2

theorem HasTypes.mono {s : Slot} {types : ResultId × ResultId} (h : HasTypes m float uint s types)
    (hext : m.Issues m') : HasTypes m' float uint s types :=
  ⟨h.value.mono hext, hext.hasGlobal h.struct⟩

theorem gives_slotTypes (slots : List Slot) :
    (slotTypes float uint slots).Gives m fun types m' =>
      List.Forall₂ (HasTypes m' float uint) slots types := by
  induction slots generalizing m with
  | nil => exact Declare.gives_pure .nil
  | cons s rest ih =>
    have hrest {value : ResultId} {m₁ : Module} (hvalue : HasValueType m₁ float s value) :
        Declare.Gives (do
          let struct ← Declare.typeStruct [uint, value]
          return (value, struct) :: (← slotTypes float uint rest)) m₁ fun types m' =>
            List.Forall₂ (HasTypes m' float uint) (s :: rest) types := by
      refine (Declare.gives_type _ rfl (by decide)).bind fun struct m₂ hext hstruct => ?_
      refine ih.bind fun types m₃ hext' htypes => Declare.gives_pure (.cons ?_ htypes)
      exact HasTypes.mono ⟨hvalue.mono hext.issues, hstruct⟩ hext'.issues
    rw [slotTypes]
    split
    · refine (Declare.gives_type _ rfl (by decide)).bind fun value m₁ _ hvalue => hrest ?_
      rwa [HasValueType, if_pos ‹_›]
    · refine hrest ?_
      rw [HasValueType, if_neg ‹_›]

/-! ### The injectable function -/

/-- The instruction that gives a debug name to an id. -/
def naming (id : ResultId) (text : Bytes) : Instruction :=
  { opcode := .name, operands := id :: Literal.encode text }

theorem run_name (id : ResultId) (text : Bytes) (b : Builder) :
    (declare (Declare.name id text)).run b =
      .ok () (b.withTarget (b.target.append (naming id text) .names)) :=
  rfl

theorem issues_naming (m : Module) (id : ResultId) (text : Bytes) :
    m.Issues (m.append (naming id text) .names) :=
  .append _ (by decide) rfl (by decide)

/-- Whether a function has parameters of the given types and two blocks, of which the second follows
the first. -/
structure IsInjectable (f : Function) (types : List ResultId) (entry next zero : ResultId) :
    Prop where
  parameters : f.parameters.map (·.resultType) = types
  blocks : f.blocks = [
    { label := { opcode := .label, resultId := entry }
      body := [{ opcode := .branch, operands := [next] }] },
    { label := { opcode := .label, resultId := next }
      body := [{ opcode := .returnValue, operands := [zero] }] }]

/-- The function itself calls no other. -/
theorem IsInjectable.opcode_ne {f : Function} {types : List ResultId} {entry next zero : ResultId}
    (h : IsInjectable f types entry next zero) (hf : f.Formed) {inst : Instruction}
    (hinst : inst ∈ f.instructions) : inst.opcode ≠ .functionCall := by
  rw [Function.instructions, h.blocks, List.mem_append, List.mem_append, List.mem_cons,
    List.mem_singleton] at hinst
  rcases hinst with ((rfl | hparameter) | hblock) | rfl
  · rw [hf.definition]
    decide
  · rw [hf.parameters inst hparameter]
    decide
  · simp only [List.flatMap_cons, List.flatMap_nil, Block.instructions, List.append_nil,
      List.cons_append, List.nil_append, List.mem_cons, List.not_mem_nil, or_false] at hblock
    rcases hblock with rfl | rfl | rfl | rfl <;> simp
  · rw [hf.ending]
    decide

theorem yields_injectable (float type zero : ResultId) (structs : List ResultId) :
    (injectable float type zero structs).Yields b fun function c =>
      b.target.Issues c.target ∧ ∃ f entry next, f.id = function ∧
        c.target.functions = b.target.functions ++ [f] ∧ IsInjectable f structs entry next zero ∧
        c.target.names =
          b.target.names ++ [naming entry (utf8 "entry"), naming next (utf8 "bb1")] := by
  refine (yields_beginFunction float 2 type).bind fun function b₁ ⟨hb₁, hext₁⟩ => ?_
  refine (yields_functionParameters structs hb₁ rfl).bind fun _ b₂ ⟨ps, hb₂, hext₂, hps⟩ => ?_
  refine (yields_beginBlock hb₂).bind fun entry b₃ ⟨hb₃, hext₃⟩ => ?_
  refine yields_branchAhead hb₃ fun next _ b₄ hb₄ hext₄ => ?_
  refine (writes_insert _ (by decide) (by decide) _ _ _ hb₄).bind
    fun _ b₅ ⟨_, hb₅, hext₅, rfl⟩ => ?_
  have hext := (((hext₁.trans hext₂).trans hext₃).trans hext₄).trans hext₅
  refine yields_bind_of_run rfl (yields_bind_of_run (run_name ..) (yields_bind_of_run (run_name ..)
    (yields_pure ⟨(hext.issues.trans (issues_naming ..)).trans (issues_naming ..), _, entry.1, next,
      rfl, hb₅.functions, ⟨?_, by simp⟩, ?_⟩)))
  · simpa using hps
  · change (b₅.target.names ++ [_]) ++ [_] = _
    rw [hext.names, List.append_assoc]
    rfl

/-! ### The entry point -/

/-- Whether one of the instructions has a result of the given type and id. -/
def Defines (insts : List Instruction) (type id : ResultId) : Prop :=
  ∃ inst ∈ insts, inst.opcode.layout = .typed ∧ inst.resultType = type ∧ inst.resultId = id

theorem Defines.mono {insts insts' : List Instruction} {type id : ResultId}
    (h : Defines insts type id) (hsub : insts ⊆ insts') : Defines insts' type id := by
  obtain ⟨inst, hinst, h⟩ := h
  exact ⟨inst, hsub hinst, h⟩

theorem writes_constants (float : ResultId) (bits : List UInt32) (b : Builder) :
    (bits.mapM fun w => declare (Declare.constant float [w])).Writes b fun ids insts m =>
      insts = [] ∧ List.Forall₂ (fun w id => m.HasGlobal .constant float [w] id) bits ids := by
  refine Writes.mapM (R := fun ws ids insts m => insts = [] ∧
    List.Forall₂ (fun w id => m.HasGlobal .constant float [w] id) ws ids)
    (fun _ => ⟨rfl, .nil⟩) bits (fun w _ rest c => ?_) b
  refine (writes_declare (Declare.gives_constant float [w])).imp ?_
  rintro id insts m ⟨rfl, hid⟩ ids insts' m' hext ⟨rfl, hids⟩
  exact ⟨rfl, .cons (hext.issues.hasGlobal hid) hids⟩

theorem writes_slotValue {s : Slot} {type : ResultId}
    (hs : s.size = 1 → s.value ≠ [] ∧ type = float) :
    (slotValue float s type).Writes b fun id insts m =>
      (∀ inst ∈ insts, inst.opcode = .compositeConstruct) ∧
        Defines (m.globals ++ insts) type id := by
  refine (writes_constants float s.value b).bind fun ids insts c ⟨hinsts, hids⟩ => ?_
  subst hinsts
  by_cases hsize : s.size = 1
  · obtain ⟨hvalue, rfl⟩ := hs hsize
    rw [if_pos hsize]
    obtain ⟨w, rest, hcons⟩ := List.exists_cons_of_ne_nil hvalue
    rw [hcons] at hids
    cases hids with
    | cons hfirst _ =>
      refine writes_pure fun _ => ⟨by simp, _, List.mem_append_left _ hfirst, ?_, rfl, rfl⟩
      exact (by decide : Opcode.constant.layout = .typed)
  · rw [if_neg hsize]
    refine (writes_emit type ids (by decide) (by decide)).imp ?_
    rintro id insts m rfl -
    refine ⟨by simp, _, List.mem_append_right _ (List.mem_singleton_self _), ?_, rfl, rfl⟩
    exact (by decide : Opcode.compositeConstruct.layout = .typed)

/-- Whether declarations, and instructions that make composites, define the values of slots. -/
structure HasValues (m : Module) (slots : List (Slot × ResultId × ResultId)) (ids : List ResultId)
    (insts : List Instruction) : Prop where
  composites : ∀ inst ∈ insts, inst.opcode = .compositeConstruct
  defines : List.Forall₂ (fun slot id => Defines (m.globals ++ insts) slot.2.1 id) slots ids

theorem HasValues.mono {slots : List (Slot × ResultId × ResultId)} {ids : List ResultId}
    {insts : List Instruction} (h : HasValues m slots ids insts) (hext : m.Issues m') :
    HasValues m' slots ids insts := by
  refine ⟨h.composites, h.defines.imp fun slot id hdefines => hdefines.mono ?_⟩
  exact List.append_subset.2
    ⟨List.subset_append_of_subset_left _ hext.globals_subset, List.subset_append_right ..⟩

theorem writes_values {slots : List (Slot × ResultId × ResultId)}
    {g : Slot × ResultId × ResultId → Build ResultId}
    (hg : ∀ slot, g slot = slotValue float slot.1 slot.2.1)
    (hslots : ∀ slot ∈ slots, slot.1.size = 1 → slot.1.value ≠ [] ∧ slot.2.1 = float) :
    (slots.mapM g).Writes b fun ids insts m => HasValues m slots ids insts := by
  refine Writes.mapM (R := fun slots ids insts m => HasValues m slots ids insts)
    (fun _ => ⟨by simp, .nil⟩) slots (fun slot hslot rest c => ?_) b
  rw [hg]
  refine (writes_slotValue (hslots slot hslot)).imp ?_
  rintro id insts m ⟨hcomposites, hdefines⟩ ids insts' m' hext ⟨hcomposites', hdefines'⟩
  have hglobals := hext.issues.globals_subset
  refine ⟨?_, .cons (hdefines.mono ?_) (hdefines'.imp fun slot id h => h.mono ?_)⟩
  · rw [List.forall_mem_append]
    exact ⟨hcomposites, hcomposites'⟩
  · exact List.append_subset.2 ⟨List.subset_append_of_subset_left _ hglobals, by simp⟩
  · simp

/-- Whether an instruction makes the struct of hash and value of a slot. -/
def Bundles (m : Module) (uint : ResultId) (slot : (Slot × ResultId × ResultId) × ResultId)
    (inst : Instruction) : Prop :=
  inst.opcode = .compositeConstruct ∧ ∃ hash, inst.operands = [hash, slot.2] ∧
    m.HasGlobal .constant uint [nameHash slot.1.1.name] hash

theorem Bundles.mono {slot : (Slot × ResultId × ResultId) × ResultId} {inst : Instruction}
    (h : Bundles m uint slot inst) (hext : m.Issues m') : Bundles m' uint slot inst := by
  obtain ⟨hop, hash, hoperands, hhash⟩ := h
  exact ⟨hop, hash, hoperands, hext.hasGlobal hhash⟩

theorem opcode_eq_of_bundles {slots : List ((Slot × ResultId × ResultId) × ResultId)}
    {insts : List Instruction} (h : List.Forall₂ (Bundles m uint) slots insts) :
    ∀ inst ∈ insts, inst.opcode = .compositeConstruct := by
  induction h with
  | nil => simp
  | cons hbundles _ ih => exact List.forall_mem_cons.2 ⟨hbundles.1, ih⟩

theorem writes_arguments {slots : List ((Slot × ResultId × ResultId) × ResultId)}
    {g : (Slot × ResultId × ResultId) × ResultId → Build ResultId}
    (hg : ∀ slot, g slot = do
      let hash ← declare (Declare.constant uint [nameHash slot.1.1.name])
      compositeConstruct slot.1.2.2 [hash, slot.2]) :
    (slots.mapM g).Writes b fun _ insts m => List.Forall₂ (Bundles m uint) slots insts := by
  refine Writes.mapM (R := fun slots _ insts m => List.Forall₂ (Bundles m uint) slots insts)
    (fun _ => .nil) slots (fun slot _ rest c => ?_) b
  rw [hg]
  refine (writes_declare (Declare.gives_constant uint _)).bind ?_
  rintro hash insts d ⟨rfl, hhash⟩
  refine (writes_emit _ _ (by decide) (by decide)).imp ?_
  rintro id insts m rfl hext ids insts' m' hext' hrest
  exact .cons ⟨rfl, hash, rfl, (hext.issues.trans hext'.issues).hasGlobal hhash⟩ hrest

/-- Whether a function has one block, which makes the structs of all slots one after the other,
right before it calls another function. -/
structure Invokes (m : Module) (uint function : ResultId)
    (slots : List (Slot × ResultId × ResultId)) (g : Function) (label : Instruction)
    (ids : List ResultId) (values structs : List Instruction) (call : Instruction) : Prop where
  parameters : g.parameters = []
  blocks : g.blocks = [{ label, body := values ++ structs ++ [call, { opcode := .returnVoid }] }]
  values : HasValues m slots ids values
  bundles : List.Forall₂ (Bundles m uint) (slots.zip ids) structs
  calls : Module.calls function call = true

theorem Invokes.mono {function : ResultId} {slots : List (Slot × ResultId × ResultId)}
    {g : Function} {label call : Instruction} {ids : List ResultId}
    {values structs : List Instruction}
    (h : Invokes m uint function slots g label ids values structs call) (hext : m.Issues m') :
    Invokes m' uint function slots g label ids values structs call :=
  { h with
    values := h.values.mono hext
    bundles := h.bundles.imp fun _ _ hbundles => hbundles.mono hext }

theorem yields_entryPoint {void type function : ResultId}
    {slots : List (Slot × ResultId × ResultId)}
    (hslots : ∀ slot ∈ slots, slot.1.size = 1 → slot.1.value ≠ [] ∧ slot.2.1 = float) :
    (entryPoint void float uint type function slots).Yields b fun _ c =>
      b.target.Enlarges c.target ∧ ∃ g label ids values structs call,
        c.target.functions = b.target.functions ++ [g] ∧
        Invokes c.target uint function slots g label ids values structs call := by
  refine (yields_beginFunction void 0 type).bind fun main b₁ ⟨hb₁, hext₁⟩ => ?_
  refine (yields_beginBlock hb₁).bind fun entry b₂ ⟨hb₂, hext₂⟩ => ?_
  refine (writes_values (fun _ => rfl) hslots _ _ _ hb₂).bind
    fun ids b₃ ⟨values, hb₃, hext₃, hvalues⟩ => ?_
  refine (writes_arguments (fun _ => rfl) _ _ _ hb₃).bind
    fun arguments b₄ ⟨structs, hb₄, hext₄, hstructs⟩ => ?_
  refine (writes_emit float _ (by decide) (by decide) _ _ _ hb₄).bind
    fun result b₅ ⟨_, hb₅, hext₅, rfl⟩ => ?_
  refine (writes_insert _ (by decide) (by decide) _ _ _ hb₅).bind
    fun _ b₆ ⟨_, hb₆, hext₆, rfl⟩ => ?_
  let label : Instruction := { opcode := .label, resultId := entry.1 }
  let call : Instruction := {
    opcode := .functionCall
    resultType := float
    resultId := result
    operands := function :: arguments }
  let g : Function := {
    definition := {
      opcode := .function, resultType := void, resultId := main, operands := [0, type] }
    blocks := [{ label, body := values ++ structs ++ [call, { opcode := .returnVoid }] }] }
  have hg : b₆.target.functions = b.target.functions ++ [g] := by
    rw [hb₆.functions]
    simp [g, label, call]
  have hext := (hext₄.trans hext₅).trans hext₆
  have hinvokes : Invokes b₆.target uint function slots g label ids values structs call := {
    parameters := rfl
    blocks := rfl
    values := hvalues.mono hext.issues
    bundles := hstructs.imp fun _ _ h => h.mono (hext₅.trans hext₆).issues
    calls := by simp [Module.calls, call] }
  exact yields_bind_of_run rfl (yields_pure ⟨((hext₁.trans hext₂).trans hext₃).trans hext,
    g, label, ids, values, structs, call, hg, hinvokes⟩)

/-! ### The whole sample -/

/-- Whether a module that was built from an empty one declares the types of slots. -/
structure Declared (slots : List Slot) (m : Module) (float uint : ResultId)
    (types : List (ResultId × ResultId)) : Prop where
  issues : (Module.empty ⟨1, 3⟩).Issues m
  hasFloat : m.HasGlobal .typeFloat 0 [32] float
  hasUint : m.HasGlobal .typeInt 0 [32, 0] uint
  hasTypes : List.Forall₂ (HasTypes m float uint) slots types

theorem Declared.mono {slots : List Slot} {types : List (ResultId × ResultId)}
    (h : Declared slots m float uint types) (hext : m.Issues m') :
    Declared slots m' float uint types where
  issues := h.issues.trans hext
  hasFloat := hext.hasGlobal h.hasFloat
  hasUint := hext.hasGlobal h.hasUint
  hasTypes := h.hasTypes.imp fun _ _ htypes => htypes.mono hext

/-- The value of a slot of size one is a float. -/
theorem Declared.valueType_eq {slots : List Slot} {types : List (ResultId × ResultId)}
    (h : Declared slots m float uint types) {slot : Slot × ResultId × ResultId}
    (hslot : slot ∈ slots.zip types) (hsize : slot.1.size = 1) : slot.2.1 = float := by
  have hvalue := ((List.forall₂_iff_zip.1 h.hasTypes).2 hslot).value
  have hone : ¬ slot.1.size > 1 := by
    rw [hsize]
    decide
  rwa [HasValueType, if_neg hone] at hvalue

/-- Types and constants are declared before there are functions and names. -/
theorem yields_declarations {α : Type} {slots : List Slot} {post : α → Builder → Prop}
    {g : ResultId → ResultId → ResultId → List (ResultId × ResultId) → ResultId → ResultId →
      ResultId → Build α}
    (hg : ∀ void float uint types mainType functionType zero c,
      Declared slots c.target float uint types → c.target.functions = [] → c.target.names = [] →
        (g void float uint types mainType functionType zero).Yields c post) :
    Yields (do
      declare (Declare.capability 1)
      declare (Declare.memoryModel 0 1)
      let void ← declare Declare.typeVoid
      let float ← declare (Declare.typeFloat 32)
      let uint ← declare (Declare.typeInt 32 false)
      let types ← declare (slotTypes float uint slots)
      let mainType ← declare (Declare.typeFunction void [])
      let functionType ← declare (Declare.typeFunction float (types.map (·.2)))
      let zero ← declare (Declare.constant float [0])
      g void float uint types mainType functionType zero) { target := .empty ⟨1, 3⟩ } post := by
  let b₀ : Builder := { target := {
    header := { version := ⟨1, 3⟩ }
    capabilities := [{ opcode := .capability, operands := [1] }]
    memoryModel := some { opcode := .memoryModel, operands := [0, 1] } } }
  have hissues : (Module.empty ⟨1, 3⟩).Issues b₀.target :=
    (Module.Issues.append (s := .capabilities) [1] (by decide) rfl (by decide)).trans
      (.memoryModel rfl rfl ⟨rfl, rfl, by decide⟩)
  refine yields_bind_of_run rfl (yields_bind_of_run (c := b₀) rfl ?_)
  refine (yields_declare (Declare.gives_type _ rfl (by decide))).bind
    fun void b₁ ⟨_, hfs₁, hext₁, _⟩ => ?_
  refine (yields_declare (Declare.gives_type _ rfl (by decide))).bind
    fun float b₂ ⟨_, hfs₂, hext₂, hfloat⟩ => ?_
  refine (yields_declare (Declare.gives_type _ rfl (by decide))).bind
    fun uint b₃ ⟨_, hfs₃, hext₃, huint⟩ => ?_
  refine (yields_declare (gives_slotTypes slots)).bind fun types b₄ ⟨_, hfs₄, hext₄, htypes⟩ => ?_
  refine (yields_declare (Declare.gives_type _ rfl (by decide))).bind
    fun mainType b₅ ⟨_, hfs₅, hext₅, _⟩ => ?_
  refine (yields_declare (Declare.gives_type _ rfl (by decide))).bind
    fun functionType b₆ ⟨_, hfs₆, hext₆, _⟩ => ?_
  refine (yields_declare (Declare.gives_constant float [0])).bind
    fun zero b₇ ⟨_, hfs₇, hext₇, _⟩ => ?_
  have h₄ : b₀.target.Enlarges b₄.target := ((hext₁.trans hext₂).trans hext₃).trans hext₄
  have hdeclared : Declared slots b₄.target float uint types := {
    issues := hissues.trans h₄.issues
    hasFloat := (hext₃.trans hext₄).issues.hasGlobal hfloat
    hasUint := hext₄.issues.hasGlobal huint
    hasTypes := htypes }
  have h₇ := (hext₅.trans hext₆).trans hext₇
  refine hg void float uint types mainType functionType zero b₇ (hdeclared.mono h₇.issues) ?_ ?_
  · rw [hfs₇, hfs₆, hfs₅, hfs₄, hfs₃, hfs₂, hfs₁]
  · exact h₇.names.trans h₄.names

/-- What a sample is made of. -/
structure Built (slots : List Slot) (m : Module) (float uint : ResultId)
    (types : List (ResultId × ResultId)) (f g : Function) : Prop
    extends Declared slots m float uint types where
  functions : m.functions = [f, g]
  injectable : ∃ entry next zero main, IsInjectable f (types.map (·.2)) entry next zero ∧
    m.names = [naming entry (utf8 "entry"), naming next (utf8 "bb1"), naming f.id defaultFunction,
      naming main (utf8 "main")]
  invokes : ∃ label ids values structs call,
    Invokes m uint f.id (slots.zip types) g label ids values structs call

theorem yields_build {slots : List Slot} (hslots : ∀ s ∈ slots, s.size = 1 → s.value ≠ []) :
    (build slots).Yields { target := .empty ⟨1, 3⟩ } fun _ c =>
      ∃ float uint types f g, Built slots c.target float uint types f g := by
  unfold build
  refine yields_declarations
    fun void float uint types mainType functionType zero b hdeclared hfs hnone => ?_
  refine (yields_injectable (b := b) float functionType zero (types.map (·.2))).bind
    fun function b₁ ⟨hissues₁, f, entry, next, hid, hfs₁, hf, hnames⟩ => ?_
  subst hid
  have hslots' : ∀ slot ∈ slots.zip types,
      slot.1.size = 1 → slot.1.value ≠ [] ∧ slot.2.1 = float := fun slot hmem hsize =>
    ⟨hslots slot.1 (List.of_mem_zip hmem).1 hsize, hdeclared.valueType_eq hmem hsize⟩
  refine (yields_entryPoint (b := b₁) hslots').bind
    fun main b₂ ⟨hext₂, g, label, ids, values, structs, call, hfs₂, hinvokes⟩ => ?_
  refine (yields_declare (Declare.gives_entryPoint ..)).bind
    fun _ b₃ ⟨_, hfs₃, hext₃, _⟩ => ?_
  refine (yields_declare (Declare.gives_executionMode ..)).bind
    fun _ b₄ ⟨_, hfs₄, hext₄, _⟩ => ?_
  refine yields_bind_of_run (run_name ..) ⟨(), _, run_name .., float, uint, types, f, g, ?_⟩
  have hnamed := (issues_naming b₄.target f.id defaultFunction).trans
    (issues_naming _ main (utf8 "main"))
  have hend := (hext₃.trans hext₄).issues.trans hnamed
  exact {
    toDeclared := hdeclared.mono (hissues₁.trans (hext₂.issues.trans hend))
    functions := by
      change b₄.target.functions = [f, g]
      rw [hfs₄, hfs₃, hfs₂, hfs₁, hfs]
      rfl
    injectable := by
      refine ⟨entry, next, zero, main, hf, ?_⟩
      change (b₄.target.names ++ [_]) ++ [_] = _
      rw [((hext₂.trans hext₃).trans hext₄).names, hnames, hnone]
      rfl
    invokes := ⟨label, ids, values, structs, call, hinvokes.mono hend⟩ }

/-! ### Reflection -/

theorem HasValueType.denotes (hm : m.IdsDistinct) (hfloat : m.Denotes float .f32) {s : Slot}
    {id : ResultId} (h : HasValueType m float s id) : m.Denotes id s.valueType := by
  rw [HasValueType] at h
  rw [Slot.valueType]
  split at h
  · rw [if_pos ‹_›]
    exact h.denotes hm (by decide) (.vector rfl rfl hfloat)
  · rw [if_neg ‹_›, h]
    exact hfloat

/-- Whether a parameter is what a slot comes to. -/
structure Reflects (m : Module) (s : Slot) (p : Parameter) : Prop where
  hash : p.hash = nameHash s.name
  type : p.type = s.valueType
  typeId : m.Denotes p.typeId s.valueType

/-- The formal and the struct of a slot keep to the convention. -/
theorem conforms_slot (hm : m.IdsDistinct) (hfloat : m.Denotes float .f32)
    (huint : m.Denotes uint .u32) {values : List Instruction} (hvalues : values ⊆ m.instructions)
    {s : Slot} {types : ResultId × ResultId} (htypes : HasTypes m float uint s types)
    {formal struct : Instruction} {id : ResultId} (hformal : formal.resultType = types.2)
    (hid : Defines (m.globals ++ values) types.1 id)
    (hstruct : Bundles m uint ((s, types), id) struct) :
    m.Conforms formal struct (some {
      composite := formal.resultId
      typeId := types.1
      hash := nameHash s.name
      type := s.valueType }) := by
  have hvalue : m.Denotes types.1 s.valueType := htypes.value.denotes hm hfloat
  have hwrapped : m.Denotes types.2 (.struct [.u32, s.valueType]) :=
    htypes.struct.denotes hm (by decide) (.struct rfl (.cons huint (.cons hvalue .nil)))
  obtain ⟨value, hmem, hlayout, htype, rfl⟩ := hid
  obtain ⟨hop, hash, hoperands, hhash⟩ := hstruct
  have hmem' : value ∈ m.instructions :=
    List.append_subset.2 ⟨m.sublist_globals.subset, hvalues⟩ hmem
  have hid : value.resultId ≠ 0 := hm.ne_zero value hmem' (by simp [hlayout])
  exact @Module.Conforms.wrapped m formal struct _
    { opcode := .constant, resultType := uint, resultId := hash, operands := [nameHash s.name] }
    value (hformal ▸ hwrapped) rfl hop hoperands hhash rfl rfl huint hmem' hid htype hvalue.ne_zero

/-- The formals and the structs of all slots keep to the convention. -/
theorem aligned_slots (hm : m.IdsDistinct) (hfloat : m.Denotes float .f32)
    (huint : m.Denotes uint .u32) {values : List Instruction} (hvalues : values ⊆ m.instructions)
    {slots : List Slot} {types : List (ResultId × ResultId)}
    (htypes : List.Forall₂ (HasTypes m float uint) slots types)
    {formals structs : List Instruction} {ids : List ResultId}
    (hformals : formals.map (·.resultType) = types.map (·.2))
    (hids : List.Forall₂ (fun slot id => Defines (m.globals ++ values) slot.2.1 id)
      (slots.zip types) ids)
    (hstructs : List.Forall₂ (Bundles m uint) ((slots.zip types).zip ids) structs) :
    ∃ ps : List Parameter, Module.Aligned m.Conforms formals structs (ps.map some) ∧
      List.Forall₂ (Reflects m) slots ps ∧
      ps.map (·.composite) = formals.map (·.resultId) := by
  induction htypes generalizing formals structs ids with
  | nil =>
    cases List.map_eq_nil_iff.1 hformals
    cases hids
    cases hstructs
    exact ⟨[], .nil, .nil, rfl⟩
  | @cons s types _ _ htypes _ ih =>
    obtain ⟨formal, formals, rfl, hformal, hformals⟩ := List.map_eq_cons_iff.1 hformals
    cases hids with
    | cons hid hids =>
      cases hstructs with
      | cons hstruct hstructs =>
        obtain ⟨ps, haligned, hreflects, hcomposites⟩ := ih hformals hids hstructs
        have hconforms := conforms_slot hm hfloat huint hvalues htypes hformal hid hstruct
        have hvalue := htypes.value.denotes hm hfloat
        exact ⟨_ :: ps, .cons hconforms haligned, .cons ⟨rfl, rfl, hvalue⟩ hreflects,
          congrArg (formal.resultId :: ·) hcomposites⟩

theorem debugName?_naming (id target : ResultId) {text : Bytes} (htext : 0 ∉ text) :
    Module.debugName? id (naming target text) = if target = id then some text else none := by
  obtain ⟨w, ws, hwords⟩ : ∃ w ws, Literal.encode text = w :: ws := by
    fun_cases Literal.encode text <;> exact ⟨_, _, rfl⟩
  have hdecode : (Literal.decode (w :: ws)).1 = text := hwords ▸ Literal.decode_encode htext
  simp [Module.debugName?, naming, hwords, hdecode]

namespace Built

variable {slots : List Slot} {types : List (ResultId × ResultId)} {f g : Function}

theorem mem_instructions (h : Built slots m float uint types f g) {inst : Instruction}
    (hinst : inst ∈ f.instructions ∨ inst ∈ g.instructions) : inst ∈ m.instructions := by
  refine List.mem_append_right _ ?_
  simpa [h.functions] using hinst

/-- The function is found by its name, since its blocks have other ids. -/
theorem functionNamed?_eq (h : Built slots m float uint types f g) (hm : m.IdsDistinct) :
    m.functionNamed? defaultFunction = some 0 := by
  obtain ⟨entry, next, zero, main, hf, hnames⟩ := h.injectable
  have hfunction : f.definition.opcode = .function :=
    (h.issues.routed.functions f (by simp [h.functions])).definition
  have hlabel {id : ResultId} (hid : { opcode := .label, resultId := id } ∈ f.instructions) :
      id ≠ f.id := by
    intro heq
    have hmem := h.mem_instructions (.inl hid)
    have hne : id ≠ 0 := hm.ne_zero _ hmem (show Opcode.label.layout ≠ .none by decide)
    have hdefinition := h.mem_instructions (.inl (List.mem_cons_self ..))
    rw [← hm.eq_of_resultId_eq hmem hdefinition hne heq] at hfunction
    cases hfunction
  have hentry : entry ≠ f.id :=
    hlabel (by simp [Function.instructions, hf.blocks, Block.instructions])
  have hnext : next ≠ f.id :=
    hlabel (by simp [Function.instructions, hf.blocks, Block.instructions])
  have hname : m.name? f.id = some defaultFunction := by
    rw [Module.name?, hnames, List.findSome?_cons, debugName?_naming _ _ (by decide),
      if_neg hentry, List.findSome?_cons, debugName?_naming _ _ (by decide), if_neg hnext,
      List.findSome?_cons, debugName?_naming _ _ (by decide), if_pos rfl]
  simp [Module.functionNamed?, h.functions, List.findIdx?_cons, hname]

/-- Before the entry point calls the function, nothing is called. -/
theorem exists_split (h : Built slots m float uint types f g) {label call : Instruction}
    {ids : List ResultId} {values structs : List Instruction}
    (hg : Invokes m uint f.id (slots.zip types) g label ids values structs call) :
    ∃ before after, m.instructions = before ++ structs ++ call :: after ∧
      ∀ inst ∈ before ++ structs, Module.calls f.id inst = false := by
  obtain ⟨entry, next, zero, -, hf, -⟩ := h.injectable
  have hformed := h.issues.routed.functions
  have hf' := hformed f (by simp [h.functions])
  have hg' := hformed g (by simp [h.functions])
  have hlabel : label.opcode = .label := by
    have hlabels := hg'.labels
    rw [hg.blocks, List.forall_mem_singleton] at hlabels
    exact hlabels
  have hcalls {inst : Instruction} (hop : inst.opcode ≠ .functionCall) :
      Module.calls f.id inst = false := by
    simp [Module.calls, hop]
  refine ⟨m.declarations ++ f.instructions ++ [g.definition, label] ++ values,
    [{ opcode := .returnVoid }, g.ending], ?_, ?_⟩
  · simp [Module.instructions, h.functions, Function.instructions, hg.parameters, hg.blocks,
      Block.instructions]
  · intro inst hinst
    simp only [List.mem_append, List.mem_cons, List.not_mem_nil, or_false] at hinst
    rcases hinst with (((hinst | hinst) | rfl | rfl) | hinst) | hinst
    · exact h.issues.calls_eq_false f.id hinst
    · exact hcalls (hf.opcode_ne hf' hinst)
    · exact hcalls (by rw [hg'.definition]; decide)
    · exact hcalls (by rw [hlabel]; decide)
    · exact hcalls (by rw [hg.values.composites inst hinst]; decide)
    · exact hcalls (by rw [opcode_eq_of_bundles hg.bundles inst hinst]; decide)

theorem reflect_eq (h : Built slots m float uint types f g) (hm : m.IdsDistinct) :
    ∃ ps, m.reflect defaultFunction = ([], .ok { function := 0, parameters := ps }) ∧
      List.Forall₂ (Reflects m) slots ps ∧
      ps.map (·.composite) = f.parameters.map (·.resultId) := by
  obtain ⟨entry, next, zero, main, hf, -⟩ := h.injectable
  obtain ⟨label, ids, values, structs, call, hg⟩ := h.invokes
  obtain ⟨before, after, hsplit, hfirst⟩ := h.exists_split hg
  have hfloat : m.Denotes float .f32 := h.hasFloat.denotes hm (by decide) (.float rfl rfl)
  have huint : m.Denotes uint .u32 :=
    h.hasUint.denotes hm (by decide) (.int rfl rfl (by decide : ¬ (0 : Word) > 1))
  have hvalues : values ⊆ m.instructions := fun inst hinst => h.mem_instructions (.inr (by
    simp [Function.instructions, hg.blocks, Block.instructions, hinst]))
  obtain ⟨ps, haligned, hreflects, hcomposites⟩ := aligned_slots hm hfloat huint hvalues h.hasTypes
    hf.parameters hg.values.defines hg.bundles
  have hpasses := haligned.imp fun _ _ _ => Module.Conforms.passes hm
  obtain ⟨dropped, hreflect, hdropped⟩ := hpasses.reflect_eq (h.functionNamed?_eq hm)
    (by rw [h.functions]; rfl) hsplit hfirst hg.calls
  have hnone : dropped = [] := by
    rw [← List.map_eq_nil_iff, hdropped, List.map_eq_nil_iff, List.filter_eq_nil_iff]
    rintro ⟨result, index⟩ hmem
    obtain ⟨p, -, rfl⟩ := List.mem_map.1 (List.fst_mem_of_mem_zipIdx hmem)
    simp
  refine ⟨ps, ?_, hreflects, hcomposites⟩
  rw [hreflect, hnone]
  simp

end Built

/-- Reflecting a sample gives its slots back, as long as its ids do not run out. Ids are well-formed
unless all of them are in use, so that none is left for the bound. -/
theorem reflects_slots {slots : List Slot} (hslots : ∀ s ∈ slots, s.size = 1 → s.value ≠ []) :
    ∃ m, module? slots = some m ∧ (m.resultCount < UInt32.size →
      (∃ f ps, m.functions[0]? = some f ∧
        m.reflect defaultFunction = ([], .ok { function := 0, parameters := ps }) ∧
        List.Forall₂ (Reflects m) slots ps ∧
        ps.map (·.composite) = f.parameters.map (·.resultId)) ∧
      (m.IdWellFormed ↔ m.resultCount + 1 < UInt32.size)) := by
  obtain ⟨_, b, hrun, float, uint, types, f, g, hbuilt⟩ := yields_build hslots
  refine ⟨b.target, by rw [module?, hrun], fun hcount => ⟨?_, ?_⟩⟩
  · obtain ⟨ps, hreflect, hreflects, hcomposites⟩ :=
      hbuilt.reflect_eq (hbuilt.issues.idsBelow hcount).toIdsDistinct
    exact ⟨f, ps, by rw [hbuilt.functions]; rfl, hreflect, hreflects, hcomposites⟩
  · exact hbuilt.issues.idWellFormed_iff hcount

/-- Slots of every kind. Two have the same name and value, and one has the hash of its name as
value. -/
def assortedSlots : List Slot := [
  { name := utf8 "gain", size := 1, value := [0x3f800000] },
  { name := utf8 "coord", size := 3, value := [0x3f800000, 0, 0x3f800000] },
  { name := utf8 "gain", size := 1, value := [0x3f800000, 0] },
  { name := utf8 "", size := 0, value := [] },
  { name := utf8 "seed", size := 1, value := [nameHash (utf8 "seed")] }]

theorem reflects_slots_assorted : (∀ s ∈ assortedSlots, s.size = 1 → s.value ≠ []) ∧
    ∃ m, module? assortedSlots = some m ∧ m.resultCount = 33 ∧ m.IdWellFormed ∧
      ∃ f ps, m.functions[0]? = some f ∧
        m.reflect defaultFunction = ([], .ok { function := 0, parameters := ps }) ∧
        List.Forall₂ (Reflects m) assortedSlots ps ∧
        ps.map (·.composite) = f.parameters.map (·.resultId) := by
  have hslots : ∀ s ∈ assortedSlots, s.size = 1 → s.value ≠ [] := by simp [assortedSlots]
  obtain ⟨m, hm, h⟩ := reflects_slots hslots
  have hcount : m.resultCount = 33 := by
    have hsome : (module? assortedSlots).map Module.resultCount = some 33 := by decide +kernel
    rw [hm] at hsome
    exact Option.some.inj hsome
  obtain ⟨hreflects, hids⟩ := h (by rw [hcount]; decide)
  exact ⟨hslots, m, hm, hcount, hids.2 (by rw [hcount]; decide), hreflects⟩

end Sample

end ShaderGraft
