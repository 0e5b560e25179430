import ShaderGraft.Proofs.Emission
import ShaderGraft.Proofs.Reflection

/-!
# What is built can be written and read

The main statement is `Module.parse_assemble_built`. Whatever a builder is asked for, and whether the
calls fail or not, the module that it leaves is read back from its binary form as it is; and so is
what an injection commits into such a module. The callers have to see to four things: result types
and labels that are not zero, inserted instructions that fit into a block, instructions that are not
too long, and ids that do not run out.
-/

namespace ShaderGraft

/-! ### Calls -/

namespace Builder

/-- What the caller of a builder has to see to. -/
@[mk_iff]
structure Call.Admissible (c : Call) : Prop where
  type : c.resultType? ≠ some 0
  label : c.label? ≠ some 0
  inserted : ∀ inst ∈ c.inserted?, inst.SlotsFilled ∧ inst.opcode.IsBody

instance (c : Call) : Decidable c.Admissible :=
  decidable_of_iff' _ c.admissible_iff

namespace Call.Admissible

variable {c : Call}

theorem slotsFilled (h : c.Admissible) {inst : Instruction} (hgiven : c.given? = some inst) :
    inst.SlotsFilled := by
  cases c with
  | insert =>
    cases hgiven
    exact (h.inserted inst rfl).1
  | beginBlockWithLabel label =>
    cases hgiven
    have hlayout : Opcode.label.layout = .id := by decide
    have hlabel : label ≠ 0 := fun hzero => h.label (hzero ▸ rfl)
    exact ⟨by simp [hlayout, hlabel], by simp [hlayout]⟩
  | _ => cases hgiven

theorem changes (h : c.Admissible) (b : Builder) :
    b.target.Changes Instruction.SlotsFilled (fun _ id => id ≠ 0) (c.idsTaken b)
      (c.after b).target := by
  cases hgiven : c.given? with
  | none =>
    refine (c.changes hgiven b).1.mono (fun _ hplain => hplain.slotsFilled) ?_
    exact fun _ id hid hzero => h.type (hzero ▸ hid)
  | some inst =>
    rcases run_given hgiven b with ⟨e, hrun⟩ | ⟨b', hrun, hgains, hadds⟩
    · have hafter : c.after b = b := by rw [after, endState, hrun]
      rw [idsTaken, hafter, if_pos rfl]
      exact .refl
    · have hafter : c.after b = b' := by rw [after, endState, hrun]
      rw [idsTaken, hafter, hgains.header, if_pos rfl]
      exact .put .refl (h.slotsFilled hgiven) (hadds fun i hi => (h.inserted i hi).2)

end Call.Admissible

theorem changes_perform {calls : List Call} (h : ∀ c ∈ calls, c.Admissible) (b : Builder) :
    b.target.Changes Instruction.SlotsFilled (fun _ id => id ≠ 0) (b.idsTaken calls)
      (b.perform calls).target := by
  induction calls generalizing b with
  | nil => exact .refl
  | cons c calls ih =>
    rw [List.forall_mem_cons] at h
    exact (h.1.changes b).trans (ih h.2 (c.after b))

end Builder

/-! ### Injections -/

namespace Module

/-- Leaving the old blocks out leaves everything else where it is. -/
theorem Routed.graft {m : Module} {index : Nat} {f : Function} {n : Nat} {a : Additions}
    {result : ResultId} (hf : m.functions[index]? = some f)
    (h : (m.compiled index f n a result).Routed) : (m.graft index f n a result).Routed := by
  have hget : (m.compiled index f n a result).functions[index]? =
      some { f with blocks := f.blocks ++ [m.graftedBlock a.body result] } := by
    obtain ⟨hlt, -⟩ := List.getElem?_eq_some_iff.1 hf
    rw [functions_compiled, List.getElem?_set_self hlt]
  have hset : (m.graft index f n a result).functions =
      (m.compiled index f n a result).functions.set index
        { f with blocks := [m.graftedBlock a.body result] } := by
    rw [functions_compiled, List.set_set]
    rfl
  refine ⟨fun s inst hinst => ?_, h.memoryModel, fun g hg => ?_⟩
  · have hs := h.sections s inst
    cases s with
    | names => exact hs (List.mem_of_mem_filter hinst)
    | annotations => exact hs (List.mem_of_mem_filter hinst)
    | _ => exact hs hinst
  · rw [hset] at hg
    rcases List.mem_or_eq_of_mem_set hg with hg | rfl
    · exact h.functions g hg
    · obtain ⟨⟨hdefinition, hparameters, hlabels, hbodies⟩, hending⟩ :=
        h.functions _ (List.mem_of_getElem? hget)
      have hlast {b : Block} (hb : b ∈ [m.graftedBlock a.body result]) :
          b ∈ f.blocks ++ [m.graftedBlock a.body result] := List.mem_append_right _ hb
      exact ⟨⟨hdefinition, hparameters, fun b hb => hlabels b (hlast hb),
        fun b hb => hbodies b (hlast hb)⟩, hending⟩

/-- Types that are declared in a module whose result slots are filled. -/
theorem IsType.ne_zero {types : List ResultId} {m : Module} {id : ResultId}
    (h : IsType types m.globals id) (htypes : ∀ type ∈ types, type ≠ 0)
    (hm : ∀ inst ∈ m.instructions, inst.SlotsFilled) : id ≠ 0 := by
  rcases h with hid | ⟨inst, hinst, hlayout, rfl⟩
  · exact htypes id hid
  · exact (hm inst (m.sublist_globals.subset hinst)).id.2 (by simp [hlayout])

end Module

theorem Builder.representable_perform {version : Version} {calls : List Call}
    (hcalls : ∀ c ∈ calls, c.Admissible)
    (hlimit : idsTaken { target := .empty version } calls + 1 < UInt32.size)
    (hlengths : ∀ inst ∈ (perform { target := .empty version } calls).target.instructions,
      inst.wordCount ≤ Instruction.maxWords) :
    (perform { target := .empty version } calls).target.Representable := by
  have hchanges := changes_perform hcalls { target := .empty version }
  have hrouted : (Module.empty version).Routed := (Draft.routed_start { version }).complete
  have hbound : (Module.empty version).header.bound = 1 := rfl
  refine ⟨hchanges.routed hrouted, hlengths, ?_⟩
  refine hchanges.filled (by simp [Module.empty, Module.instructions, Module.declarations])
    (by simp [hbound]) ?_ (fun _ h => h) fun _ _ _ h => h
  change 1 + _ ≤ UInt32.size
  omega

/-- The result slots of what is injected are filled, since reflection finds types that are
declared. -/
theorem Injector.representable_inject {source : Module} {name : Bytes} {dropped : List Dropped}
    {inj next : Injector} {index : Nat} {i : Input} {t : HostType} {tree : Tree i t}
    {input : i.Value} (hreflect : source.reflect name = (dropped, .ok inj.interface))
    (hm : inj.target.Representable) (hbound : inj.target.header.bound ≠ 0)
    (hinject : (inj.inject tree input).2 = .ok next)
    (hindex : inj.target.functionWithId? inj.functionId = some index)
    (hlimit : inj.target.header.bound.toNat + inj.target.idsTaken next.target index < UInt32.size)
    (hlengths : ∀ inst ∈ next.target.instructions, inst.wordCount ≤ Instruction.maxWords) :
    next.target.Representable := by
  obtain ⟨index', f, n, a, result, hindex', hf, hchanges, -, hnext, htaken⟩ :=
    changes_inject (Prod.ext rfl hinject)
  cases hindex.symm.trans hindex'
  have htypes : ∀ type ∈ Interface.typeIds (some inj.interface), type ≠ 0 := by
    intro type htype
    obtain ⟨p, hp, rfl⟩ := List.mem_map.1 htype
    obtain ⟨_, -, hparameters⟩ := Module.reflect_parameters hreflect
    exact (hparameters p hp).1
  have hfilled := hchanges.filled hm.slots hbound (by omega)
    (fun _ hplain => hplain.slotsFilled) fun _ _ hm' htype => htype.ne_zero htypes hm'
  rw [hnext] at hlengths ⊢
  exact ⟨(hchanges.routed hm.toRouted).graft hf, hlengths,
    fun inst hinst => hfilled inst ((Module.instructions_graft_sublist ..).subset hinst)⟩

/-- A module that was made by the calls of a builder, or that an injection was committed to, is read
back as it was written, as long as its ids and the lengths of its instructions can be written. -/
theorem Module.parse_assemble_built :
    (∀ (version : Version) (calls : List Builder.Call),
      (∀ c ∈ calls, c.Admissible) →
      Builder.idsTaken { target := .empty version } calls + 1 < UInt32.size →
      (∀ inst ∈ (Builder.perform { target := .empty version } calls).target.instructions,
        inst.wordCount ≤ Instruction.maxWords) →
      parse (Builder.perform { target := .empty version } calls).target.assemble =
        .ok (Builder.perform { target := .empty version } calls).target) ∧
    ∀ (source : Module) (name : Bytes) (dropped : List Dropped) (inj next : Injector) (index : Nat)
      (i : Input) (t : HostType) (tree : Tree i t) (input : i.Value),
      source.reflect name = (dropped, .ok inj.interface) →
      parse inj.target.assemble = .ok inj.target → inj.target.header.bound ≠ 0 →
      (inj.inject tree input).2 = .ok next →
      inj.target.functionWithId? inj.functionId = some index →
      inj.target.header.bound.toNat + inj.target.idsTaken next.target index < UInt32.size →
      (∀ inst ∈ next.target.instructions, inst.wordCount ≤ Instruction.maxWords) →
      parse next.target.assemble = .ok next.target := by
  refine ⟨fun version calls hcalls hlimit hlengths => ?_,
    fun source name dropped inj next index i t tree input hreflect hparse hbound hinject hindex
      hlimit hlengths => ?_⟩
  · exact (Builder.representable_perform hcalls hlimit hlengths).parse_assemble
  · exact (Injector.representable_inject hreflect (representable_of_parse hparse) hbound hinject
      hindex hlimit hlengths).parse_assemble

/-- The calls for a function `f` of one runtime parameter `x` and a call of it. Three of them fail:
a branch before there is a block, a parameter after it, and arithmetic outside of any function, for
which an id is lost. -/
def Builder.oneParameterCalls : List Call := [
  .typeFloat 32, .typeInt 32 false, .typeStruct [2, 1], .constant 2 [nameHash (utf8 "x")],
  .constant 1 [0], .typeVoid, .typeFunction 1 [3], .typeFunction 6 [],
  .beginFunction 1 0 7, .functionParameter 3, .name 9 (utf8 "f"), .fresh, .branch 11,
  .beginBlockWithLabel 11, .functionParameter 3,
  .insert { opcode := .returnValue, operands := [5] }, .endFunction, .arithmetic .add 1 5 5,
  .beginFunction 6 0 8, .beginBlock, .compositeConstruct 3 [4, 5], .functionCall 1 9 [15],
  .returnVoid]

/-- The function that these calls build. -/
def Function.built : Function where
  definition := { opcode := .function, resultType := 1, resultId := 9, operands := [0, 7] }
  parameters := [{ opcode := .functionParameter, resultType := 3, resultId := 10 }]
  blocks := [{ label := { opcode := .label, resultId := 11 }
               body := [{ opcode := .returnValue, operands := [5] }] }]

/-- The module that these calls build. -/
def Module.built : Module where
  header := { version := ⟨1, 3⟩, bound := 17 }
  names := [{ opcode := .name, operands := 9 :: Literal.encode (utf8 "f") }]
  globals := [
    { opcode := .typeFloat, resultId := 1, operands := [32] },
    { opcode := .typeInt, resultId := 2, operands := [32, 0] },
    { opcode := .typeStruct, resultId := 3, operands := [2, 1] },
    { opcode := .constant, resultType := 2, resultId := 4, operands := [nameHash (utf8 "x")] },
    { opcode := .constant, resultType := 1, resultId := 5, operands := [0] },
    { opcode := .typeVoid, resultId := 6 },
    { opcode := .typeFunction, resultId := 7, operands := [1, 3] },
    { opcode := .typeFunction, resultId := 8, operands := [6] }]
  functions := [.built,
    { definition := { opcode := .function, resultType := 6, resultId := 13, operands := [0, 8] }
      blocks := [{ label := { opcode := .label, resultId := 14 }
                   body := [
                    { opcode := .compositeConstruct, resultType := 3, resultId := 15
                      operands := [4, 5] },
                    { opcode := .functionCall, resultType := 1, resultId := 16
                      operands := [9, 15] },
                    { opcode := .returnVoid }] }] }]

/-- `x + 1`. -/
def Tree.successor : Tree .none .f32 :=
  .arithmetic .add (.parameter (utf8 "x") (0 : UInt32)) (.constant (0x3f800000 : UInt32))

/-- The module with the successor for the body of its first function. -/
def Module.withSuccessor (m : Module) : Module := { m with
  header.bound := m.header.bound + 4
  globals := m.globals ++ [
    { opcode := .constant, resultType := 1, resultId := m.header.bound + 2
      operands := [0x3f800000] }]
  functions := m.functions.set 0 { Function.built with
    blocks := [{ label := { opcode := .label, resultId := m.header.bound }
                 body := [
                  { opcode := .compositeExtract, resultType := 1, resultId := m.header.bound + 1
                    operands := [10, 1] },
                  { opcode := .fAdd, resultType := 1, resultId := m.header.bound + 3
                    operands := [m.header.bound + 1, m.header.bound + 2] },
                  { opcode := .returnValue, operands := [m.header.bound + 3] }] }] } }

namespace Injector

/-- The injector for what these calls build. -/
def built : Injector where
  target := .built
  interface := { function := 0, parameters := [
    { composite := 10, typeId := 1, hash := nameHash (utf8 "x"), type := .float 32 }] }
  functionId := 9
  name := utf8 "f"
  instructionSet := []

/-- After the successor was injected. -/
def builtInjected : Injector :=
  built.commit Module.built.withSuccessor

theorem parse_assemble_builtInjected :
    (Builder.perform { target := .empty ⟨1, 3⟩ } Builder.oneParameterCalls).target = .built ∧
      (create .built (utf8 "f")).2 = .ok built ∧
      (built.inject Tree.successor ()).2 = .ok builtInjected ∧
      Module.parse Module.built.assemble = .ok .built ∧
      Module.parse builtInjected.target.assemble = .ok builtInjected.target := by
  have hperform :
      (Builder.perform { target := .empty ⟨1, 3⟩ } Builder.oneParameterCalls).target = .built := by
    decide +kernel
  have hcalls : ∀ c ∈ Builder.oneParameterCalls, c.Admissible := by decide +kernel
  have hbuilt := Module.parse_assemble_built.1 ⟨1, 3⟩ Builder.oneParameterCalls hcalls
    (by decide +kernel)
  rw [hperform] at hbuilt
  have hparse := hbuilt (by decide +kernel)
  have hinject : (built.inject Tree.successor ()).2 = .ok builtInjected :=
    inject_eq_commit (by decide +kernel)
  have hreflect : Module.built.reflect (utf8 "f") = ([], .ok built.interface) := rfl
  have hinjected := Module.parse_assemble_built.2 .built (utf8 "f") [] built builtInjected 0 .none
    .f32 Tree.successor () hreflect hparse (by decide +kernel) hinject (by decide +kernel)
    (by decide +kernel) (by decide +kernel)
  exact ⟨hperform, rfl, hinject, hparse, hinjected⟩

end Injector

end ShaderGraft
