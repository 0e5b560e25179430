import ShaderGraft.Proofs.Footprint
import ShaderGraft.Proofs.Survival

/-!
# What names and annotations are about

An injection drops the blocks of its target, and with them the names and annotations whose first
operand they define. The main statement is `Injector.inject_targets`: after that no name and no
annotation starts with an id that was dropped, and of all the ids they are about exactly those are
undefined whose definition was dropped. There can be such ids: a group of decorations lists what it
applies to after its first operand (`Injector.inject_dangling`).
-/

namespace ShaderGraft

/-- The first word of each pair. -/
def pairFirsts : List Word → List Word
  | first :: _ :: rest => first :: pairFirsts rest
  | rest => rest

/-- The ids that a name or an annotation is about. -/
def Instruction.targets (inst : Instruction) : List ResultId :=
  match inst.opcode with
  | .name | .memberName | .decorate | .memberDecorate | .decorateId | .decorateString
  | .memberDecorateString => inst.operands.take 1
  | .groupDecorate => inst.operands
  | .groupMemberDecorate => inst.operands.take 1 ++ pairFirsts (inst.operands.drop 1)
  | _ => []

namespace Module

/-- Whether all ids that an instruction is about are defined. -/
def Resolves (m : Module) (inst : Instruction) : Prop :=
  ∀ id ∈ inst.targets, (m.definition? id).isSome

instance (m : Module) (inst : Instruction) : Decidable (m.Resolves inst) :=
  decidable_of_iff (inst.targets.all fun id => (m.definition? id).isSome) List.all_eq_true

theorem isSome_definition? {m : Module} {id : ResultId} :
    (m.definition? id).isSome ↔ id ≠ 0 ∧ ∃ inst ∈ m.instructions, inst.resultId = id := by
  by_cases hid : id = 0
  · simp [definition?, hid]
  · simp [definition?, hid, List.find?_isSome]

theorem mem_of_definition? {m : Module} {id : ResultId} {inst : Instruction}
    (h : m.definition? id = some inst) : id ≠ 0 ∧ inst ∈ m.instructions ∧ inst.resultId = id := by
  unfold definition? at h
  split at h
  · cases h
  · rename_i hid
    exact ⟨hid, List.mem_of_find?_eq_some h, by simpa using List.find?_some h⟩

/-- Whether an injection into `f` drops a definition of an id: in a block, or in a name or an
annotation that is about such an id. -/
def Drops (m : Module) (f : Function) (id : ResultId) : Prop :=
  (∃ b ∈ f.blocks, b.Defines id) ∨
    ∃ inst ∈ m.names ++ m.annotations, inst.IsAbout f ∧ inst.resultId = id

instance (m : Module) (f : Function) (id : ResultId) : Decidable (m.Drops f id) :=
  inferInstanceAs (Decidable (_ ∨ _))

/-- The instructions that an injection into `f` drops. -/
def dropped (m : Module) (f : Function) : List Instruction :=
  (m.names ++ m.annotations).filter (isAbout (definedIn f.blocks)) ++
    f.blocks.flatMap Block.instructions

theorem drops_iff {m : Module} {f : Function} {id : ResultId} (hid : id ≠ 0) :
    m.Drops f id ↔ ∃ inst ∈ m.dropped f, inst.resultId = id := by
  have hblock (b : Block) : b.Defines id ↔ ∃ inst ∈ b.instructions, inst.resultId = id := by
    simp [Block.Defines, Block.instructions, hid]
  constructor
  · rintro (⟨b, hb, hdefines⟩ | ⟨inst, hinst, habout, hres⟩)
    · obtain ⟨inst, hinst, hres⟩ := (hblock b).1 hdefines
      exact ⟨inst, List.mem_append_right _ (List.mem_flatMap.2 ⟨b, hb, hinst⟩), hres⟩
    · refine ⟨inst, List.mem_append_left _ (List.mem_filter.2 ⟨hinst, ?_⟩), hres⟩
      rw [isAbout_definedIn]
      exact decide_eq_true habout
  · rintro ⟨inst, hinst, hres⟩
    rcases List.mem_append.1 hinst with hinst | hinst
    · obtain ⟨hinst, habout⟩ := List.mem_filter.1 hinst
      rw [isAbout_definedIn] at habout
      exact .inr ⟨inst, hinst, of_decide_eq_true habout, hres⟩
    · obtain ⟨b, hb, hinst⟩ := List.mem_flatMap.1 hinst
      exact .inl ⟨b, hb, (hblock b).2 ⟨inst, hinst, hres⟩⟩

/-- Changing one entry of a list so that it has fewer elements. -/
theorem flatMap_set_perm_append {α β : Type} (g : α → List β) {x y : α} {gone : List β}
    (h : (g x).Perm (gone ++ g y)) : {as : List α} → {i : Nat} → i < as.length →
      ((as.set i x).flatMap g).Perm (gone ++ (as.set i y).flatMap g)
  | _ :: as, 0, _ => by
    simp only [List.set_cons_zero, List.flatMap_cons]
    rw [← List.append_assoc]
    exact h.append_right _
  | a :: as, i + 1, hi => by
    have hrest := flatMap_set_perm_append g h (Nat.lt_of_succ_lt_succ hi)
    simp only [List.set_cons_succ, List.flatMap_cons]
    exact (hrest.append_left (g a)).trans (List.perm_append_comm_assoc ..)

/-- What was compiled is what was dropped together with what was committed. -/
theorem compiled_perm {m : Module} {index : Nat} {f : Function}
    (hf : m.functions[index]? = some f) (n : Nat) (a : Additions) (result : ResultId) :
    (m.compiled index f n a result).instructions.Perm
      (m.dropped f ++ (m.graft index f n a result).instructions) := by
  obtain ⟨hlt, -⟩ := List.getElem?_eq_some_iff.1 hf
  have hfunctions : ((m.compiled index f n a result).functions.flatMap Function.instructions).Perm
      (f.blocks.flatMap Block.instructions ++
        (m.graft index f n a result).functions.flatMap Function.instructions) := by
    rw [functions_compiled]
    refine flatMap_set_perm_append _ ?_ hlt
    rw [List.perm_iff_count]
    intro other
    simp only [Function.instructions, List.flatMap_append, List.count_append]
    omega
  have hnames := List.filter_append_perm (isAbout (definedIn f.blocks)) m.names
  have hannotations := List.filter_append_perm (isAbout (definedIn f.blocks)) m.annotations
  rw [List.perm_iff_count] at hfunctions hnames hannotations ⊢
  intro other
  have hcount := hfunctions other
  have hname := hnames other
  have hannotation := hannotations other
  simp only [instructions, declarations, dropped, List.filter_append, List.count_append]
    at hcount hname hannotation ⊢
  simp only [compiled, appendTo, grow, openBlock, takeId, graft, List.count_append]
    at hcount ⊢
  omega

section

variable {m : Module} {index : Nat} {f : Function} {n : Nat} {a : Additions} {result id : ResultId}

theorem isSome_definition?_graft (hf : m.functions[index]? = some f)
    (hsub : m.instructions ⊆ (m.compiled index f n a result).instructions)
    (hid : (m.definition? id).isSome) (hdrops : ¬ m.Drops f id) :
    ((m.graft index f n a result).definition? id).isSome := by
  obtain ⟨hne, definer, hdefiner, hres⟩ := isSome_definition?.1 hid
  have hmem := (compiled_perm hf n a result).mem_iff.1 (hsub hdefiner)
  refine isSome_definition?.2 ⟨hne, definer, ?_, hres⟩
  refine (List.mem_append.1 hmem).resolve_left fun hgone => ?_
  exact hdrops ((drops_iff hne).2 ⟨definer, hgone, hres⟩)

/-- A definition that is not dropped is found again. -/
theorem definition?_graft (hf : m.functions[index]? = some f)
    (hsub : m.instructions ⊆ (m.compiled index f n a result).instructions)
    (hdistinct : (m.graft index f n a result).IdsDistinct) {definer : Instruction}
    (hid : m.definition? id = some definer) (hdrops : ¬ m.Drops f id) :
    (m.graft index f n a result).definition? id = some definer := by
  obtain ⟨hne, hdefiner, rfl⟩ := mem_of_definition? hid
  have hmem := (compiled_perm hf n a result).mem_iff.1 (hsub hdefiner)
  refine hdistinct.definition?_eq ((List.mem_append.1 hmem).resolve_left fun hgone => ?_) hne
  exact hdrops ((drops_iff hne).2 ⟨definer, hgone, rfl⟩)

/-- What is left does not define an id again that was dropped, since in what was compiled it would
be defined twice. -/
theorem definition?_graft_of_drops (hf : m.functions[index]? = some f)
    (hdistinct : (m.compiled index f n a result).instructions.Pairwise Instruction.Apart)
    (hdrops : m.Drops f id) : (m.graft index f n a result).definition? id = none := by
  rw [(compiled_perm hf n a result).pairwise_iff fun h => h.symm, List.pairwise_append]
    at hdistinct
  by_contra hsome
  obtain ⟨hne, kept, hkept, hkeptId⟩ := isSome_definition?.1 (Option.isSome_iff_ne_none.2 hsome)
  obtain ⟨gone, hgone, hgoneId⟩ := (drops_iff hne).1 hdrops
  have hzero := hdistinct.2.2 gone hgone kept hkept (hgoneId.trans hkeptId.symm)
  exact hne (hgoneId ▸ hzero)

end

end Module

namespace Injector

/-- After an injection no name and no decoration is about an id that a dropped block defined. An id
that they mention is defined if its definition was not dropped, and not otherwise as long as the
bound does not wrap around. -/
theorem inject_targets {inj next : Injector} {index : Nat} {f : Function} {i : Input}
    {t : HostType} {tree : Tree i t} {input : i.Value} (hm : inj.target.IdWellFormed)
    (htargets : ∀ inst ∈ inj.target.names ++ inj.target.annotations, inj.target.Resolves inst)
    (hindex : inj.target.functionWithId? inj.functionId = some index)
    (hf : inj.target.functions[index]? = some f) (h : (inj.inject tree input).2 = .ok next) :
    ∀ inst ∈ next.target.names ++ next.target.annotations, ∀ id ∈ inst.targets,
      (id ∈ inst.operands.head? → ¬ ∃ b ∈ f.blocks, b.Defines id) ∧
      (¬ inj.target.Drops f id → (next.target.definition? id).isSome) ∧
      (inj.target.header.bound.toNat + inj.target.idsTaken next.target index ≤ UInt32.size →
        inj.target.Drops f id → next.target.definition? id = none) := by
  intro inst hinst id hid
  obtain ⟨index', f', n, a, result, hindex', hf', hchanges, hsub, hnext, htaken⟩ :=
    changes_inject (Prod.ext rfl h)
  cases hindex.symm.trans hindex'
  cases hf.symm.trans hf'
  have hkept : inst ∈ inj.target.names ++ inj.target.annotations ∧ ¬ inst.IsAbout f := by
    rw [hnext, Module.graft, ← List.filter_append, List.mem_filter,
      Module.isAbout_definedIn] at hinst
    simpa using hinst
  refine ⟨fun hhead hdefines => hkept.2 ⟨id, hhead, hdefines⟩, fun hdrops => ?_,
    fun hlimit hdrops => ?_⟩
  · rw [hnext]
    exact Module.isSome_definition?_graft hf hsub (htargets inst hkept.1 id hid) hdrops
  · rw [htaken] at hlimit
    have hbelow := hchanges.idsBelow hm.idsBelow hlimit fun _ hplain => hplain
    rw [hnext]
    exact Module.definition?_graft_of_drops hf hbelow.distinct hdrops

end Injector

/-- A module with a group of decorations that is for the label of a block. -/
def Module.grouped : Module := { Module.built with
  header := { version := ⟨1, 3⟩, bound := 18 }
  annotations := [
    { opcode := .decorate, operands := [17, 0] },
    { opcode := .decorationGroup, resultId := 17 },
    { opcode := .groupDecorate, operands := [17, 11] }] }

namespace Injector

/-- The injector for the function with that block. -/
def grouped : Injector :=
  { built with target := .grouped }

/-- After the successor was injected. -/
def groupedInjected : Injector :=
  grouped.commit Module.grouped.withSuccessor

theorem inject_targets_grouped :
    Module.grouped.IdWellFormed ∧
      (∀ inst ∈ Module.grouped.names ++ Module.grouped.annotations,
        Module.grouped.Resolves inst) ∧
      (grouped.inject Tree.successor ()).2 = .ok groupedInjected ∧
      (groupedInjected.target.definition? 17).isSome ∧
      groupedInjected.target.definition? 11 = none := by
  have hm : Module.grouped.IdWellFormed := by decide +kernel
  have htargets : ∀ inst ∈ Module.grouped.names ++ Module.grouped.annotations,
      Module.grouped.Resolves inst := by decide +kernel
  have hinject : (grouped.inject Tree.successor ()).2 = .ok groupedInjected :=
    inject_eq_commit (by decide +kernel)
  have hindex : Module.grouped.functionWithId? grouped.functionId = some 0 := rfl
  have hf : Module.grouped.functions[0]? = some .built := rfl
  have hall := inject_targets hm htargets hindex hf hinject
    { opcode := .groupDecorate, operands := [17, 11] } (by decide +kernel)
  obtain ⟨-, hgroup, -⟩ := hall 17 (by decide)
  obtain ⟨-, -, hlabel⟩ := hall 11 (by decide)
  exact ⟨hm, htargets, hinject, hgroup (by decide +kernel),
    hlabel (by decide +kernel) (by decide +kernel)⟩

theorem inject_dangling :
    Module.grouped.IdWellFormed ∧
      (∀ inst ∈ Module.grouped.names ++ Module.grouped.annotations,
        Module.grouped.Resolves inst) ∧
      (grouped.inject Tree.successor ()).2 = .ok groupedInjected ∧
      ∃ inst ∈ groupedInjected.target.annotations, ¬ groupedInjected.target.Resolves inst :=
  ⟨by decide +kernel, by decide +kernel, inject_eq_commit (by decide +kernel), by decide +kernel⟩

end Injector

end ShaderGraft
