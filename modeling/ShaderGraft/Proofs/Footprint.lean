import ShaderGraft.Proofs.Survival
import ShaderGraft.Workspace

/-!
# The footprint of an injection

An injection that fails changes nothing. One that is committed adds to three sections, removes the
names and annotations of what was in the target, and gives the target a single new block; everything
else in the module stays as it was (`Work.inject_footprint`).
-/

namespace ShaderGraft

/-- Whether a block defines an id: as its label, or as the result of an instruction that has one. -/
def Block.Defines (b : Block) (id : ResultId) : Prop :=
  b.label.resultId = id ∨ id ≠ 0 ∧ ∃ inst ∈ b.body, inst.resultId = id

instance (b : Block) (id : ResultId) : Decidable (b.Defines id) :=
  inferInstanceAs (Decidable (_ ∨ _ ∧ ∃ inst ∈ _, _))

/-- Whether the first operand of an instruction is an id that a block of the function defines. -/
def Instruction.IsAbout (inst : Instruction) (f : Function) : Prop :=
  ∃ id ∈ inst.operands.head?, ∃ b ∈ f.blocks, b.Defines id

instance (inst : Instruction) (f : Function) : Decidable (inst.IsAbout f) :=
  inferInstanceAs (Decidable (∃ id ∈ _, ∃ b ∈ _, Block.Defines b id))

namespace Module

theorem mem_definedIn {blocks : List Block} {id : ResultId} :
    id ∈ definedIn blocks ↔ ∃ b ∈ blocks, b.Defines id := by
  simp only [definedIn, List.mem_flatMap, List.mem_cons, List.mem_filter, List.mem_map,
    Block.Defines, bne_iff_ne]
  refine exists_congr fun b => and_congr_right fun _ => ?_
  constructor
  · rintro (rfl | ⟨hinst, hid⟩)
    · exact .inl rfl
    · exact .inr ⟨hid, hinst⟩
  · rintro (rfl | ⟨hid, hinst⟩)
    · exact .inl rfl
    · exact .inr ⟨hinst, hid⟩

theorem isAbout_definedIn (f : Function) (inst : Instruction) :
    isAbout (definedIn f.blocks) inst = decide (inst.IsAbout f) := by
  rw [Bool.eq_iff_iff, decide_eq_true_iff]
  cases hops : inst.operands with
  | nil => simp [isAbout, Instruction.IsAbout, hops]
  | cons target rest => simp [isAbout, Instruction.IsAbout, hops, mem_definedIn]

/-- What an injection of a tree with the given result into the function `f` at an index may
change. -/
structure Footprint (old new : Module) (index : Nat) (f : Function) (result : ResultId) : Prop where
  header : new.header = { old.header with bound := new.header.bound }
  bound : new.header.bound = old.header.bound + .ofNat (old.idsTaken new index)
  bound_le : old.header.bound.toNat + old.idsTaken new index < UInt32.size →
    old.header.bound ≤ new.header.bound
  capabilities : old.capabilities <+: new.capabilities
  imports : old.imports <+: new.imports
  globals : old.globals <+: new.globals
  extensions : new.extensions = old.extensions
  memoryModel : new.memoryModel = old.memoryModel
  entryPoints : new.entryPoints = old.entryPoints
  executionModes : new.executionModes = old.executionModes
  sources : new.sources = old.sources
  processed : new.processed = old.processed
  names : new.names = old.names.filter (¬ ·.IsAbout f)
  annotations : new.annotations = old.annotations.filter (¬ ·.IsAbout f)
  functions : new.functions.length = old.functions.length
  others : ∀ j ≠ index, new.functions[j]? = old.functions[j]?
  target : ∃ block, new.functions[index]? = some { f with blocks := [block] } ∧
    block.body.getLast? = some { opcode := .returnValue, operands := [result] }

theorem footprint_graft {m : Module} {index : Nat} {f : Function} (n : Nat) (a : Additions)
    (result : ResultId) (hf : m.functions[index]? = some f)
    (hn : n = a.imports.length + a.globals.length + a.body.length) :
    m.Footprint (m.graft index f n a result) index f result := by
  obtain ⟨hlt, -⟩ := List.getElem?_eq_some_iff.1 hf
  have htaken := idsTaken_graft n a result hf hn
  have hbound : (m.graft index f n a result).header.bound = m.header.bound + .ofNat (n + 1) := by
    change m.header.bound + 1 + .ofNat n = _
    rw [UInt32.ofNat_add, UInt32.add_assoc, UInt32.add_comm 1]
    rfl
  exact {
    header := rfl
    bound := by rw [hbound, htaken]
    bound_le := fun hwrap => by
      rw [htaken] at hwrap
      rw [UInt32.le_iff_toNat_le, hbound, toNat_add_ofNat hwrap]
      omega
    capabilities := List.prefix_append ..
    imports := List.prefix_append ..
    globals := List.prefix_append ..
    extensions := rfl
    memoryModel := rfl
    entryPoints := rfl
    executionModes := rfl
    sources := rfl
    processed := rfl
    names := by simp [graft, isAbout_definedIn]
    annotations := by simp [graft, isAbout_definedIn]
    functions := List.length_set
    others := fun j hj => List.getElem?_set_ne hj.symm
    target := ⟨m.graftedBlock a.body result, List.getElem?_set_self hlt, by simp [graftedBlock]⟩ }

end Module

/-- After a commit the injector is placed at the new module. -/
theorem Workspace.injectorAt?_commit (w : Workspace) {n : Nat} {inj : Injector}
    (h : w.injectorAt? n = some inj) (next : Injector) :
    ({ w with injectors := w.injectors.set n { place := w.modules.length, injector := next }
      }.add next.target).injectorAt? n = some next := by
  obtain ⟨p, hp, -⟩ := Option.map_eq_some_iff.1 h
  obtain ⟨hlt, -⟩ := List.getElem?_eq_some_iff.1 hp
  simp [injectorAt?, add, use, moduleAt, List.getElem?_set_self hlt]

theorem Work.run_inject {w : Workspace} {n : Nat} {inj next : Injector} {i : Input} {t : HostType}
    {tree : Tree i t} {input : i.Value} (hn : w.injector = some n)
    (hinj : w.injectorAt? n = some inj) (h : (inj.inject tree input).2 = .ok next) :
    (Work.inject tree input).run w = (some ((inj.inject tree input).1, .ok next.generation),
      { w with injectors := w.injectors.set n { place := w.modules.length, injector := next }
        }.add next.target) := by
  change Work.inject tree input w = _
  simp [Work.inject, hn, hinj, h]

/-- An injection that fails leaves the workspace as it is. A committed one adds a module to it: the
injector goes on with that module, its generation grows by one, and the module differs from the one
before only by the footprint of the tree. -/
theorem Work.inject_footprint {i : Input} {t : HostType} (tree : Tree i t) (input : i.Value)
    (w : Workspace) :
    match (Work.inject tree input).run w with
    | (none, w') => w' = w
    | (some (_, .error _), w') => w' = w
    | (some (_, .ok generation), w') =>
      ∃ n inj next, w.injector = some n ∧ w.injectorAt? n = some inj ∧
        w'.injector = some n ∧ w'.injectorAt? n = some next ∧
        next = { inj with target := next.target, generation := inj.generation + 1 } ∧
        generation = next.generation ∧ w'.modules = w.modules ++ [next.target] ∧
        ∃ index f opened result s, inj.target.functionWithId? inj.functionId = some index ∧
          inj.target.functions[index]? = some f ∧
          (inj.start index).run { builder := { target := inj.target } } = .ok () opened ∧
          (tree.serialize input).run opened = .ok result s ∧
          inj.target.Footprint next.target index f result := by
  have hrun : (Work.inject tree input).run w = Work.inject tree input w := rfl
  rw [hrun, Work.inject]
  cases hinj : w.injector.bind fun n => (w.injectorAt? n).map (n, ·) with
  | none => rfl
  | some p =>
    obtain ⟨n, hn, hpair⟩ := Option.bind_eq_some_iff.1 hinj
    obtain ⟨inj, hat, rfl⟩ := Option.map_eq_some_iff.1 hpair
    rcases hresult : inj.inject tree input with ⟨log, e | next⟩
    · simp only [hresult]
    · obtain ⟨index, f, result, s, k, a, hindex, hf, -, hserialize, -, -, hk, rfl⟩ :=
        Injector.inject_eq_ok hresult
      simp only [hresult]
      exact ⟨n, inj, _, hn, hat, hn, w.injectorAt?_commit hat _, rfl, rfl, rfl, index, f,
        inj.opened index f, result, s, hindex, hf, Injector.run_start hf, hserialize,
        Module.footprint_graft k a result hf hk⟩

/-- A workspace with the module of one function and its injector. -/
def Workspace.built : Workspace :=
  { Workspace.ofModule .built with
    injectors := [{ place := 0, injector := .built }]
    injector := some 0 }

theorem Work.inject_footprint_built :
    ∃ log w, (Work.inject Tree.successor ()).run .built = (some (log, .ok 1), w) ∧
      w.modules = [.built, Injector.builtInjected.target] ∧
      ∃ result, Module.built.Footprint Injector.builtInjected.target 0 .built result := by
  have hinject : (Injector.built.inject Tree.successor ()).2 = .ok .builtInjected :=
    Injector.inject_eq_commit (by decide +kernel)
  obtain ⟨w, hw⟩ : ∃ w, Workspace.built = w := ⟨_, rfl⟩
  have hn : w.injector = some 0 := hw ▸ rfl
  have hat : w.injectorAt? 0 = some .built := hw ▸ rfl
  have hmodules : w.modules = [.built] := hw ▸ rfl
  rw [hw]
  have hrun := Work.run_inject hn hat hinject
  have hfootprint := Work.inject_footprint Tree.successor () w
  rw [hrun] at hfootprint
  obtain ⟨n, inj, next, hn', hat', -, hnext, -, -, -, index, f, opened, result, s, hindex, hf, -, -,
    hfootprint⟩ := hfootprint
  cases hn.symm.trans hn'
  cases hat.symm.trans hat'
  cases (w.injectorAt?_commit hat _).symm.trans hnext
  have hzero : Module.built.functionWithId? 9 = some 0 := by decide +kernel
  cases hzero.symm.trans hindex
  cases hf
  exact ⟨_, _, hrun, congrArg (· ++ [_]) hmodules, result, hfootprint⟩

end ShaderGraft
