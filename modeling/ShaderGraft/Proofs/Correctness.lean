import ShaderGraft.Proofs.Reflection
import ShaderGraft.Proofs.Simulation

/-!
# Calling an injected function

Injecting a tree and calling the function gives the value of the tree (`Injector.call_inject`). The
function is called in a module that any number of injections have changed before, so what an
injection needs of its module is an invariant of the injector (`Injector.Ready`): it holds from the
start, and every committed injection keeps it.
-/

namespace ShaderGraft

/-! ### The frame of a call -/

namespace Module

/-- Arguments are stored one after the other. -/
theorem get?_foldl_insert_of_ne {id : ResultId} :
    {pairs : List (Instruction × Value)} → {values : IdMap Value} →
      (∀ pair ∈ pairs, pair.1.resultId ≠ id) →
      (pairs.foldl (fun vs (p, v) => vs.insert p.resultId v) values).get? id = values.get? id
  | [], _, _ => rfl
  | (p, v) :: rest, values, h => by
    rw [List.forall_mem_cons] at h
    rw [List.foldl_cons, get?_foldl_insert_of_ne h.2, IdMap.get?_insert, if_neg h.1]

theorem get?_foldl_insert {p : Instruction} {v : Value} :
    {pairs : List (Instruction × Value)} → {values : IdMap Value} →
      pairs.Pairwise (fun a b => a.1.resultId ≠ b.1.resultId) → (p, v) ∈ pairs →
      (pairs.foldl (fun vs (p, v) => vs.insert p.resultId v) values).get? p.resultId = some v
  | (q, w) :: rest, values, h, hmem => by
    rw [List.pairwise_cons] at h
    rw [List.foldl_cons]
    rcases List.mem_cons.1 hmem with heq | hmem
    · cases heq
      rw [get?_foldl_insert_of_ne fun pair hpair => (h.1 pair hpair).symm, IdMap.get?_insert,
        if_pos rfl]
    · exact get?_foldl_insert h.2 hmem

/-- A frame starts with values for the formal parameters only. -/
theorem mem_parameters_of_startFrame {f : Function} {args : List Value} {id : ResultId} {v : Value}
    (h : (startFrame f args).values.get? id = some v) :
    ∃ inst ∈ f.parameters, inst.resultId = id := by
  by_contra hnone
  have hne : ∀ pair ∈ f.parameters.zip args, pair.1.resultId ≠ id := fun pair hpair heq =>
    hnone ⟨pair.1, (List.of_mem_zip hpair).1, heq⟩
  rw [startFrame, get?_foldl_insert_of_ne hne] at h
  simp at h

/-- A formal parameter has the argument at its place. -/
theorem get?_startFrame {f : Function} {args : List Value} {k : Nat} {formal : Instruction}
    {v : Value} (h : f.parameters.Pairwise fun a b => a.resultId ≠ b.resultId)
    (hlength : args.length = f.parameters.length) (hformal : f.parameters[k]? = some formal)
    (hv : args[k]? = some v) : (startFrame f args).values.get? formal.resultId = some v := by
  have hpairs : ((f.parameters.zip args).map Prod.fst).Pairwise fun a b =>
      a.resultId ≠ b.resultId := by
    rwa [List.map_fst_zip (by omega)]
  have hmem : (formal, v) ∈ f.parameters.zip args :=
    List.mem_of_getElem? (List.getElem?_zip_eq_some.2 ⟨hformal, hv⟩)
  have hdistinct := List.pairwise_map.1 hpairs
  exact get?_foldl_insert hdistinct hmem

end Module

/-! ### What an injector needs -/

/-- Whether everything that is imported under the name of the standard set is an import. -/
def Module.StandardImports (m : Module) : Prop :=
  ∀ inst ∈ m.imports, (Literal.decode inst.operands).1 = standardSet → inst.opcode = .extInstImport

instance (m : Module) : Decidable m.StandardImports :=
  inferInstanceAs (Decidable (∀ inst ∈ m.imports, _ → _))

namespace Injector

/-- What makes injections into a function right. -/
structure Ready (inj : Injector) : Prop where
  idWellFormed : inj.target.IdWellFormed
  standardImports : inj.target.StandardImports
  instructionSet : inj.instructionSet = [] ∨ inj.instructionSet = standardSet
  /-- The function is still at its index, with the formal parameters that were reflected. -/
  function : ∃ f, inj.target.functions[inj.interface.function]? = some f ∧ f.id = inj.functionId ∧
    ∀ p ∈ inj.interface.parameters, ∃ formal ∈ f.parameters, formal.resultId = p.composite

/-- An injector that was just made is ready. -/
theorem ready_create {m : Module} {name : Bytes} {options : Options} {inj : Injector}
    (hm : m.IdWellFormed) (himports : m.StandardImports)
    (hset : options.instructionSet = [] ∨ options.instructionSet = standardSet)
    (h : (create m name options).2 = .ok inj) : inj.Ready := by
  unfold create at h
  rcases hreflect : m.reflect name with ⟨dropped, e | i⟩
  · simp [hreflect] at h
  · simp only [hreflect] at h
    cases h
    obtain ⟨f, hf, hparameters⟩ := Module.reflect_parameters hreflect
    exact ⟨hm, himports, hset, f, hf, by simp [hf], fun p hp => (hparameters p hp).2⟩

/-- The injections that were committed between two states of an injector, without the bound wrapping
around. An injection that fails leaves the injector as it is. -/
inductive Reaches (inj : Injector) : Injector → Prop where
  | refl : Reaches inj inj
  | inject {before after : Injector} {i : Input} {t : HostType} {tree : Tree i t}
    {input : i.Value} : Reaches inj before → (before.inject tree input).2 = .ok after →
      before.target.header.bound.toNat +
        before.target.idsTaken after.target before.interface.function < UInt32.size →
      Reaches inj after

/-- Where an injection goes. -/
theorem Ready.functionWithId?_eq {inj : Injector} (h : inj.Ready) :
    inj.target.functionWithId? inj.functionId = some inj.interface.function := by
  obtain ⟨f, hf, hid, -⟩ := h.function
  rw [← hid]
  exact h.idWellFormed.toIdsDistinct.functionWithId?_eq hf

theorem Ready.standardImports_inject {inj next : Injector} {i : Input} {t : HostType}
    {tree : Tree i t} {input : i.Value} (h : inj.Ready)
    (hinject : (inj.inject tree input).2 = .ok next) : next.target.StandardImports := by
  obtain ⟨index, f, result, s, n, a, -, -, -, -, -, -, -, rfl⟩ :=
    inject_eq_ok (Prod.ext rfl hinject)
  intro inst hinst hname
  rcases List.mem_append.1 hinst with hinst | hinst
  · exact h.standardImports inst hinst hname
  · exact a.imported inst hinst

/-- A committed injection leaves the function at its index with its formal parameters. -/
theorem Ready.function_inject {inj next : Injector} {i : Input} {t : HostType}
    {tree : Tree i t} {input : i.Value} (h : inj.Ready)
    (hinject : (inj.inject tree input).2 = .ok next) :
    ∃ f, next.target.functions[next.interface.function]? = some f ∧ f.id = next.functionId ∧
      ∀ p ∈ next.interface.parameters, ∃ formal ∈ f.parameters,
        formal.resultId = p.composite := by
  obtain ⟨index, f, result, s, n, a, hindex, hf, -, -, -, -, -, rfl⟩ :=
    inject_eq_ok (Prod.ext rfl hinject)
  cases h.functionWithId?_eq.symm.trans hindex
  obtain ⟨f', hf', hid, hparameters⟩ := h.function
  cases hf.symm.trans hf'
  obtain ⟨hlt, -⟩ := List.getElem?_eq_some_iff.1 hf
  exact ⟨_, List.getElem?_set_self hlt, hid, hparameters⟩

/-- A committed injection leaves the injector ready if the bound does not wrap around. -/
theorem Ready.inject {inj next : Injector} {i : Input} {t : HostType} {tree : Tree i t}
    {input : i.Value} (h : inj.Ready) (hinject : (inj.inject tree input).2 = .ok next)
    (hwrap : inj.target.header.bound.toNat +
      inj.target.idsTaken next.target inj.interface.function < UInt32.size) : next.Ready := by
  have hids := idsBelow_inject (Prod.ext rfl hinject) h.idWellFormed h.functionWithId?_eq
    (Nat.le_of_lt hwrap)
  refine ⟨hids.idWellFormed hwrap, h.standardImports_inject hinject, ?_, h.function_inject hinject⟩
  obtain ⟨_, _, _, _, _, _, _, _, _, _, _, _, _, rfl⟩ := inject_eq_ok (Prod.ext rfl hinject)
  exact h.instructionSet

theorem Ready.reaches {inj next : Injector} (h : inj.Ready) (hreaches : inj.Reaches next) :
    next.Ready := by
  induction hreaches with
  | refl => exact h
  | inject _ hinject hwrap ih => exact ih.inject hinject hwrap

end Injector

/-! ### Calling the function -/

/-- Whether arguments for formal parameters give every runtime parameter of floats its value, with
as many components as its type has. -/
structure Interface.Passes (i : Interface) (formals : List Instruction) (args : List Value)
    (values : ResultId → List Float32) : Prop where
  length : args.length = formals.length
  components : ∀ p ∈ i.parameters, ∀ n, p.type.floatCount? = some n →
    (values p.composite).length = n
  argument : ∀ p ∈ i.parameters, ∀ n, p.type.floatCount? = some n →
    ∀ (k : Nat) (formal : Instruction), formals[k]? = some formal →
      formal.resultId = p.composite →
      ∃ hash, args[k]? = some (Value.parameter hash (.floatVector (values p.composite)))

/-- A frame starts with the values that the arguments give. -/
theorem Interface.Passes.get?_startFrame {i : Interface} {f : Function} {args : List Value}
    {values : ResultId → List Float32} (h : i.Passes f.parameters args values)
    (hdistinct : f.parameters.Pairwise fun a b => a.resultId ≠ b.resultId)
    (hformals : ∀ p ∈ i.parameters, ∃ formal ∈ f.parameters, formal.resultId = p.composite)
    {p : Parameter} (hp : p ∈ i.parameters) {n : Nat} (hn : p.type.floatCount? = some n) :
    (values p.composite).length = n ∧ ∃ hash, (Module.startFrame f args).values.get? p.composite =
      some (.parameter hash (.floatVector (values p.composite))) := by
  obtain ⟨formal, hformal, hid⟩ := hformals p hp
  obtain ⟨k, hk⟩ := List.mem_iff_getElem?.1 hformal
  obtain ⟨hash, harg⟩ := h.argument p hp n hn k formal hk hid
  have hget := Module.get?_startFrame hdistinct h.length hk harg
  rw [hid] at hget
  exact ⟨h.components p hp n hn, hash, hget⟩

namespace Module

variable {m : Module} {f : Function} {block : Block} {body : List Instruction} {last : Instruction}

/-- The instructions whose ids a call of a function with one block can look up. -/
theorem code_sublist (hf : f ∈ m.functions) (hblocks : f.blocks = [block])
    (hbody : block.body = body ++ [last]) :
    (m.globals ++ (f.parameters ++ body)).Sublist m.instructions := by
  have hglobals : m.globals.Sublist m.declarations := List.sublist_append_right ..
  have hblock : body.Sublist (f.blocks.flatMap Block.instructions) := by
    rw [hblocks, List.flatMap_singleton, Block.instructions, hbody]
    exact (List.sublist_append_left ..).trans (List.sublist_cons_self ..)
  have hfunction : (f.parameters ++ body).Sublist f.instructions :=
    ((List.sublist_cons_self ..).append hblock).trans (List.sublist_append_left ..)
  exact hglobals.append (hfunction.trans (List.sublist_flatten_of_mem (List.mem_map_of_mem hf)))

namespace IdsDistinct

theorem parameter_ne_zero (hm : m.IdsDistinct) (hf : f ∈ m.functions) :
    ∀ inst ∈ f.parameters, inst.resultId ≠ 0 := fun inst hinst =>
  hm.outline f hf inst (List.mem_append_left _ (List.mem_cons_of_mem _ hinst))

theorem parameters_distinct (hm : m.IdsDistinct) (hf : f ∈ m.functions) :
    f.parameters.Pairwise fun a b => a.resultId ≠ b.resultId := by
  have hfunction : f.parameters.Sublist f.instructions :=
    (List.sublist_cons_self ..).trans
      ((List.sublist_append_left ..).trans (List.sublist_append_left ..))
  have hsub : f.parameters.Sublist m.instructions :=
    (hfunction.trans (List.sublist_flatten_of_mem (List.mem_map_of_mem hf))).trans
      (List.sublist_append_right ..)
  exact (hm.distinct.sublist hsub).imp_of_mem fun ha _ hapart heq =>
    hm.parameter_ne_zero hf _ ha (hapart heq)

end IdsDistinct

end Module

/-- The run of a call of a function with one block of typed instructions and a return. -/
def Compilation.ofCall (host : Host) {m : Module} {interface : Interface} {f : Function}
    {block : Block} {body : List Instruction} {last : Instruction} {args : List Value}
    {values : ResultId → List Float32} (hm : m.IdsDistinct) (himports : m.StandardImports)
    (hf : f ∈ m.functions) (hblocks : f.blocks = [block]) (hbody : block.body = body ++ [last])
    (htyped : ∀ inst ∈ body, inst.opcode.layout = .typed) (hshort : body.length < maxSteps)
    (hformals : ∀ p ∈ interface.parameters, ∃ formal ∈ f.parameters,
      formal.resultId = p.composite)
    (hargs : interface.Passes f.parameters args values) : Compilation where
  committed := m
  interface
  formals := f.parameters
  body
  host
  callee := m.callAt host maxCallDepth
  start := Module.startFrame f args
  values
  idsDistinct := hm
  imports := himports
  apart := hm.distinct.sublist (Module.code_sublist hf hblocks hbody)
  ne_zero := fun inst hinst => by
    have hmem := (Module.code_sublist hf hblocks hbody).subset (List.mem_append_right _ hinst)
    rcases List.mem_append.1 hinst with hinst | hinst
    · exact hm.parameter_ne_zero hf inst hinst
    · exact hm.ne_zero inst hmem (by simp [htyped inst hinst])
  short := hshort
  keys := fun _ _ => Module.mem_parameters_of_startFrame
  passed := fun _ hp _ hn => hargs.get?_startFrame (hm.parameters_distinct hf) hformals hp hn

namespace Injector

variable {inj : Injector} {index : Nat} {f : Function}

/-- A tree is compiled from an empty block on, with the standard set. -/
theorem reached_opened {c : Compilation} (hinterface : c.interface = inj.interface)
    (hset : inj.instructionSet = [] ∨ inj.instructionSet = standardSet)
    (hf : inj.target.functions[index]? = some f) : c.Reached (inj.opened index f) c.start where
  interface := congrArg some hinterface.symm
  setName := by
    rcases hset with hset | hset
    · simp [opened, hset]
    · rw [opened, hset]
      rfl
  setImported := .inl rfl
  started := .refl _
  body := by
    refine ⟨_, selected?_opened hf, Module.leads_nil .., fun id v hget => ?_⟩
    obtain ⟨inst, hinst, hid⟩ := c.keys id v hget
    exact ⟨inst, List.mem_append_left _ hinst, hid⟩

/-- **Compiler correctness.** An injector was made for a module with well-formed ids, and any number
of injections have changed the module since. When a tree is injected that needs nothing from the
module, the function returns the value of the tree, for all values of the runtime parameters. This
is so on every host, whatever its functions of floats are. -/
theorem call_inject (host : Host) {m : Module} {name : Bytes} {options : Options}
    {inj₀ inj next : Injector} {i : Input} {t : HostType} {tree : Tree i t} {input : i.Value}
    {y : i.Meaning} {f : Function} {args : List Value} {values : ResultId → List Float32}
    (hm : m.IdWellFormed) (himports : m.StandardImports)
    (hset : options.instructionSet = [] ∨ options.instructionSet = standardSet)
    (hcreate : (create m name options).2 = .ok inj₀) (hreaches : inj₀.Reaches inj)
    (hdirect : tree.Direct) (hinput : Input.Empty input y)
    (hinject : (inj.inject tree input).2 = .ok next)
    (hwrap : inj.target.header.bound.toNat +
      inj.target.idsTaken next.target inj.interface.function ≤ UInt32.size)
    (hf : next.target.functions[inj.interface.function]? = some f)
    (hshort : ∀ block ∈ f.blocks, block.body.length ≤ maxSteps)
    (hargs : inj.interface.Passes f.parameters args values) :
    ∃ xs, tree.Evaluates host (inj.interface.environment values) y xs ∧
      (∀ ys, tree.Evaluates host (inj.interface.environment values) y ys → ys = xs) ∧
      next.target.call host inj.interface.function args = .ok (.floatVector xs) := by
  have hready := (ready_create hm himports hset hcreate).reaches hreaches
  have hids := idsBelow_inject (Prod.ext rfl hinject) hready.idWellFormed
    hready.functionWithId?_eq hwrap
  have himports' := hready.standardImports_inject hinject
  obtain ⟨f', hf', -, hformals⟩ := hready.function_inject hinject
  obtain ⟨index, g, result, s, n, a, hindex, hg, -, hrun, -, ha, -, rfl⟩ :=
    inject_eq_ok (Prod.ext rfl hinject)
  -- the function that is called is the one that the tree was compiled into
  cases hready.functionWithId?_eq.symm.trans hindex
  obtain ⟨hlt, -⟩ := List.getElem?_eq_some_iff.1 hg
  cases (List.getElem?_set_self hlt).symm.trans hf
  cases hf.symm.trans hf'
  have hbody : a.body.length < maxSteps := by
    have hlength := hshort _ (List.mem_singleton_self _)
    simp only [Module.graftedBlock, List.length_append, List.length_singleton] at hlength
    omega
  let c : Compilation := .ofCall host hids.toIdsDistinct himports' (List.mem_of_getElem? hf)
    rfl rfl a.typed hbody hformals hargs
  have hblock := selected?_opened_grow hg n a
  rw [← ha] at hblock
  -- nothing is added after the tree but the return, which `ofCall` leaves out
  have hwithin : c.Within s := {
    imports := by rw [ha]; exact List.prefix_rfl
    globals := by rw [ha]; exact List.prefix_rfl
    body := ⟨_, hblock, List.prefix_rfl⟩ }
  have hstart : c.Reached (inj.opened inj.interface.function g) c.start :=
    reached_opened rfl hready.instructionSet hg
  obtain ⟨frame, -, hreached, xs, hxs, hresult⟩ :=
    tree.correct_serialize hdirect (.of_empty hinput) _ _ _ hrun hstart hwithin
  have hlocal := hreached.local hwithin
  obtain ⟨block, hsel, hleads, -⟩ := hreached.body
  cases hblock.symm.trans hsel
  exact ⟨xs, hxs, fun ys hys => tree.evaluates_unique hys hxs,
    Module.call_eq_ok hf rfl rfl hargs.length hleads hlocal hresult.holds hbody⟩

end Injector

/-! ### Instances -/

/-- A function `f` of one runtime parameter `x`, which returns zero, and a call of it. -/
def Module.oneParameter : Module where
  header := { version := ⟨1, 3⟩, bound := 13 }
  names := [{ opcode := .name, operands := 5 :: Literal.encode (utf8 "f") }]
  globals := [
    { opcode := .typeFloat, resultId := 1, operands := [32] },
    { opcode := .typeInt, resultId := 2, operands := [32, 0] },
    { opcode := .typeStruct, resultId := 3, operands := [2, 1] },
    { opcode := .constant, resultType := 2, resultId := 4, operands := [nameHash (utf8 "x")] },
    { opcode := .constant, resultType := 1, resultId := 6, operands := [0] }]
  functions := [
    { definition := { opcode := .function, resultType := 1, resultId := 5, operands := [0, 0] }
      parameters := [{ opcode := .functionParameter, resultType := 3, resultId := 7 }]
      blocks := [{ label := { opcode := .label, resultId := 8 }
                   body := [{ opcode := .returnValue, operands := [6] }] }] },
    { definition := { opcode := .function, resultId := 9, operands := [0, 0] }
      blocks := [{ label := { opcode := .label, resultId := 10 }
                   body := [
                    { opcode := .compositeConstruct, resultType := 3, resultId := 11
                      operands := [4, 6] },
                    { opcode := .functionCall, resultType := 1, resultId := 12
                      operands := [5, 11] },
                    { opcode := .returnVoid }] }] }]

/-- The number one. -/
def Tree.one : Tree .none .f32 :=
  .constant (0x3f800000 : UInt32)

/-- The root of `x + 1`. -/
def Tree.root : Tree .none .f32 :=
  .elementary .sqrt (.arithmetic .add (.parameter (utf8 "x") (0 : UInt32)) .one)

namespace Injector

/-- The injector for the function of one parameter. -/
def oneParameter : Injector where
  target := .oneParameter
  interface := { function := 0, parameters := [
    { composite := 7, typeId := 1, hash := nameHash (utf8 "x"), type := .float 32 }] }
  functionId := 5
  name := utf8 "f"
  instructionSet := []

/-- After the number one was injected. -/
def oneInjected : Injector :=
  Injector.oneParameter.commit (Module.oneParameter.graft 0 Module.oneParameter.functions[0] 1 {
    globals := [{ opcode := .constant, resultType := 1, resultId := 14, operands := [0x3f800000] }]
    } 14)

/-- After the root was injected, too. -/
def rootInjected : Injector :=
  oneInjected.commit (oneInjected.target.graft 0 Module.oneParameter.functions[0] 4 {
    imports := [
      { opcode := .extInstImport, resultId := 18, operands := Literal.encode standardSet }]
    body := [
      { opcode := .compositeExtract, resultType := 1, resultId := 16, operands := [7, 1] },
      { opcode := .fAdd, resultType := 1, resultId := 17, operands := [16, 14] },
      { opcode := .extInst, resultType := 1, resultId := 19, operands := [18, 31, 17] }]
    typed := by decide } 19)

/-- After another tree was injected, the function returns the root for the argument it is given. -/
theorem call_inject_root :
    (create .oneParameter (utf8 "f")).2 = .ok oneParameter ∧
      (oneParameter.inject Tree.one ()).2 = .ok oneInjected ∧
      (oneInjected.inject Tree.root ()).2 = .ok rootInjected ∧
      rootInjected.target.call .native 0 [.parameter (nameHash (utf8 "x")) (.float 3)] =
        .ok (.float (3 + .ofBits 0x3f800000 : Float32).sqrt) := by
  have hcreate : (create .oneParameter (utf8 "f")).2 = .ok oneParameter := rfl
  have hone : (oneParameter.inject Tree.one ()).2 = .ok oneInjected :=
    inject_eq_commit (by decide +kernel)
  have hroot : (oneInjected.inject Tree.root ()).2 = .ok rootInjected :=
    inject_eq_commit (by decide +kernel)
  have hpasses : oneInjected.interface.Passes
      [{ opcode := .functionParameter, resultType := 3, resultId := 7 }]
      [.parameter (nameHash (utf8 "x")) (.float 3)] fun _ => [3] := {
    length := rfl
    components := by
      intro p hp n hn
      cases List.mem_singleton.1 hp
      cases hn
      rfl
    argument := by
      intro p _ n _ k formal hformal _
      match k with
      | 0 => exact ⟨_, rfl⟩
      | k + 1 => cases hformal }
  have htype : HostType.f32.valueType = .ok (.float 32) := rfl
  have hx : Tree.Evaluates .native (oneInjected.interface.environment fun _ => [3])
      (.parameter (utf8 "x") (0 : UInt32) : Tree .none .f32) () [3] :=
    .parameter htype
  have hvalue : Tree.root.Evaluates .native (oneInjected.interface.environment fun _ => [3]) ()
      [(3 + .ofBits 0x3f800000 : Float32).sqrt] :=
    .elementary (.arithmetic hx .constant)
  have hdirect : Tree.root.Direct := by
    simp only [Tree.root, Tree.one, Tree.Direct]
    exact ⟨⟨1, .f32⟩, 1, .f32⟩
  obtain ⟨xs, -, hunique, hcall⟩ := call_inject .native (by decide) (by decide) (.inl rfl)
    hcreate (.inject .refl hone (by decide)) hdirect .none hroot (by decide) rfl
    (by simp [maxSteps, Module.graftedBlock]) hpasses
  cases hunique _ hvalue
  exact ⟨hcreate, hone, hroot, hcall⟩

end Injector

/-- A function `f` in a module that has something else under the name of the standard set. -/
def Module.misnamed : Module where
  header := { version := ⟨1, 3⟩, bound := 5 }
  imports := [{ opcode := .nop, resultId := 4, operands := Literal.encode standardSet }]
  names := [{ opcode := .name, operands := 2 :: Literal.encode (utf8 "f") }]
  globals := [{ opcode := .typeFloat, resultId := 1, operands := [32] }]
  functions := [
    { definition := { opcode := .function, resultType := 1, resultId := 2, operands := [0, 0] }
      blocks := [{ label := { opcode := .label, resultId := 3 } }] }]

namespace Injector

/-- The injector for the function of the misnamed module. -/
def misnamed : Injector where
  target := .misnamed
  interface := { function := 0, parameters := [] }
  functionId := 2
  name := utf8 "f"
  instructionSet := []

/-- The root of one. -/
def misnamedInjected : Injector :=
  misnamed.commit (Module.misnamed.graft 0 Module.misnamed.functions[0] 2 {
    globals := [{ opcode := .constant, resultType := 1, resultId := 6, operands := [0x3f800000] }]
    body := [{ opcode := .extInst, resultType := 1, resultId := 7, operands := [4, 31, 6] }]
    typed := by decide } 7)

/-- Without standard imports a call can fail: what has the name of the set is used for it, but it is
not an import. -/
theorem call_inject_misnamed :
    Module.misnamed.IdWellFormed ∧ (create .misnamed (utf8 "f")).2 = .ok misnamed ∧
      (Tree.elementary .sqrt Tree.one).Direct ∧
      (misnamed.inject (.elementary .sqrt Tree.one) ()).2 = .ok misnamedInjected ∧
      misnamed.target.header.bound.toNat +
        misnamed.target.idsTaken misnamedInjected.target misnamed.interface.function ≤ UInt32.size ∧
      misnamed.interface.Passes [] [] (fun _ => []) ∧
      (Tree.elementary .sqrt Tree.one).Evaluates .native
        (misnamed.interface.environment fun _ => []) () [(Float32.ofBits 0x3f800000).sqrt] ∧
      misnamedInjected.target.call .native 0 [] =
        .error (.error (.within 2 5 (.undefinedSet 4))) := by
  have hdirect : (Tree.elementary .sqrt Tree.one).Direct := by
    simp only [Tree.one, Tree.Direct]
    exact ⟨1, .f32⟩
  have hpasses : misnamed.interface.Passes [] [] fun _ => [] :=
    ⟨rfl, by simp [misnamed], by simp [misnamed]⟩
  exact ⟨by decide, rfl, hdirect, inject_eq_commit (by decide +kernel), by decide, hpasses,
    .elementary .constant, rfl⟩

end Injector

end ShaderGraft
