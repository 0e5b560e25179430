import ShaderGraft.Proofs.Persistence
import ShaderGraft.Proofs.Typing

/-!
# Types of injected code

The runtime parameters that reflection finds are structs of a hash and a value
(`Module.takes_of_reflect`), and they stay so however often something is injected
(`Injector.Fits.reaches`). So trees are compiled to well-typed code, and the function that they are
injected into returns a value of its return type (`Tree.wellTyped_emitted`), with one exception: the
tree can refer to a result of the block that it replaces, which is then no longer defined. Input
maps are arbitrary functions, so it has to be assumed of them that they turn typed inputs into typed
inputs (`Tree.TypedIn`); one that makes up an id is compiled as any other. Both are shown by
`Tree.emitted_undefined`.
-/

namespace ShaderGraft

/-! ### Reflected functions -/

namespace Module

theorem denotes_of_formalType {m : Module} {p : Instruction} {type : ValueType}
    (h : m.formalType p = .wrapped type) : m.Denotes p.resultType (.struct [.u32, type]) := by
  unfold formalType at h
  split at h
  · cases h
  rename_i decl hdecl
  split at h
  case h_3 htype =>
    cases h
    exact ⟨decl, hdecl, htype⟩
  all_goals cases h

/-- A function has a formal for a runtime parameter, a struct of hash and value. -/
def Takes (m : Module) (f : Function) (p : Parameter) : Prop :=
  ∃ formal ∈ f.parameters, formal.resultId = p.composite ∧
    m.Denotes formal.resultType (.struct [.u32, p.type])

theorem formals_wrapped {m : Module} {name : Bytes} {start : Nat} {ps : List Instruction}
    {dropped : List Dropped} {fs : List Formal} (h : m.formals name start ps = (dropped, .ok fs)) :
    ∀ formal ∈ fs, ∃ p ∈ ps, p.resultId = formal.composite ∧
      m.Denotes p.resultType (.struct [.u32, formal.type]) := by
  induction ps generalizing start dropped fs with
  | nil =>
    cases h
    simp
  | cons p ps ih =>
    intro formal hformal
    rcases hread : m.formals name (start + 1) ps with ⟨dropped', rest⟩
    rw [formals] at h
    cases htype : m.formalType p with
    | plain type => simp [htype] at h
    | endless => simp [htype] at h
    | unreadable cause =>
      simp only [htype, hread] at h
      cases h
      obtain ⟨q, hq, hrest⟩ := ih hread formal hformal
      exact ⟨q, List.mem_cons_of_mem _ hq, hrest⟩
    | wrapped type =>
      simp only [htype, hread] at h
      cases rest with
      | error e => cases h
      | ok rest =>
        cases h
        rcases List.mem_cons.1 hformal with rfl | hformal
        · exact ⟨p, List.mem_cons_self .., rfl, denotes_of_formalType htype⟩
        · obtain ⟨q, hq, hrest⟩ := ih hread formal hformal
          exact ⟨q, List.mem_cons_of_mem _ hq, hrest⟩

theorem takes_of_reflect {m : Module} {name : Bytes} {i : Interface} {f : Function}
    (h : (m.reflect name).2 = .ok i) (hf : m.functions[i.function]? = some f) :
    ∀ p ∈ i.parameters, m.Takes f p := by
  obtain ⟨f', fs, -, hf', hformals, ⟨-, hnil⟩ | ⟨arguments, -, hps⟩⟩ :=
    reflect_eq_ok (Prod.ext rfl h)
  · simp [hnil]
  cases hf.symm.trans hf'
  have hread := (List.forall₂_and_left _ _).2 ⟨formals_wrapped hformals, parametersOf_eq_ok hps⟩
  refine ((List.forall₂_and_left (R := fun _ _ => True) _ _).1 (hread.flip.imp ?_)).1
  rintro p formal ⟨⟨inst, hinst, hid, htype⟩, construct, -, hp⟩
  obtain ⟨hcomposite, htypes, -⟩ := parameterOf_eq_ok hp
  exact ⟨⟨inst, hinst, hid.trans hcomposite.symm, htypes ▸ htype⟩, trivial⟩

theorem IdsDistinct.typedParameters {m : Module} (hm : m.IdsDistinct) {i : Interface}
    {f : Function} (hf : f ∈ m.functions) (htakes : ∀ p ∈ i.parameters, m.Takes f p)
    (htypes : ∀ p ∈ i.parameters, m.Denotes p.typeId p.type) : m.TypedParameters i := by
  intro p hp
  obtain ⟨formal, hformal, hid, htype⟩ := htakes p hp
  have hmem : formal ∈ m.instructions :=
    mem_instructions_of_mem_function hf (by simp [Function.instructions, hformal])
  have hdefinition := hm.definition?_eq hmem (hm.parameter_ne_zero hf formal hformal)
  rw [hid] at hdefinition
  exact ⟨htypes p hp, formal, hdefinition, htype⟩

/-- An id has the type that it was compiled with exactly if it is not dropped. -/
theorem hasType_graft_iff {m : Module} {index n : Nat} {f : Function} {a : Additions}
    {result id : ResultId} {t : ValueType} (hf : m.functions[index]? = some f)
    (hcompiled : (m.compiled index f n a result).IdsDistinct)
    (hgraft : (m.graft index f n a result).IdsDistinct)
    (h : (m.compiled index f n a result).HasType id t) :
    (m.graft index f n a result).HasType id t ↔ ¬ m.Drops f id := by
  obtain ⟨t', ⟨inst, hinst, htype⟩, hsame⟩ := h
  constructor
  · rintro ⟨_, ⟨definer, hdefiner, -⟩, -⟩ hdrops
    cases (definition?_graft_of_drops hf hcompiled.distinct hdrops).symm.trans hdefiner
  · intro hdrops
    obtain ⟨hne, hmem, rfl⟩ := mem_of_definition? hinst
    have hkept : inst ∈ (m.graft index f n a result).instructions := by
      have hall := (compiled_perm hf n a result).mem_iff.1 hmem
      refine (List.mem_append.1 hall).resolve_left fun hgone => ?_
      exact hdrops ((drops_iff hne).2 ⟨inst, hgone, rfl⟩)
    have hkeeps : (m.compiled index f n a result).Keeps (m.graft index f n a result) :=
      .of_globals List.prefix_rfl
    exact ⟨t', ⟨inst, hgraft.definition?_eq hkept hne, hkeeps.denotes htype⟩, hsame⟩

theorem checkReturnType_eq_ok {m : Module} {f : Function} {t : HostType} {type : ValueType}
    (h : m.checkReturnType f t = .ok ()) (ht : t.valueType = .ok type) :
    m.Denotes f.definition.resultType type := by
  unfold checkReturnType at h
  rw [ht] at h
  dsimp only at h
  split at h
  · cases h
  rename_i decl hdecl
  split at h
  · cases h
  rename_i got hgot
  split at h
  · rename_i hsame
    rw [ValueType.eq_of_same hsame]
    exact ⟨decl, hdecl, hgot⟩
  · cases h

end Module

namespace Injector

/-- What makes injected code well typed. -/
structure Fits (inj : Injector) (f : Function) : Prop extends inj.Located f where
  takes : ∀ p ∈ inj.interface.parameters, inj.target.Takes f p
  types : ∀ p ∈ inj.interface.parameters, inj.target.Denotes p.typeId p.type

theorem Fits.reaches {inj next : Injector} {f : Function} (h : inj.Fits f)
    (hreaches : inj.Reaches next) : next.interface = inj.interface ∧ ∃ f', next.Fits f' := by
  obtain ⟨hinterface, hkeeps, f', hlocated, hparameters⟩ := h.toLocated.reaches hreaches
  refine ⟨hinterface, f', hlocated, fun p hp => ?_, fun p hp => ?_⟩
  · obtain ⟨formal, hformal, hid, htype⟩ := h.takes p (hinterface ▸ hp)
    exact ⟨formal, hparameters ▸ hformal, hid, hkeeps.denotes htype⟩
  · exact hkeeps.denotes (h.types p (hinterface ▸ hp))

/-- Before the old blocks are left out, the result has the type of the tree. -/
theorem Fits.hasType_compiled {inj : Injector} {f : Function} {i : Input} {t : HostType}
    {tree : Tree i t} {x : i.Value} {type : ValueType} {result : ResultId} {s : Serializer}
    {n : Nat} {a : Additions} (h : inj.Fits f) (htree : tree.TypedIn inj.target)
    (hx : Input.Typed inj.target i x) (ht : t.valueType = .ok type)
    (hrun : (tree.serialize x).run (inj.opened inj.interface.function f) = .ok result s)
    (hgrows : (inj.opened inj.interface.function f).builder.Grows n s.builder)
    (ha : s.builder = (inj.opened inj.interface.function f).builder.grow n a)
    (hlimit : inj.target.header.bound.toNat + (n + 1) ≤ UInt32.size) :
    (inj.target.compiled inj.interface.function f n a result).HasType result type := by
  have hf := h.function
  have hopened := h.idWellFormed.idsBelow.openBlock (by omega) hf
  have hcompiled := idsBelow_compiled h.idWellFormed hf hgrows ha hlimit result
  have hretains : inj.target.Retains (inj.opened inj.interface.function f).builder.target := by
    refine .of_subset hopened.toIdsDistinct List.prefix_rfl fun inst hinst => ?_
    exact (Module.instructions_openBlock_perm hf).mem_iff.2 (List.mem_cons_of_mem _ hinst)
  have hparameters := h.idWellFormed.toIdsDistinct.typedParameters (List.mem_of_getElem? hf)
    h.takes h.types
  have hextent := hgrows.extent (by simp [selected?_opened hf])
  obtain ⟨hresult, -⟩ := tree.wellTyped_serialize hopened hretains hparameters rfl
    (selected?_opened hf) htree hx hrun (by omega)
  obtain ⟨type', htyped, hsame⟩ := hresult type ht
  -- only the return comes after the tree
  have hreturn : s.builder.target.Retains
      (inj.target.compiled inj.interface.function f n a result) := by
    rw [ha]
    exact .of_subset hcompiled.toIdsDistinct List.prefix_rfl
      (Module.adds_appendTo (selected?_opened_grow hf n a) rfl
        (by decide : Opcode.returnValue.IsBody)).subset
  exact ⟨type', hreturn.typedAs htyped, hsame⟩

/-- The function returns a value of its type, unless it returns what was dropped. -/
theorem Fits.returns {inj next : Injector} {f : Function} {i : Input} {t : HostType}
    {tree : Tree i t} {x : i.Value} {type : ValueType} (h : inj.Fits f)
    (htree : tree.TypedIn inj.target) (hx : Input.Typed inj.target i x)
    (ht : t.valueType = .ok type) (hinject : (inj.inject tree x).2 = .ok next)
    (hlimit : inj.target.header.bound.toNat +
      inj.target.idsTaken next.target inj.interface.function ≤ UInt32.size) :
    ∃ body result, next.target.functions[inj.interface.function]? =
        some { f with blocks := [inj.target.graftedBlock body result] } ∧
      next.target.Denotes f.definition.resultType type ∧
      (next.target.HasType result type ↔ ¬ inj.target.Drops f result) := by
  obtain ⟨index, g, result, s, n, a, hindex, hg, hcheck, hrun, hgrows, ha, hn, rfl⟩ :=
    inject_eq_ok (Prod.ext rfl hinject)
  cases h.toLocated.functionWithId?_eq.symm.trans hindex
  cases h.function.symm.trans hg
  have hf := h.function
  obtain ⟨hlt, -⟩ := List.getElem?_eq_some_iff.1 hf
  have htaken : inj.target.idsTaken (inj.target.graft _ f n a result) inj.interface.function =
    n + 1 := Module.idsTaken_graft n a result hf hn
  change _ + inj.target.idsTaken (inj.target.graft _ f n a result) _ ≤ _ at hlimit
  rw [htaken] at hlimit
  have hcompiled := idsBelow_compiled h.idWellFormed hf hgrows ha hlimit result
  have hgraft := h.idWellFormed.idsBelow.graft (by omega) hf hcompiled
  refine ⟨a.body, result, List.getElem?_set_self hlt, ?_, ?_⟩
  · exact (Module.Keeps.of_globals (List.prefix_append ..)).denotes
      (Module.checkReturnType_eq_ok hcheck ht)
  · exact Module.hasType_graft_iff hf hcompiled.toIdsDistinct hgraft.toIdsDistinct
      (h.hasType_compiled htree hx ht hrun hgrows ha hlimit)

end Injector

/-- **Emitted code is well typed.** The interface was reflected from a module with well-formed ids.
When a tree whose ids have their types, and whose input maps keep to typed ids, is compiled into any
block, the result has the type of the tree, and all that is appended to the block is well typed.
When it is injected, after any number of injections, the function returns a value of its return type
exactly if the injection does not drop what defines it. -/
theorem Tree.wellTyped_emitted {m : Module} {name : Bytes} {interface : Interface} {i : Input}
    {t : HostType} {tree : Tree i t} {x : i.Value} {type : ValueType} (hm : m.IdWellFormed)
    (hreflect : (m.reflect name).2 = .ok interface)
    (htypes : ∀ p ∈ interface.parameters, m.Denotes p.typeId p.type)
    (ht : t.valueType = .ok type) :
    (∀ s s' block result, s.builder.target = m → s.interface = some interface →
      s.builder.selected? = some block → tree.TypedIn m → Input.Typed m i x →
      (tree.serialize x).run s = .ok result s' →
      m.header.bound.toNat + (s'.builder.target.extent - m.extent) ≤ UInt32.size →
      s'.builder.target.HasType result type ∧
        ∃ new, s'.builder.selected? = some { block with body := block.body ++ new } ∧
          ∀ inst ∈ new, s'.builder.target.WellTyped inst) ∧
    ∀ options inj inj' next f, (Injector.create m name options).2 = .ok inj → inj.Reaches inj' →
      inj'.target.functions[interface.function]? = some f → tree.TypedIn inj'.target →
      Input.Typed inj'.target i x → (inj'.inject tree x).2 = .ok next →
      inj'.target.header.bound.toNat +
        inj'.target.idsTaken next.target interface.function ≤ UInt32.size →
      ∃ body result, next.target.functions[interface.function]? =
          some { f with blocks := [inj'.target.graftedBlock body result] } ∧
        next.target.Denotes f.definition.resultType type ∧
        (next.target.HasType result type ↔ ¬ inj'.target.Drops f result) := by
  obtain ⟨f₀, -, -, hf₀, -⟩ := Module.reflect_eq_ok (Prod.ext rfl hreflect)
  have htakes := Module.takes_of_reflect hreflect hf₀
  refine ⟨?_, ?_⟩
  · rintro s s' block result rfl hinterface hsel htree hx hrun hlimit
    have hretains : s.builder.target.Retains s.builder.target :=
      .of_subset hm.toIdsDistinct List.prefix_rfl (List.Subset.refl _)
    have hparameters := hm.toIdsDistinct.typedParameters (List.mem_of_getElem? hf₀) htakes htypes
    obtain ⟨hresult, hnew⟩ := tree.wellTyped_serialize hm.idsBelow hretains hparameters hinterface
      hsel htree hx hrun hlimit
    exact ⟨hresult type ht, hnew⟩
  · intro options inj inj' next f hcreate hreaches hf htree hx hinject hlimit
    obtain ⟨hreflect', rfl, f₁, hlocated⟩ := Injector.create_eq_ok hcreate hm
    cases hreflect.symm.trans hreflect'
    cases hf₀.symm.trans hlocated.function
    have hfits : inj.Fits f₀ := ⟨hlocated, htakes, htypes⟩
    obtain ⟨hinterface, f', hfits'⟩ := hfits.reaches hreaches
    rw [← hinterface] at hf hlimit ⊢
    cases hfits'.function.symm.trans hf
    exact hfits'.returns htree hx ht hinject hlimit

/-- A serializer for the block of the first function. -/
def Serializer.built : Serializer where
  builder := { target := .built, selection := { function := some 0, block := some 0 } }
  interface := some Injector.built.interface

theorem Module.denotes_built : ∀ p ∈ Injector.built.interface.parameters,
    Module.built.Denotes p.typeId p.type := by
  intro p hp
  cases List.mem_singleton.1 hp
  exact ⟨_, rfl, rfl⟩

theorem Tree.typedIn_successor (m : Module) : Tree.successor.TypedIn m := by
  simp [Tree.successor, Tree.TypedIn, Tree.Respects]

/-- What the function at an index returns. -/
theorem Module.returned_eq {m : Module} {f : Function} {g? : Option Function}
    {body : List Instruction} {result : ResultId}
    (h : g? = some { f with blocks := [m.graftedBlock body result] }) :
    ((g?.bind (·.blocks.head?)).bind (·.body.getLast?)).map (·.operands) = some [result] := by
  subst h
  simp [Module.graftedBlock]

theorem Tree.wellTyped_emitted_successor :
    Module.built.IdWellFormed ∧
      (Module.built.reflect (utf8 "f")).2 = .ok Injector.built.interface ∧
      (∃ s', (Tree.successor.serialize ()).run .built = .ok 19 s' ∧
        s'.builder.target.HasType 19 .f32 ∧
        ∃ new, s'.builder.selected? = some { Function.built.blocks[0] with
            body := Function.built.blocks[0].body ++ new } ∧
          ∀ inst ∈ new, s'.builder.target.WellTyped inst) ∧
      (Injector.built.inject Tree.successor ()).2 = .ok Injector.builtInjected ∧
      Injector.builtInjected.target.HasType 20 .f32 := by
  have hm : Module.built.IdWellFormed := by decide +kernel
  have hreflect : (Module.built.reflect (utf8 "f")).2 = .ok Injector.built.interface := rfl
  have hinject : (Injector.built.inject Tree.successor ()).2 = .ok Injector.builtInjected :=
    Injector.inject_eq_commit (by decide +kernel)
  have htree := Tree.typedIn_successor .built
  obtain ⟨hserialize, hinjected⟩ := @Tree.wellTyped_emitted .built (utf8 "f")
    Injector.built.interface .none .f32 Tree.successor () .f32 hm hreflect Module.denotes_built rfl
  obtain ⟨body, result, hfunction, -, hresult⟩ := hinjected {} .built .built .builtInjected .built
    rfl .refl rfl htree trivial hinject (by decide +kernel)
  cases (Module.returned_eq hfunction : some [20] = some [result])
  exact ⟨hm, hreflect, ⟨_, rfl, hserialize .built _ _ _ rfl rfl rfl htree trivial rfl
    (by decide +kernel)⟩, hinject, hresult.2 (by decide +kernel)⟩

/-- A tree that refers to nothing and is given nothing, but has an input map that makes up an id. -/
def Tree.conjured (id : ResultId) : Tree .none .f32 :=
  .mapInput (j := .data .f32) (fun _ => id) .input

theorem Module.not_hasType_of_definition? {m : Module} {id : ResultId} {t : ValueType}
    (h : m.definition? id = none) : ¬ m.HasType id t := by
  rintro ⟨_, ⟨inst, hinst, -⟩, -⟩
  cases h.symm.trans hinst

/-- What an input map made up is the result of a compilation, although nothing defines it. What the
function returned before is a value of its type, but injecting it drops its definition. -/
theorem Tree.emitted_undefined :
    Module.built.IdWellFormed ∧ (Injector.create .built (utf8 "f")).2 = .ok .built ∧
      (∀ p ∈ Injector.built.interface.parameters, Module.built.Denotes p.typeId p.type) ∧
      ((Tree.conjured 999).serialize ()).run .built = .ok 999 .built ∧
      ¬ Module.built.HasType 999 .f32 ∧
      Injector.built.Reaches .builtInjected ∧
      (Tree.ref 20 : Tree .none .f32).TypedIn Injector.builtInjected.target ∧
      (Injector.builtInjected.inject (Tree.ref 20 : Tree .none .f32) ()).2 =
        .ok (.builtReturning 20) ∧
      Injector.builtInjected.target.header.bound.toNat +
        Injector.builtInjected.target.idsTaken (Injector.builtReturning 20).target 0 ≤
          UInt32.size ∧
      ((Injector.builtReturning 20).target.block? 0 0).map (·.body) =
        some [{ opcode := .returnValue, operands := [20] }] ∧
      ¬ (Injector.builtReturning 20).target.HasType 20 .f32 := by
  have hinject : (Injector.built.inject Tree.successor ()).2 = .ok .builtInjected :=
    Injector.inject_eq_commit (by decide +kernel)
  have htree : (Tree.ref 20 : Tree .none .f32).TypedIn Injector.builtInjected.target := by
    rw [Tree.TypedIn, Tree.Respects]
    intro t ht
    cases ht
    exact ⟨.f32, ⟨_, rfl, _, rfl, rfl⟩, rfl⟩
  refine ⟨by decide +kernel, rfl, Module.denotes_built, rfl, ?_,
    .inject .refl hinject (by decide +kernel), htree, Injector.inject_eq_commit (by decide +kernel),
    by decide +kernel, rfl, ?_⟩
  · exact Module.not_hasType_of_definition? (by decide +kernel)
  · exact Module.not_hasType_of_definition? (by decide +kernel)

end ShaderGraft
