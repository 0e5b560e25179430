import ShaderGraft.Proofs.Growth

/-!
# What an injection commits

`Injector.inject_eq_ok` says once what a committed injection is: the tree was compiled in a new
block of the target function, and the new module is the old one with what compiling added, with that
block in place of the old ones, and without the names and annotations of what those defined.
-/

namespace ShaderGraft

namespace Module

/-- The module with a new block at the end of the function `f` at an index. -/
def openBlock (m : Module) (index : Nat) (f : Function) : Module :=
  { m.takeId with
    functions := m.functions.set index { f with
      blocks := f.blocks ++ [{ label := { opcode := .label, resultId := m.header.bound } }] } }

/-- The block of a compiled tree, which takes the next id of the module for its label. -/
def graftedBlock (m : Module) (body : List Instruction) (result : ResultId) : Block where
  label := { opcode := .label, resultId := m.header.bound }
  body := body ++ [{ opcode := .returnValue, operands := [result] }]

/-- The module with additions and with the block of a compiled tree in place of the blocks of the
function `f` at an index. Besides the label, `n` ids were given out. -/
def graft (m : Module) (index : Nat) (f : Function) (n : Nat) (a : Additions) (result : ResultId) :
    Module :=
  { m with
    header.bound := m.header.bound + 1 + .ofNat n
    capabilities := m.capabilities ++ a.capabilities
    imports := m.imports ++ a.imports
    globals := m.globals ++ a.globals
    names := m.names.filter (! isAbout (definedIn f.blocks) ·)
    annotations := m.annotations.filter (! isAbout (definedIn f.blocks) ·)
    functions := m.functions.set index { f with blocks := [m.graftedBlock a.body result] } }

theorem map_id_set {fs : List Function} {index : Nat} {f : Function} (hf : fs[index]? = some f)
    (blocks : List Block) :
    (fs.set index { f with blocks }).map Function.id = fs.map Function.id := by
  obtain ⟨hlt, rfl⟩ := List.getElem?_eq_some_iff.1 hf
  have hid : (fs.map Function.id)[index]? = some fs[index].id := by simp [hlt]
  rw [List.map_set]
  refine List.ext_getElem? fun j => ?_
  by_cases hj : index = j
  · subst hj
    rw [List.getElem?_set_self (by simpa using hlt), hid]
    rfl
  · rw [List.getElem?_set_ne hj]

theorem modify_length_append {α : Type} (xs : List α) (x : α) (f : α → α) :
    (xs ++ [x]).modify xs.length f = xs ++ [f x] := by
  induction xs with
  | nil => rfl
  | cons y ys ih => simp [ih]

/-- Instructions for the new block end up in the new block. -/
theorem appendIn_openBlock (m : Module) (index : Nat) (f : Function) (insts : List Instruction) :
    appendIn ⟨some index, some f.blocks.length⟩ insts (m.openBlock index f).functions =
      m.functions.set index { f with
        blocks := f.blocks ++
          [{ label := { opcode := .label, resultId := m.header.bound }, body := insts }] } := by
  apply List.ext_getElem?
  intro j
  simp only [appendIn, openBlock, List.getElem?_modify, List.getElem?_set]
  by_cases hj : index = j
  · subst hj
    by_cases hlt : index < m.functions.length <;> simp [hlt, modify_length_append]
  · simp [hj]

/-- The module right after a tree was compiled into a new block of the function `f` at an index. -/
def compiled (m : Module) (index : Nat) (f : Function) (n : Nat) (a : Additions)
    (result : ResultId) : Module :=
  ((m.openBlock index f).grow ⟨some index, some f.blocks.length⟩ n a).appendTo
    ⟨some index, some f.blocks.length⟩ { opcode := .returnValue, operands := [result] }

theorem functions_compiled (m : Module) (index : Nat) (f : Function) (n : Nat) (a : Additions)
    (result : ResultId) : (m.compiled index f n a result).functions =
      m.functions.set index { f with blocks := f.blocks ++ [m.graftedBlock a.body result] } := by
  have hcompiled : (m.compiled index f n a result).functions =
      appendIn ⟨some index, some f.blocks.length⟩ [{ opcode := .returnValue, operands := [result] }]
        (appendIn ⟨some index, some f.blocks.length⟩ a.body (m.openBlock index f).functions) := rfl
  rw [hcompiled, appendIn_appendIn, appendIn_openBlock]
  rfl

/-- Keeping only the last block of what was compiled gives the grafted module. -/
theorem keepLastBlock_compiled (m : Module) (index : Nat) (f : Function) (n : Nat) (a : Additions)
    (result : ResultId) :
    (m.compiled index f n a result).keepLastBlock index { f with
      blocks := f.blocks ++ [m.graftedBlock a.body result] } = m.graft index f n a result := by
  simp only [keepLastBlock, functions_compiled]
  simp [compiled, appendTo, grow, graft, openBlock, takeId]

theorem idsTaken_graft {m : Module} {index : Nat} {f : Function} (n : Nat) (a : Additions)
    (result : ResultId) (hf : m.functions[index]? = some f)
    (hn : n = a.imports.length + a.globals.length + a.body.length) :
    m.idsTaken (m.graft index f n a result) index = n + 1 := by
  obtain ⟨hlt, -⟩ := List.getElem?_eq_some_iff.1 hf
  have hblock : (m.graft index f n a result).block? index 0 =
      some (m.graftedBlock a.body result) := by
    simp [block?, graft, List.getElem?_set_self hlt]
  rw [idsTaken, hblock]
  simp only [graft, graftedBlock, List.length_append, List.length_singleton, Option.map_some,
    Option.getD_some]
  omega

end Module

namespace Emit

theorem run_build {α : Type} (x : Build α) (s : Serializer) :
    (build x).run s = match x.run s.builder with
      | .ok a b => .ok a { s with builder := b }
      | .error e b => .error (.build e) { s with builder := b } :=
  rfl

end Emit

namespace Injector

/-- The serializer that a tree is compiled with for the function `f` at an index. -/
def opened (inj : Injector) (index : Nat) (f : Function) : Serializer where
  builder := {
    target := inj.target.openBlock index f
    selection := { function := some index, block := some f.blocks.length } }
  interface := some inj.interface
  setName := if inj.instructionSet.isEmpty then standardSet else inj.instructionSet

theorem run_start {inj : Injector} {index : Nat} {f : Function}
    (hf : inj.target.functions[index]? = some f) :
    (inj.start index).run { builder := { target := inj.target } } =
      .ok () (inj.opened index f) := by
  obtain ⟨hlt, -⟩ := List.getElem?_eq_some_iff.1 hf
  have hselect : (Build.selectFunction index).run { target := inj.target } =
      .ok () { target := inj.target, selection := { function := some index } } := by
    have hrange : 0 ≤ (index : Int) ∧ (index : Int) < inj.target.functions.length := by omega
    simp only [Build.selectFunction, EStateM.run_bind, EStateM.run_get, if_pos hrange,
      Int.toNat_natCast]
    rfl
  have hbegin : Build.beginBlock.run
      { target := inj.target, selection := { function := some index } } =
      .ok (inj.target.header.bound, f.blocks.length) (inj.opened index f).builder := by
    simp only [Build.beginBlock, EStateM.run_bind, EStateM.run_get, Option.isNone_some,
      Bool.false_eq_true, if_false, Build.run_fresh, Build.beginBlockWithLabel]
    simp only [Builder.withTarget, Module.takeId, hf]
    rfl
  simp only [start, EStateM.run_bind, Emit.run_build, hselect, hbegin]
  rfl

theorem selected?_opened {inj : Injector} {index : Nat} {f : Function}
    (hf : inj.target.functions[index]? = some f) :
    (inj.opened index f).builder.selected? =
      some { label := { opcode := .label, resultId := inj.target.header.bound } } := by
  obtain ⟨hlt, -⟩ := List.getElem?_eq_some_iff.1 hf
  simp [opened, Builder.selected?, Module.block?, Module.openBlock, List.getElem?_set_self hlt]

theorem selected?_opened_grow {inj : Injector} {index : Nat} {f : Function}
    (hf : inj.target.functions[index]? = some f) (n : Nat) (a : Additions) :
    ((inj.opened index f).builder.grow n a).selected? = some {
      label := { opcode := .label, resultId := inj.target.header.bound }
      body := a.body } := by
  rw [Builder.selected?_grow, selected?_opened hf]
  rfl

/-- A tree that compiles does so in the new block, which then returns its result. -/
theorem compile_eq_ok {inj : Injector} {index : Nat} {f : Function} {i : Input} {t : HostType}
    {tree : Tree i t} {input : i.Value} {s : Serializer}
    (hf : inj.target.functions[index]? = some f)
    (h : (inj.compile index tree input).run { builder := { target := inj.target } } = .ok () s) :
    ∃ result s₁ n a, (tree.serialize input).run (inj.opened index f) = .ok result s₁ ∧
      (inj.opened index f).builder.Grows n s₁.builder ∧
      s₁.builder = (inj.opened index f).builder.grow n a ∧
      n = a.imports.length + a.globals.length + a.body.length ∧
      s.builder.target = inj.target.compiled index f n a result := by
  simp only [compile, EStateM.run_bind, run_start hf] at h
  cases hrun : (tree.serialize input).run (inj.opened index f) with
  | error e s₁ => simp [hrun] at h
  | ok result s₁ =>
    obtain ⟨n, hn⟩ := ((tree.growing_serialize input).grows hrun).builder
    obtain ⟨a, ha, hcount⟩ := hn.eq_grow
    have hsel := selected?_opened_grow hf n a
    rw [← ha] at hsel
    simp only [hrun, Emit.run_build, Build.returnValue, Build.run_insert hsel] at h
    cases h
    refine ⟨result, s₁, n, a, rfl, hn, ha, hcount (by simp [selected?_opened hf]), ?_⟩
    rw [ha]
    rfl

/-- A committed injection replaces the blocks of the target by the block of the compiled tree. -/
theorem inject_eq_ok {inj next : Injector} {i : Input} {t : HostType} {tree : Tree i t}
    {input : i.Value} {log : List Record} (h : inj.inject tree input = (log, .ok next)) :
    ∃ index f result s n a, inj.target.functionWithId? inj.functionId = some index ∧
      inj.target.functions[index]? = some f ∧ inj.target.checkReturnType f t = .ok () ∧
      (tree.serialize input).run (inj.opened index f) = .ok result s ∧
      (inj.opened index f).builder.Grows n s.builder ∧
      s.builder = (inj.opened index f).builder.grow n a ∧
      n = a.imports.length + a.globals.length + a.body.length ∧
      next = inj.commit (inj.target.graft index f n a result) := by
  unfold inject at h
  split at h
  · cases h
  rename_i index hindex
  split at h
  · cases h
  rename_i f hf
  split at h
  · cases h
  rename_i hcheck
  split at h
  · cases h
  rename_i s hcompile
  obtain ⟨result, s₁, n, a, hrun, hgrows, ha, hn, htarget⟩ := compile_eq_ok hf hcompile
  have hget : s.builder.target.functions[index]? =
      some { f with blocks := f.blocks ++ [inj.target.graftedBlock a.body result] } := by
    obtain ⟨hlt, -⟩ := List.getElem?_eq_some_iff.1 hf
    rw [htarget, Module.functions_compiled, List.getElem?_set_self hlt]
  rw [hget, htarget] at h
  simp only [Module.keepLastBlock_compiled] at h
  cases h
  exact ⟨index, f, result, s₁, n, a, hindex, hf, hcheck, hrun, hgrows, ha, hn, rfl⟩

/-- An injection is known by the module that it commits. -/
theorem inject_eq_commit {inj : Injector} {i : Input} {t : HostType} {tree : Tree i t}
    {input : i.Value} {m : Module}
    (h : (inj.inject tree input).2.toOption.map Injector.target = some m) :
    (inj.inject tree input).2 = .ok (inj.commit m) := by
  cases hresult : (inj.inject tree input).2 with
  | error e => simp [hresult, Except.toOption] at h
  | ok next =>
    obtain ⟨_, _, _, _, _, _, _, _, _, _, _, _, _, rfl⟩ := inject_eq_ok (Prod.ext rfl hresult)
    rw [hresult] at h
    cases h
    rfl

end Injector

end ShaderGraft
