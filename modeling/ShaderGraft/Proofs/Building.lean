import ShaderGraft.Proofs.Emission

/-!
# Building a module from nothing

A program that builds a module asks for one thing after the other, and what it ends with depends on
every step having worked. `Build.Yields` is what a step ends with from where it starts, so that the
steps of a program can be followed one by one. While a function is open (`Builder.Opens`) or one of
its blocks is filled (`Builder.Fills`) all other functions stay as they are.

An id is taken for every new result and for nothing else (`Module.Issues`). A module that was built
from an empty one therefore has as many ids in use as it has results, all of them different, unless
there are so many that the bound wraps around (`Module.Issues.idsBelow`).
-/

namespace ShaderGraft

namespace Module

/-! ### One id for every result -/

/-- The number of instructions that have a result. -/
def resultCount (m : Module) : Nat :=
  m.instructions.countP (·.opcode.layout ≠ .none)

/-- Whether one id is taken for every result that one module has more than another. Declarations may
be among them, calls of functions only in functions. -/
structure Issues (m m' : Module) : Prop where
  changes : ∃ n, m.Changes Instruction.Plain (fun _ _ => True) n m' ∧
    m'.resultCount = m.resultCount + n
  noCalls : ∀ inst ∈ m'.globals, inst ∈ m.globals ∨ inst.opcode ≠ .functionCall

variable {m m' m'' : Module} {inst : Instruction}

theorem Gains.resultCount_eq (h : Gains inst m m') :
    m'.resultCount = m.resultCount + if inst.opcode.layout = .none then 0 else 1 := by
  obtain ⟨ends, hends, hperm⟩ := h.perm
  have hcount : ends.countP (·.opcode.layout ≠ .none) = 0 := by
    refine List.countP_eq_zero.2 fun e he => ?_
    rw [hends e he]
    decide
  rw [resultCount, hperm.countP_eq, List.countP_cons, List.countP_append, hcount, Nat.zero_add]
  by_cases hlayout : inst.opcode.layout = .none
  · simp [hlayout, resultCount]
  · simp [hlayout, resultCount]

namespace Issues

theorem refl (m : Module) : m.Issues m :=
  ⟨⟨0, .refl, rfl⟩, fun _ hinst => .inl hinst⟩

theorem trans (h : m.Issues m') (h' : m'.Issues m'') : m.Issues m'' := by
  obtain ⟨⟨n, hchanges, hcount⟩, hcalls⟩ := h
  obtain ⟨⟨k, hchanges', hcount'⟩, hcalls'⟩ := h'
  refine ⟨⟨n + k, hchanges.trans hchanges', by omega⟩, fun inst hinst => ?_⟩
  exact (hcalls' inst hinst).elim (hcalls inst) .inr

/-- A new instruction has the next id. -/
theorem new (hid : inst.resultId = m.header.bound) (htyped : inst.Typed fun _ => True)
    (hadds : Adds inst m.takeId m')
    (hcalls : ∀ inst ∈ m'.globals, inst ∈ m.globals ∨ inst.opcode ≠ .functionCall) :
    m.Issues m' := by
  have hlayout : inst.opcode.layout ≠ .none := by
    rcases htyped with ⟨h, -⟩ | ⟨h, -⟩ <;> simp [h]
  refine ⟨⟨1, .new .refl hid htyped hadds, ?_⟩, hcalls⟩
  rw [hadds.gains.resultCount_eq, if_neg hlayout]
  rfl

/-- A new instruction in a function. -/
theorem inside (hid : inst.resultId = m.header.bound) (htyped : inst.Typed fun _ => True)
    (hadds : Adds inst m.takeId m') (hglobals : m'.globals = m.globals) : m.Issues m' :=
  .new hid htyped hadds fun _ hinst => .inl (hglobals ▸ hinst)

theorem put (hplain : inst.Plain) (hadds : Adds inst m m') (hglobals : m'.globals = m.globals) :
    m.Issues m' := by
  refine ⟨⟨0, .put .refl hplain hadds, ?_⟩, fun _ hinst => .inl (hglobals ▸ hinst)⟩
  rw [hadds.gains.resultCount_eq, if_pos hplain.layout]

theorem append {op : Opcode} {s : Section} (operands : List Word) (hlayout : op.layout = .none)
    (hs : op.placement = .within s) (hne : s ≠ .globals) :
    m.Issues (m.append { opcode := op, operands } s) := by
  refine .put ⟨rfl, rfl, hlayout⟩ (.within hs) ?_
  cases s with
  | globals => exact absurd rfl hne
  | _ => rfl

theorem memoryModel (hm : m.memoryModel = none) (hop : inst.opcode = .memoryModel)
    (hplain : inst.Plain) : m.Issues { m with memoryModel := some inst } := by
  refine ⟨⟨0, .memoryModel .refl hop hplain, ?_⟩, fun _ hinst => .inl hinst⟩
  simp [resultCount, instructions, declarations, hm, hplain.layout]

theorem globals_subset (h : m.Issues m') : m.globals ⊆ m'.globals := by
  obtain ⟨n, hchanges, -⟩ := h.changes
  exact hchanges.globals_subset

end Issues

theorem idsBelow_empty (version : Version) : (empty version).IdsBelow 1 where
  distinct := .nil
  ne_zero := by simp [empty, instructions, declarations]
  outline := by simp [empty]
  pos := Nat.one_pos
  below := by simp [empty, instructions, declarations]
  bound_eq := rfl

theorem Issues.routed {version : Version} (h : (empty version).Issues m) : m.Routed := by
  obtain ⟨n, hchanges, -⟩ := h.changes
  exact hchanges.routed (Draft.routed_start { version }).complete

/-- A module that was built from an empty one has as many ids as results. -/
theorem Issues.idsBelow {version : Version} (h : (empty version).Issues m)
    (hcount : m.resultCount < UInt32.size) : m.IdsBelow (1 + m.resultCount) := by
  obtain ⟨n, hchanges, heq⟩ := h.changes
  have hempty : (empty version).resultCount = 0 := rfl
  rw [hempty, Nat.zero_add] at heq
  rw [heq] at hcount ⊢
  exact hchanges.idsBelow (idsBelow_empty version) (by omega) fun _ hplain => hplain

/-- With as many results as there are ids the bound is zero again. -/
theorem Issues.idWellFormed_iff {version : Version} (h : (empty version).Issues m)
    (hcount : m.resultCount < UInt32.size) :
    m.IdWellFormed ↔ m.resultCount + 1 < UInt32.size := by
  have hids := h.idsBelow hcount
  constructor
  · intro hm
    by_contra hlast
    have hlimit : 1 + m.resultCount = UInt32.size := by omega
    rw [hlimit] at hids
    exact hm.bound_ne_zero hids.bound_eq
  · intro hlimit
    exact hids.idWellFormed (by omega)

/-! ### Declarations -/

/-- Whether the module declares the given thing under an id. -/
def HasGlobal (m : Module) (op : Opcode) (type : ResultId) (operands : List Word) (id : ResultId) :
    Prop :=
  { opcode := op, resultType := type, resultId := id, operands } ∈ m.globals

theorem Issues.hasGlobal (h : m.Issues m') {op : Opcode} {type id : ResultId}
    {operands : List Word} (hglobal : m.HasGlobal op type operands id) :
    m'.HasGlobal op type operands id :=
  h.globals_subset hglobal

/-- Whether one module has more results than another, with the debug names as they were. -/
structure Enlarges (m m' : Module) : Prop where
  issues : m.Issues m'
  names : m'.names = m.names

theorem Enlarges.refl (m : Module) : m.Enlarges m :=
  ⟨.refl m, rfl⟩

theorem Enlarges.trans (h : m.Enlarges m') (h' : m'.Enlarges m'') : m.Enlarges m'' :=
  ⟨h.issues.trans h'.issues, h'.names.trans h.names⟩

end Module

namespace Declare

variable {α β : Type} {m : Module}

/-- What a step that only declares ends with. -/
def Gives (x : Declare α) (m : Module) (post : α → Module → Prop) : Prop :=
  ∃ a m', x.run m = (a, m') ∧ m.Enlarges m' ∧ m'.functions = m.functions ∧ post a m'

theorem gives_pure {a : α} {post : α → Module → Prop} (h : post a m) :
    Gives (pure a) m post :=
  ⟨a, m, rfl, .refl m, rfl, h⟩

theorem Gives.bind {x : Declare α} {f : α → Declare β} {mid : α → Module → Prop}
    {post : β → Module → Prop} (hx : x.Gives m mid)
    (hf : ∀ a m', m.Enlarges m' → mid a m' → (f a).Gives m' post) : (x >>= f).Gives m post := by
  obtain ⟨a, m', hrun, hext, hfunctions, hmid⟩ := hx
  obtain ⟨r, m'', hrun', hext', hfunctions', hpost⟩ := hf a m' hext hmid
  refine ⟨r, m'', ?_, hext.trans hext', hfunctions'.trans hfunctions, hpost⟩
  rw [StateT.run_bind, hrun]
  exact hrun'

theorem gives_global {op : Opcode} {type : ResultId} (operands : List Word)
    (hop : op.placement = .within .globals) (hcall : op ≠ .functionCall)
    (htyped : ({ opcode := op, resultType := type } : Instruction).Typed fun _ => True) :
    (global op type operands).Gives m fun id m' => m'.HasGlobal op type operands id := by
  have hrun := run_global op type operands m
  cases hfind : m.globals.find? (declares op type operands) with
  | some inst =>
    simp only [hfind] at hrun
    have hmem := List.mem_of_find?_eq_some hfind
    have hdeclares := List.find?_some hfind
    simp only [declares, Bool.and_eq_true, beq_iff_eq] at hdeclares
    obtain ⟨⟨rfl, rfl⟩, rfl⟩ := hdeclares
    exact ⟨inst.resultId, m, hrun, .refl m, rfl, hmem⟩
  | none =>
    simp only [hfind] at hrun
    let inst : Instruction :=
      { opcode := op, resultType := type, resultId := m.header.bound, operands }
    have hadds : Module.Adds inst m.takeId (m.takeId.append inst .globals) := .within hop
    have htyped' : inst.Typed fun _ => True := htyped
    have hcalls : ∀ i ∈ m.globals ++ [inst], i ∈ m.globals ∨ i.opcode ≠ .functionCall :=
      forall_mem_concat (fun _ hi => .inl hi) (.inr hcall)
    exact ⟨_, _, hrun, ⟨.new rfl htyped' hadds hcalls, rfl⟩, rfl,
      List.mem_append_right _ (List.mem_singleton_self _)⟩

theorem gives_type {op : Opcode} (operands : List Word) (hop : op.placement = .within .globals)
    (hlayout : op.layout = .id) :
    (global op 0 operands).Gives m fun id m' => m'.HasGlobal op 0 operands id := by
  refine gives_global operands hop ?_ (.inl ⟨hlayout, rfl⟩)
  rintro rfl
  exact absurd hlayout (by decide)

theorem gives_constant (type : ResultId) (literal : List Word) :
    (constant type literal).Gives m fun id m' => m'.HasGlobal .constant type literal id :=
  gives_global literal rfl (by decide)
    (.inr ⟨(by decide : Opcode.constant.layout = .typed), trivial⟩)

theorem gives_entryPoint (model : Word) (function : ResultId) (name : Bytes)
    (interface : List ResultId) :
    (entryPoint model function name interface).Gives m fun _ _ => True :=
  ⟨(), _, rfl, ⟨.append _ (by decide) rfl (by decide), rfl⟩, rfl, trivial⟩

theorem gives_executionMode (entry mode : Word) (parameters : List Word) :
    (executionMode entry mode parameters).Gives m fun _ _ => True :=
  ⟨(), _, rfl, ⟨.append _ (by decide) rfl (by decide), rfl⟩, rfl, trivial⟩

end Declare

/-! ### Steps of a builder -/

namespace Builder

/-- Whether a function is open behind others. -/
structure Opens (b : Builder) (fs : List Function) (f : Function) : Prop where
  functions : b.target.functions = fs ++ [f]
  selection : b.selection = { function := some fs.length }

/-- Whether a block is filled behind the other blocks of a function, which is behind others. -/
structure Fills (b : Builder) (fs : List Function) (f : Function) (block : Block) : Prop where
  functions : b.target.functions = fs ++ [{ f with blocks := f.blocks ++ [block] }]
  selection : b.selection = { function := some fs.length, block := some f.blocks.length }

variable {b c : Builder} {fs : List Function} {f : Function} {block : Block}

theorem Opens.getElem? (h : b.Opens fs f) : b.target.functions[fs.length]? = some f := by
  rw [h.functions, List.getElem?_append_right (Nat.le_refl _), Nat.sub_self]
  rfl

namespace Fills

theorem getElem? (h : b.Fills fs f block) :
    b.target.functions[fs.length]? = some { f with blocks := f.blocks ++ [block] } := by
  rw [h.functions, List.getElem?_append_right (Nat.le_refl _), Nat.sub_self]
  rfl

theorem selected?_eq (h : b.Fills fs f block) : b.selected? = some block := by
  simp [selected?, h.selection, Module.block?, h.getElem?]

theorem appendIn_eq (h : b.Fills fs f block) (inst : Instruction) :
    Module.appendIn b.selection [inst] b.target.functions =
      fs ++ [{ f with blocks := f.blocks ++ [{ block with body := block.body ++ [inst] }] }] := by
  have hblock : (f.blocks ++ [block])[f.blocks.length]? = some block := by simp
  simp only [Module.appendIn, h.selection]
  rw [← set_eq_modify h.getElem?]
  simp only [← set_eq_modify hblock, h.functions]
  simp

end Fills

end Builder

namespace Build

variable {α β : Type} {b : Builder}

/-- What a step ends with that does not fail. -/
def Yields (x : Build α) (b : Builder) (post : α → Builder → Prop) : Prop :=
  ∃ a c, x.run b = .ok a c ∧ post a c

theorem yields_pure {a : α} {post : α → Builder → Prop} (h : post a b) :
    Yields (pure a) b post :=
  ⟨a, b, rfl, h⟩

theorem yields_bind_of_run {x : Build α} {g : α → Build β} {post : β → Builder → Prop} {a : α}
    {c : Builder} (hrun : x.run b = .ok a c) (hg : (g a).Yields c post) :
    (x >>= g).Yields b post := by
  obtain ⟨r, d, hrun', hpost⟩ := hg
  refine ⟨r, d, ?_, hpost⟩
  rw [EStateM.run_bind, hrun]
  exact hrun'

theorem Yields.bind {x : Build α} {g : α → Build β} {mid : α → Builder → Prop}
    {post : β → Builder → Prop} (hx : x.Yields b mid)
    (hg : ∀ a c, mid a c → (g a).Yields c post) : (x >>= g).Yields b post := by
  obtain ⟨a, c, hrun, hmid⟩ := hx
  exact yields_bind_of_run hrun (hg a c hmid)

theorem yields_declare {x : Declare α} {post : α → Module → Prop} (hx : x.Gives b.target post) :
    (declare x).Yields b fun a c => c.selection = b.selection ∧
      c.target.functions = b.target.functions ∧ b.target.Enlarges c.target ∧ post a c.target := by
  obtain ⟨a, m, hrun, hext, hfunctions, hpost⟩ := hx
  refine ⟨a, b.withTarget m, ?_, rfl, hfunctions, hext, hpost⟩
  simp only [declare, EStateM.run, hrun]
  rfl

/-! ### Writing into a block -/

/-- What a step writes into the block that is filled, with the module after it. -/
def Writes (x : Build α) (b : Builder) (post : α → List Instruction → Module → Prop) : Prop :=
  ∀ fs f block, b.Fills fs f block →
    x.Yields b fun a c => ∃ insts, c.Fills fs f { block with body := block.body ++ insts } ∧
      b.target.Enlarges c.target ∧ post a insts c.target

theorem writes_pure {a : α} {post : α → List Instruction → Module → Prop}
    (h : post a [] b.target) : Writes (pure a) b post := by
  intro fs f block hb
  refine yields_pure ⟨[], ?_, .refl _, h⟩
  rwa [List.append_nil]

theorem Writes.imp {x : Build α} {post post' : α → List Instruction → Module → Prop}
    (hx : x.Writes b post) (h : ∀ a insts m, post a insts m → post' a insts m) :
    x.Writes b post' := by
  intro fs f block hb
  obtain ⟨a, c, hrun, insts, hc, hext, hpost⟩ := hx fs f block hb
  exact ⟨a, c, hrun, insts, hc, hext, h _ _ _ hpost⟩

theorem Writes.bind {x : Build α} {g : α → Build β} {mid : α → List Instruction → Module → Prop}
    {post : β → List Instruction → Module → Prop} (hx : x.Writes b mid)
    (hg : ∀ a insts c, mid a insts c.target → (g a).Writes c fun r insts' m =>
      c.target.Enlarges m → post r (insts ++ insts') m) : (x >>= g).Writes b post := by
  intro fs f block hb
  refine (hx fs f block hb).bind fun a c ⟨insts, hc, hext, hmid⟩ => ?_
  obtain ⟨r, d, hrun, insts', hd, hext', hpost⟩ := hg a insts c hmid _ _ _ hc
  refine ⟨r, d, hrun, insts ++ insts', ?_, hext.trans hext', hpost hext'⟩
  rwa [← List.append_assoc]

/-- A step for every entry of a list. What holds of the rest must follow for the whole list. -/
theorem Writes.mapM {g : α → Build β} {R : List α → List β → List Instruction → Module → Prop}
    (hnil : ∀ m, R [] [] [] m) (as : List α)
    (hcons : ∀ a ∈ as, ∀ rest b, (g a).Writes b fun r insts m => ∀ rs insts' m', m.Enlarges m' →
      R rest rs insts' m' → R (a :: rest) (r :: rs) (insts ++ insts') m') (b : Builder) :
    (as.mapM g).Writes b (R as) := by
  induction as generalizing b with
  | nil =>
    rw [List.mapM_nil]
    exact writes_pure (hnil b.target)
  | cons a rest ih =>
    rw [List.mapM_cons]
    refine (hcons a (List.mem_cons_self ..) rest b).bind fun r insts c hr => ?_
    refine (ih (fun a ha => hcons a (List.mem_cons_of_mem _ ha)) c).bind fun rs insts' d hrs => ?_
    refine writes_pure fun _ hext => ?_
    rw [List.append_nil]
    exact hr rs insts' d.target hext hrs

theorem writes_declare {x : Declare α} {post : α → Module → Prop} (hx : x.Gives b.target post) :
    (declare x).Writes b fun a insts m => insts = [] ∧ post a m := by
  intro fs f block hb
  obtain ⟨a, c, hrun, hselection, hfunctions, hext, hpost⟩ := yields_declare hx
  refine ⟨a, c, hrun, [], ?_, hext, rfl, hpost⟩
  rw [List.append_nil]
  exact ⟨hfunctions.trans hb.functions, hselection.trans hb.selection⟩

theorem writes_insert {op : Opcode} (operands : List Word) (hlayout : op.layout = .none)
    (hbody : op.IsBody) : (insert { opcode := op, operands }).Writes b fun _ insts _ =>
      insts = [{ opcode := op, operands }] := by
  intro fs f block hb
  have hsel := hb.selected?_eq
  let inst : Instruction := { opcode := op, operands }
  have hissues : b.target.Issues (b.target.appendTo b.selection inst) :=
    .put ⟨rfl, rfl, hlayout⟩ (Module.adds_appendTo hsel rfl hbody) rfl
  exact ⟨(), _, run_insert hsel inst, [inst], ⟨hb.appendIn_eq inst, hb.selection⟩,
    ⟨hissues, rfl⟩, rfl⟩

theorem writes_emit {op : Opcode} (type : ResultId) (operands : List Word)
    (hlayout : op.layout = .typed) (hbody : op.IsBody) :
    (emit op type operands).Writes b fun id insts _ =>
      insts = [{ opcode := op, resultType := type, resultId := id, operands }] := by
  intro fs f block hb
  have hsel := hb.selected?_eq
  let inst : Instruction :=
    { opcode := op, resultType := type, resultId := b.target.header.bound, operands }
  have hissues : b.target.Issues (b.target.takeId.appendTo b.selection inst) :=
    .inside rfl (.inr ⟨hlayout, trivial⟩) (Module.adds_appendTo hsel rfl hbody) rfl
  exact ⟨_, _, run_emit hsel op type operands, [inst], ⟨hb.appendIn_eq inst, hb.selection⟩,
    ⟨hissues, rfl⟩, rfl⟩

/-! ### Opening functions and blocks -/

variable {fs : List Function} {f : Function} {block : Block}

theorem yields_beginFunction (result : ResultId) (control : Word) (type : ResultId) :
    (beginFunction result control type).Yields b fun id c =>
      c.Opens b.target.functions { definition := {
        opcode := .function, resultType := result, resultId := id, operands := [control, type] } } ∧
      b.target.Enlarges c.target := by
  let inst : Instruction := {
    opcode := .function
    resultType := result
    resultId := b.target.header.bound
    operands := [control, type] }
  have hadds : Module.Adds inst b.target.takeId _ := .function rfl
  have htyped : inst.Typed fun _ => True :=
    .inr ⟨(by decide : Opcode.function.layout = .typed), trivial⟩
  exact ⟨_, _, rfl, ⟨rfl, rfl⟩, .inside rfl htyped hadds rfl, rfl⟩

theorem yields_functionParameter (type : ResultId) (hb : b.Opens fs f) (hf : f.blocks = []) :
    (functionParameter type).Yields b fun id c =>
      c.Opens fs { f with parameters := f.parameters ++ [
        { opcode := .functionParameter, resultType := type, resultId := id }] } ∧
      b.target.Enlarges c.target := by
  let inst : Instruction :=
    { opcode := .functionParameter, resultType := type, resultId := b.target.header.bound }
  have hindex : b.selection.function = some fs.length := by rw [hb.selection]
  have hrun := run_functionParameter hindex hb.getElem? (by rw [hf]; rfl) type
  have hadds : Module.Adds inst b.target.takeId _ := .inside hb.getElem? (.parameter rfl)
  have htyped : inst.Typed fun _ => True :=
    .inr ⟨(by decide : Opcode.functionParameter.layout = .typed), trivial⟩
  refine ⟨_, _, hrun, ⟨?_, hb.selection⟩, .inside rfl htyped hadds rfl, rfl⟩
  simp [Builder.withTarget, hb.functions]

theorem yields_functionParameters (types : List ResultId) (hb : b.Opens fs f)
    (hf : f.blocks = []) :
    Yields (forIn types PUnit.unit fun type _ => do
      let _ ← functionParameter type
      pure (ForInStep.yield PUnit.unit)) b fun _ c =>
        ∃ ps, c.Opens fs { f with parameters := f.parameters ++ ps } ∧
          b.target.Enlarges c.target ∧ ps.map (·.resultType) = types := by
  induction types generalizing b f with
  | nil =>
    refine yields_pure ⟨[], ?_, .refl _, rfl⟩
    rwa [List.append_nil]
  | cons type rest ih =>
    rw [List.forIn_cons, bind_assoc]
    refine (yields_functionParameter type hb hf).bind fun id c ⟨hc, hext⟩ => ?_
    obtain ⟨r, d, hrun, ps, hd, hext', htypes⟩ := ih hc hf
    refine ⟨r, d, hrun,
      { opcode := .functionParameter, resultType := type, resultId := id } :: ps, ?_,
      hext.trans hext', congrArg (type :: ·) htypes⟩
    simpa using hd

theorem yields_beginBlock (hb : b.Opens fs f) :
    beginBlock.Yields b fun r c =>
      c.Fills fs f { label := { opcode := .label, resultId := r.1 } } ∧
      b.target.Enlarges c.target := by
  let inst : Instruction := { opcode := .label, resultId := b.target.header.bound }
  have hindex : b.selection.function = some fs.length := by rw [hb.selection]
  have hadds : Module.Adds inst b.target.takeId _ := .inside hb.getElem? (.label rfl)
  have htyped : inst.Typed fun _ => True :=
    .inl ⟨(by decide : Opcode.label.layout = .id), rfl⟩
  refine ⟨_, _, run_beginBlock hindex hb.getElem?, ⟨?_, ?_⟩, .inside rfl htyped hadds rfl, rfl⟩
  · simp [hb.functions]
  · simp [hb.selection]

/-- Closing a block with a branch to the next one, whose label is known before it is there. -/
theorem yields_branchAhead {g : ResultId → Nat → Build α} {post : α → Builder → Prop}
    (hb : b.Fills fs f block)
    (hg : ∀ next index c, c.Fills fs
        { f with blocks := f.blocks ++ [
          { block with body := block.body ++ [{ opcode := .branch, operands := [next] }] }] }
        { label := { opcode := .label, resultId := next } } →
      b.target.Enlarges c.target → (g next index).Yields c post) :
    Yields (do
      let next ← fresh
      branch next
      let index ← beginBlockWithLabel next
      g next index) b post := by
  let next := b.target.header.bound
  let jump : Instruction := { opcode := .branch, operands := [next] }
  let label : Instruction := { opcode := .label, resultId := next }
  let closed : Function :=
    { f with blocks := f.blocks ++ [{ block with body := block.body ++ [jump] }] }
  let c : Builder := b.withTarget (b.target.appendTo b.selection jump)
  have hc : c.target.functions[fs.length]? = some closed := by
    simp [c, Builder.withTarget, Module.appendTo, hb.appendIn_eq, closed]
  have hindex : c.selection.function = some fs.length := by
    simp [c, Builder.withTarget, hb.selection]
  -- the branch has no result, so it could as well have been there before the id was taken
  have hjump : (branch next).run (b.withTarget b.target.takeId) =
      .ok () (c.withTarget c.target.takeId) :=
    run_insert (b := b.withTarget b.target.takeId) hb.selected?_eq jump
  have hlabel := run_beginBlockWithLabel (b := c.withTarget c.target.takeId) hindex hc next
  have hadds : Module.Adds label c.target.takeId _ := .inside hc (.label rfl)
  have hissues : b.target.Issues c.target :=
    .put ⟨rfl, rfl, (by decide : Opcode.branch.layout = .none)⟩
      (Module.adds_appendTo hb.selected?_eq rfl (by decide : Opcode.branch.IsBody)) rfl
  have htyped : label.Typed fun _ => True :=
    .inl ⟨(by decide : Opcode.label.layout = .id), rfl⟩
  refine yields_bind_of_run (run_fresh b) (yields_bind_of_run hjump
    (yields_bind_of_run hlabel (hg next _ _ ⟨?_, ?_⟩
      ⟨hissues.trans (.inside rfl htyped hadds rfl), rfl⟩)))
  · simp [c, Builder.withTarget, Module.takeId, Module.appendTo, hb.appendIn_eq, closed, next, jump]
  · simp [c, Builder.withTarget, hb.selection, closed]

end Build

end ShaderGraft
