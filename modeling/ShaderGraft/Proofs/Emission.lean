import ShaderGraft.Proofs.Calls

/-!
# What compiling takes and gives

Compiling a tree is more careful than a caller of a builder has to be. All result types are ids of
declared types or of parameters of the interface, and every id that is taken ends up in an
instruction. There is one exception: without a selected block the first instruction for it takes an
id and then fails. `Emit.Emitting` is this for a step of compiling, with what is known about the
declarations before and after it, and `Tree.emits_serialize` shows it for all trees.
-/

namespace ShaderGraft

namespace Module

theorem extent_append_globals (m : Module) (inst : Instruction) :
    (m.takeId.append inst .globals).extent = m.extent + 1 := by
  simp only [extent, append, takeId, List.length_append, List.length_singleton]
  omega

theorem extent_append_imports (m : Module) (inst : Instruction) :
    (m.takeId.append inst .imports).extent = m.extent + 1 := by
  simp only [extent, append, takeId, List.length_append, List.length_singleton]
  omega

theorem extent_appendTo {b : Builder} {block : Block} (hsel : b.selected? = some block)
    (inst : Instruction) :
    (b.target.takeId.appendTo b.selection inst).extent = b.target.extent + 1 := by
  have hlength := (instructions_appendTo_perm hsel inst).length_eq
  simp only [instructions, List.length_append, List.length_cons] at hlength
  change b.target.declarations.length + _ = _ at hlength
  change b.target.imports.length + b.target.globals.length + _ =
    b.target.imports.length + b.target.globals.length + _ + 1
  omega

/-- Whether an id is one of the given ones or that of a declaration without a type of its own. -/
def IsType (types : List ResultId) (globals : List Instruction) (id : ResultId) : Prop :=
  id ∈ types ∨ ∃ inst ∈ globals, inst.opcode.layout = .id ∧ inst.resultId = id

theorem IsType.mono {types : List ResultId} {globals globals' : List Instruction} {id : ResultId}
    (h : IsType types globals id) (hsub : globals ⊆ globals') : IsType types globals' id :=
  h.imp_right fun ⟨inst, hinst, h⟩ => ⟨inst, hsub hinst, h⟩

/-- What compiling does to a module when no id is lost. -/
structure Extends (types : List ResultId) (m m' : Module) : Prop where
  changes : ∃ n, m.Changes Instruction.Plain (fun m => IsType types m.globals) n m' ∧
    m'.extent = m.extent + n
  subset : m.instructions ⊆ m'.instructions

theorem Adds.subset {inst : Instruction} {m m' : Module} (h : Adds inst m m') :
    m.instructions ⊆ m'.instructions := by
  intro other hother
  obtain ⟨ends, -, hperm⟩ := h.gains.perm
  exact hperm.mem_iff.2 (List.mem_cons_of_mem _ (List.mem_append_right _ hother))

theorem Adds.globals_subset {inst : Instruction} {m m' : Module} (h : Adds inst m m') :
    m.globals ⊆ m'.globals := by
  cases h with
  | @within s _ => cases s <;> simp [append]
  | function | inside => exact List.Subset.refl _

theorem Changes.globals_subset {given : Instruction → Prop} {kind : Module → ResultId → Prop}
    {m m' : Module} {n : Nat} (h : Changes given kind m n m') : m.globals ⊆ m'.globals := by
  induction h with
  | refl => exact List.Subset.refl _
  | take _ ih | memoryModel _ _ _ ih => exact ih
  | new _ _ _ hadds ih => exact List.Subset.trans ih hadds.globals_subset
  | put _ _ hadds ih => exact List.Subset.trans ih hadds.globals_subset

namespace Extends

variable {types : List ResultId} {m m' m'' : Module} {inst : Instruction}

theorem refl (m : Module) : Extends types m m :=
  ⟨⟨0, .refl, rfl⟩, List.Subset.refl _⟩

theorem trans (h : Extends types m m') (h' : Extends types m' m'') : Extends types m m'' := by
  obtain ⟨⟨n, hchanges, hextent⟩, hsub⟩ := h
  obtain ⟨⟨k, hchanges', hextent'⟩, hsub'⟩ := h'
  exact ⟨⟨n + k, hchanges.trans hchanges', by omega⟩, List.Subset.trans hsub hsub'⟩

theorem globals_subset (h : Extends types m m') : m.globals ⊆ m'.globals := by
  obtain ⟨n, hchanges, -⟩ := h.changes
  exact hchanges.globals_subset

theorem global (hop : inst.opcode.placement = .within .globals)
    (hid : inst.resultId = m.header.bound) (htyped : inst.Typed (IsType types m.globals)) :
    Extends types m (m.takeId.append inst .globals) := by
  have hadds : Adds inst m.takeId (m.takeId.append inst .globals) := .within hop
  exact ⟨⟨1, .new .refl hid htyped hadds, m.extent_append_globals inst⟩, hadds.subset⟩

theorem extInstImport (hop : inst.opcode = .extInstImport) (htype : inst.resultType = 0)
    (hid : inst.resultId = m.header.bound) :
    Extends types m (m.takeId.append inst .imports) := by
  have hadds : Adds inst m.takeId (m.takeId.append inst .imports) := .within (hop ▸ rfl)
  refine ⟨⟨1, .new .refl hid (.inl ⟨?_, htype⟩) hadds, m.extent_append_imports inst⟩, hadds.subset⟩
  rw [hop]
  decide

theorem capability (hop : inst.opcode = .capability) (hplain : inst.Plain) :
    Extends types m (m.append inst .capabilities) := by
  have hadds : Adds inst m (m.append inst .capabilities) := .within (hop ▸ rfl)
  exact ⟨⟨0, .put .refl hplain hadds, rfl⟩, hadds.subset⟩

theorem body {b : Builder} {block : Block} (hsel : b.selected? = some block)
    (hbody : inst.opcode.IsBody) (hlayout : inst.opcode.layout = .typed)
    (hid : inst.resultId = b.target.header.bound)
    (htype : IsType types b.target.globals inst.resultType) :
    Extends types b.target (b.target.takeId.appendTo b.selection inst) := by
  have hadds : Adds inst b.target.takeId (b.target.takeId.appendTo b.selection inst) :=
    adds_appendTo hsel rfl hbody
  exact ⟨⟨1, .new .refl hid (.inr ⟨hlayout, htype⟩) hadds, extent_appendTo hsel inst⟩, hadds.subset⟩

end Extends

end Module

/-! ### Declarations -/

namespace Declare

variable {α β : Type} {types : List ResultId} {known : List Instruction}

/-- What a step does that only declares, and what it gives back, if the module has the known
declarations. -/
def Extending (types : List ResultId) (known : List Instruction) (x : Declare α)
    (post : α → List Instruction → Prop) : Prop :=
  ∀ m, known ⊆ m.globals →
    m.Extends types (x.run m).2 ∧ post (x.run m).1 (x.run m).2.globals

theorem extending_pure {a : α} {post : α → List Instruction → Prop}
    (h : ∀ globals, known ⊆ globals → post a globals) :
    Extending types known (pure a) post :=
  fun m hm => ⟨.refl m, h m.globals hm⟩

theorem Extending.bind {x : Declare α} {f : α → Declare β} {mid : α → List Instruction → Prop}
    {post : β → List Instruction → Prop} (hx : x.Extending types known mid)
    (hf : ∀ a known', known ⊆ known' → mid a known' → (f a).Extending types known' post) :
    (x >>= f).Extending types known post := by
  intro m hm
  obtain ⟨hext, hmid⟩ := hx m hm
  have hsub := List.Subset.trans hm hext.globals_subset
  obtain ⟨hext', hpost⟩ := hf _ _ hsub hmid (x.run m).2 (List.Subset.refl _)
  exact ⟨hext.trans hext', hpost⟩

theorem Extending.map {x : Declare α} {f : α → β} {post : β → List Instruction → Prop}
    (hx : x.Extending types known fun a => post (f a)) : (f <$> x).Extending types known post :=
  hx

theorem Extending.imp {x : Declare α} {post post' : α → List Instruction → Prop}
    (hx : x.Extending types known post) (h : ∀ a globals, post a globals → post' a globals) :
    x.Extending types known post' := by
  intro m hm
  obtain ⟨hext, hpost⟩ := hx m hm
  exact ⟨hext, h _ _ hpost⟩

theorem extending_global {op : Opcode} {type : ResultId} (operands : List Word)
    (hop : op.placement = .within .globals)
    (htyped : ({ opcode := op, resultType := type } : Instruction).Typed
      (Module.IsType types known)) :
    (global op type operands).Extending types known fun id globals =>
      ∃ inst ∈ globals, inst.opcode = op ∧ inst.resultId = id := by
  intro m hm
  rw [run_global]
  cases hfind : m.globals.find? (declares op type operands) with
  | some inst =>
    have hdeclares : (inst.opcode = op ∧ inst.resultType = type) ∧ inst.operands = operands := by
      simpa [declares] using List.find?_some hfind
    exact ⟨.refl m, inst, List.mem_of_find?_eq_some hfind, hdeclares.1.1, rfl⟩
  | none =>
    refine ⟨.global hop rfl ?_, _, List.mem_append_right _ (List.mem_singleton_self _), rfl, rfl⟩
    exact htyped.imp_right fun ⟨hlayout, htype⟩ => ⟨hlayout, htype.mono hm⟩

theorem extending_type {op : Opcode} (operands : List Word)
    (hop : op.placement = .within .globals) (hlayout : op.layout = .id) :
    (global op 0 operands).Extending types known fun id globals =>
      Module.IsType types globals id := by
  refine (extending_global operands hop (.inl ⟨hlayout, rfl⟩)).imp ?_
  rintro id globals ⟨inst, hinst, rfl, hid⟩
  exact .inr ⟨inst, hinst, hlayout, hid⟩

theorem extending_constant {op : Opcode} {type : ResultId} (operands : List Word)
    (hop : op.placement = .within .globals) (hlayout : op.layout = .typed)
    (htype : Module.IsType types known type) :
    (global op type operands).Extending types known fun _ _ => True :=
  (extending_global operands hop (.inr ⟨hlayout, htype⟩)).imp fun _ _ _ => trivial

theorem extending_capability (c : Word) :
    (capability c).Extending types known fun _ _ => True := by
  intro m _
  rw [run_capability]
  split
  · exact ⟨.refl m, trivial⟩
  · exact ⟨.capability rfl ⟨rfl, rfl, (by decide : Opcode.capability.layout = .none)⟩, trivial⟩

theorem extending_extInstImport (name : Bytes) :
    (extInstImport name).Extending types known fun _ _ => True := by
  intro m _
  rw [run_extInstImport]
  cases m.imports.find? _ with
  | some inst => exact ⟨.refl m, trivial⟩
  | none => exact ⟨.extInstImport rfl rfl rfl, trivial⟩

theorem extending_sized {op : Opcode} (width c : Word) (operands : List Word)
    (hop : op.placement = .within .globals) (hlayout : op.layout = .id) :
    Extending types known (do
      if width = 64 then capability c
      global op 0 operands) fun id globals => Module.IsType types globals id := by
  by_cases hw : width = 64
  · simp only [if_pos hw]
    exact (extending_capability c).bind fun _ _ _ _ => extending_type operands hop hlayout
  · simp only [if_neg hw]
    exact extending_type operands hop hlayout

end Declare

namespace ValueType

open Declare

/-- The id that declaring a type gives, if it gives one, is that of a type. -/
def Declared (types : List ResultId) (id? : Option ResultId) (globals : List Instruction) : Prop :=
  ∀ id ∈ id?, Module.IsType types globals id

theorem declared_some {types : List ResultId} {id : ResultId} {globals : List Instruction}
    (h : Module.IsType types globals id) : Declared types (some id) globals := by
  intro id' hid
  cases hid
  exact h

theorem extending_none {types : List ResultId} {known : List Instruction} :
    Extending types known (pure none) (Declared types) :=
  extending_pure fun _ _ _ hid => nomatch hid

/-- A type that is declared last. -/
theorem extending_some {types : List ResultId} {known : List Instruction} {x : Declare ResultId}
    (hx : x.Extending types known fun id globals => Module.IsType types globals id) :
    Extending types known (do return some (← x)) (Declared types) :=
  hx.bind fun _ _ _ htype => extending_pure fun _ hsub => declared_some (htype.mono hsub)

variable {types : List ResultId}

mutual

theorem extending_declare {known : List Instruction} :
    (t : ValueType) → (declare t).Extending types known (Declared types)
  | .void | .bool => by
    unfold declare
    exact .map ((extending_type _ rfl (by decide)).imp fun _ _ => declared_some)
  | .int _ width | .float width => by
    unfold declare
    exact .map ((extending_sized width _ _ rfl (by decide)).imp fun _ _ => declared_some)
  | .vector elem count => by
    unfold declare
    refine (extending_declare elem).bind fun component _ _ _ => ?_
    cases component with
    | none => exact extending_none
    | some id => exact extending_some (extending_type _ rfl (by decide))
  | .matrix elem columns rows => by
    unfold declare
    refine (extending_declare elem).bind fun component _ _ _ => ?_
    cases component with
    | none => exact extending_none
    | some id =>
      refine (extending_type _ rfl (by decide)).bind fun _ _ _ _ => ?_
      exact extending_some (extending_type _ rfl (by decide))
  | .struct fields => by
    unfold declare
    refine (extending_declareAll fields).bind fun members _ _ _ => ?_
    cases members with
    | none => exact extending_none
    | some ids => exact extending_some (extending_type _ rfl (by decide))
  | .array elem count => by
    unfold declare
    refine (extending_declare elem).bind fun element _ _ _ => ?_
    cases element with
    | none => exact extending_none
    | some id =>
      refine (extending_sized 32 int64Capability _ rfl (by decide)).bind fun type _ _ htype => ?_
      refine (extending_constant _ rfl (by decide) htype).bind fun _ _ _ _ => ?_
      exact extending_some (extending_type _ rfl (by decide))
  | .missing | .literalFloat32 _ | .literalFloat64 _ | .literalInt32 _ | .literalInt64 _ => by
    unfold declare
    exact extending_none

theorem extending_declareAll {known : List Instruction} :
    (ts : List ValueType) → (declareAll ts).Extending types known fun _ _ => True
  | [] => extending_pure fun _ _ => trivial
  | t :: ts => by
    unfold declareAll
    refine (extending_declare t).bind fun id _ _ _ => ?_
    cases id with
    | none => exact extending_pure fun _ _ => trivial
    | some id =>
      refine (extending_declareAll ts).bind fun ids _ _ _ => ?_
      cases ids with
      | none => exact extending_pure fun _ _ => trivial
      | some ids => exact extending_pure fun _ _ => trivial

end

end ValueType

/-! ### Steps of compiling -/

/-- The type ids of the parameters of an interface. -/
def Interface.typeIds (interface : Option Interface) : List ResultId :=
  interface.elim [] fun i => i.parameters.map (·.typeId)

namespace Emit

variable {α β : Type} {interface : Option Interface} {known : List Instruction}

/-- How a step of compiling can end that starts with a module. -/
inductive Outcome (interface : Option Interface) (m : Module) (post : α → List Instruction → Prop) :
    EStateM.Result EmitError Serializer α → Prop where
  | ok {a : α} {t : Serializer} : m.Extends (Interface.typeIds interface) t.builder.target →
      t.interface = interface → post a t.builder.target.globals → Outcome interface m post (.ok a t)
  /-- An id was taken, and there was no block to use it in. -/
  | lost {e : BuildError} {m' : Module} {t : Serializer} :
      m.Extends (Interface.typeIds interface) m' → t.builder.target = m'.takeId →
      Outcome interface m post (.error (.build e) t)
  | failed {e : EmitError} {t : Serializer} : (∀ cause, e ≠ .build cause) →
      m.Extends (Interface.typeIds interface) t.builder.target →
      Outcome interface m post (.error e t)

theorem Outcome.after {m m' : Module} {post : α → List Instruction → Prop}
    {r : EStateM.Result EmitError Serializer α}
    (h : m.Extends (Interface.typeIds interface) m') (hr : Outcome interface m' post r) :
    Outcome interface m post r := by
  cases hr with
  | ok hext hinterface hpost => exact .ok (h.trans hext) hinterface hpost
  | lost hext htarget => exact .lost (h.trans hext) htarget
  | failed he hext => exact .failed he (h.trans hext)

theorem Outcome.imp {m : Module} {post post' : α → List Instruction → Prop}
    {r : EStateM.Result EmitError Serializer α} (hr : Outcome interface m post r)
    (h : ∀ a globals, post a globals → post' a globals) : Outcome interface m post' r := by
  cases hr with
  | ok hext hinterface hpost => exact .ok hext hinterface (h _ _ hpost)
  | lost hext htarget => exact .lost hext htarget
  | failed he hext => exact .failed he hext

/-- What a step of compiling does, and what it gives back, if the module has the known
declarations. -/
def Emitting (interface : Option Interface) (known : List Instruction) (x : Emit α)
    (post : α → List Instruction → Prop) : Prop :=
  ∀ s, s.interface = interface → known ⊆ s.builder.target.globals →
    Outcome interface s.builder.target post (x.run s)

/-- A step with nothing to be said about what it gives back. -/
abbrev Emits (interface : Option Interface) (known : List Instruction) (x : Emit α) : Prop :=
  Emitting interface known x fun _ _ => True

theorem emitting_pure {a : α} {post : α → List Instruction → Prop}
    (h : ∀ globals, known ⊆ globals → post a globals) :
    Emitting interface known (pure a) post :=
  fun _ hs hm => .ok (.refl _) hs (h _ hm)

theorem emitting_throw {e : EmitError} (he : ∀ cause, e ≠ .build cause)
    {post : α → List Instruction → Prop} : Emitting interface known (throw e) post :=
  fun _ _ _ => .failed he (.refl _)

theorem Emitting.bind {x : Emit α} {f : α → Emit β} {mid : α → List Instruction → Prop}
    {post : β → List Instruction → Prop} (hx : x.Emitting interface known mid)
    (hf : ∀ a known', known ⊆ known' → mid a known' → (f a).Emitting interface known' post) :
    (x >>= f).Emitting interface known post := by
  intro s hs hm
  have hrun := hx s hs hm
  rw [EStateM.run_bind]
  cases hresult : x.run s with
  | ok a t =>
    rw [hresult] at hrun
    cases hrun with
    | ok hext hinterface hmid =>
      have hsub := List.Subset.trans hm hext.globals_subset
      exact (hf a _ hsub hmid t hinterface (List.Subset.refl _)).after hext
  | error e t =>
    rw [hresult] at hrun
    cases hrun with
    | lost hext htarget => exact .lost hext htarget
    | failed he hext => exact .failed he hext

/-- A step after one about which nothing needs to be known. -/
theorem Emitting.seq {x : Emit α} {f : α → Emit β} {post : β → List Instruction → Prop}
    (hx : x.Emits interface known)
    (hf : ∀ a known', (f a).Emitting interface known' post) :
    (x >>= f).Emitting interface known post :=
  hx.bind fun a known' _ _ => hf a known'

theorem Emitting.imp {x : Emit α} {post post' : α → List Instruction → Prop}
    (hx : x.Emitting interface known post) (h : ∀ a globals, post a globals → post' a globals) :
    x.Emitting interface known post' :=
  fun s hs hm => (hx s hs hm).imp h

theorem Emitting.mapM {f : α → Emit β} (hf : ∀ a known', known ⊆ known' →
      (f a).Emits interface known') (as : List α) : (as.mapM f).Emits interface known := by
  induction as generalizing known with
  | nil => exact emitting_pure fun _ _ => trivial
  | cons a as ih =>
    rw [List.mapM_cons]
    refine (hf a known (List.Subset.refl _)).bind fun _ known' hsub _ => ?_
    exact (ih fun a known'' hsub' => hf a known'' (List.Subset.trans hsub hsub')).seq fun _ _ =>
      emitting_pure fun _ _ => trivial

theorem emits_tell (r : Record) : (tell r).Emits interface known :=
  fun _ hs _ => .ok (.refl _) hs trivial

theorem emitting_declare {x : Declare α} {post : α → List Instruction → Prop}
    (hx : x.Extending (Interface.typeIds interface) known post) :
    (declare x).Emitting interface known post := by
  intro s hs hm
  obtain ⟨hext, hpost⟩ := hx s.builder.target hm
  exact .ok hext hs hpost

theorem emits_build {op : Opcode} {type : ResultId} (operands : List Word)
    (hlayout : op.layout = .typed) (hbody : op.IsBody)
    (htype : Module.IsType (Interface.typeIds interface) known type) :
    (build (Build.emit op type operands)).Emits interface known := by
  intro s hs hm
  rw [run_build]
  cases hsel : s.builder.selected? with
  | none =>
    obtain ⟨e, he⟩ := Build.run_emit_none hsel op type operands
    rw [he]
    exact .lost (.refl _) rfl
  | some block =>
    rw [Build.run_emit hsel]
    exact .ok (.body hsel hbody hlayout rfl (htype.mono hm)) hs trivial

/-- A type id is that of a type. -/
theorem emitting_typeId (t : ValueType) :
    (typeId t).Emitting interface known fun id globals =>
      Module.IsType (Interface.typeIds interface) globals id := by
  refine (emitting_declare t.extending_declare).bind fun id known' _ htype => ?_
  cases id with
  | none => exact emitting_throw (by simp)
  | some id => exact emitting_pure fun _ hsub => (htype id rfl).mono hsub

theorem emits_valueType (type : HostType) : (valueType type).Emits interface known := by
  unfold valueType
  split
  · exact emitting_pure fun _ _ => trivial
  · exact emitting_throw (by simp)

theorem emits_instructionSet : instructionSet.Emits interface known := by
  intro s hs hm
  rw [run_instructionSet]
  split
  · have hext : s.builder.target.Extends (Interface.typeIds interface) _ :=
      (Declare.extending_extInstImport s.setName s.builder.target hm).1
    exact .ok hext hs trivial
  · exact .ok (.refl _) hs trivial

theorem emits_extended {type : ResultId} (n : Word) (operands : List ResultId)
    (htype : Module.IsType (Interface.typeIds interface) known type) :
    (extended type n operands).Emits interface known :=
  emits_instructionSet.bind fun _ _ hsub _ =>
    emits_build _ (by decide) (by decide) (htype.mono hsub)

end Emit

/-! ### Constants and trees -/

section

open Emit

variable {interface : Option Interface} {known : List Instruction}

theorem Scalar.extending_constant {types : List ResultId} (s : Scalar) {type : ResultId}
    (v : s.Value) (htype : Module.IsType types known type) :
    (s.constant type v).Extending types known fun _ _ => True := by
  cases s with
  | bool =>
    cases v
    · exact Declare.extending_constant _ rfl (by decide) htype
    · exact Declare.extending_constant _ rfl (by decide) htype
  | int32 | uint32 | float32 | int64 | uint64 | float64 =>
    exact Declare.extending_constant _ rfl (by decide) htype

theorem Emit.emits_constantComposite {type : ResultId} (parts : List ResultId)
    (htype : Module.IsType (Interface.typeIds interface) known type) :
    (declare (Declare.constantComposite type parts)).Emits interface known :=
  emitting_declare (Declare.extending_constant _ rfl (by decide) htype)

theorem Scalar.emits_emit (s : Scalar) (v : s.Value) : (s.emit v).Emits interface known :=
  (emitting_typeId _).bind fun _ _ _ htype => emitting_declare (s.extending_constant v htype)

theorem Scalar.emits_emitVector (s : Scalar) (vs : List s.Value) :
    (s.emitVector vs).Emits interface known :=
  (emitting_typeId _).bind fun _ _ _ htype =>
    (Emitting.mapM (fun v _ _ => s.emits_emit v) vs).bind fun _ _ hsub _ =>
      emits_constantComposite _ (htype.mono hsub)

theorem emits_emitMatrix (n : Nat) (elements : List UInt32) :
    (emitMatrix n elements).Emits interface known := by
  refine (emitting_typeId _).bind fun type known₁ _ htype => ?_
  refine (emitting_typeId _).bind fun columnType known₂ hsub₂ hcolumn => ?_
  refine (emitting_typeId _).bind fun elementType known₃ hsub₃ helement => ?_
  refine (Emitting.mapM (fun c known₄ hsub₄ => ?_) _).bind fun _ known₅ hsub₅ _ => ?_
  · refine (Emitting.mapM (fun bits known₆ hsub₆ => ?_) _).bind fun _ known₇ hsub₇ _ => ?_
    · exact emitting_declare (Declare.extending_constant _ rfl (by decide)
        ((helement.mono hsub₄).mono hsub₆))
    · exact emits_constantComposite _ (((hcolumn.mono hsub₃).mono hsub₄).mono hsub₇)
  · exact emits_constantComposite _ (((htype.mono hsub₂).mono hsub₃).mono hsub₅)

theorem HostType.emits_emit (type : HostType) (v : type.Value) :
    (type.emit v).Emits interface known := by
  unfold HostType.emit
  split
  · exact Scalar.emits_emit _ _
  · exact Scalar.emits_emit _ _
  · exact Scalar.emits_emitVector _ _
  · exact Scalar.emits_emitVector _ _
  · exact Scalar.emits_emitVector _ _
  · exact Scalar.emits_emitVector _ _
  · exact emits_emitMatrix _ _
  · exact emits_emitMatrix _ _
  · exact emits_emitMatrix _ _
  · exact (emits_valueType _).seq fun _ _ => Scalar.emits_emitVector _ _
  · exact (emits_valueType _).seq fun _ _ => Scalar.emits_emitVector _ _
  · split
    · exact emitting_throw (by simp)
    · exact emitting_throw (by simp)

namespace Emit

theorem mem_typeIds {i : Interface} {hash : UInt32} {t : ValueType} {p : Parameter}
    (h : i.parameter? hash t = some p) : p.typeId ∈ Interface.typeIds (some i) :=
  List.mem_map_of_mem (List.mem_of_find?_eq_some h)

theorem emits_parameter (name : Bytes) (type : HostType) (default : type.Value) :
    (parameter name type default).Emits interface known := by
  refine (emits_valueType type).seq fun t known' s hs hm => ?_
  simp only [EStateM.run_bind, EStateM.run_get]
  cases hp : s.interface.bind (·.parameter? (nameHash name) t) with
  | some p =>
    obtain ⟨i, hi, hp⟩ := Option.bind_eq_some_iff.1 hp
    have htype : p.typeId ∈ Interface.typeIds interface := by
      rw [← hs, hi]
      exact mem_typeIds hp
    exact emits_build [p.composite, 1] (by decide) (by decide) (.inl htype) s hs hm
  | none => exact (emits_tell _).seq (fun _ _ => type.emits_emit default) s hs hm

theorem emits_arithmetic (op : Arithmetic) (t : ValueType) (a b : ResultId) :
    Emits interface known (do
      let type ← typeId t
      build (Build.binary op.opcode type a b)) :=
  (emitting_typeId t).bind fun _ _ _ htype =>
    emits_build _ op.opcode_layout op.isBody_opcode htype

theorem emits_function (t : ValueType) (n : Word) (ids : List ResultId) :
    Emits interface known (do
      let type ← typeId t
      extended type n ids) :=
  (emitting_typeId t).bind fun _ _ _ htype => emits_extended n ids htype

theorem emits_select (v : ResultId) (index : Word) :
    Emits interface known (do
      let type ← typeId .f32
      build (Build.compositeExtract type v [index])) :=
  (emitting_typeId .f32).bind fun _ _ _ htype => emits_build _ (by decide) (by decide) htype

/-- A node looks its type up itself, so that nothing has to be given to it. -/
def emission (interface : Option Interface) : Logic where
  Ref _ _ := True
  Map _ _ _ := True
  Entails _ _ := True
  Step _ x _ := ∀ known, x.Emits interface known
  mem _ := trivial
  weaken _ _ := trivial
  ref _ := trivial
  map _ _ := trivial
  empty := trivial
  insert _ _ _ := trivial
  lookup _ _ := trivial
  pure _ _ := emitting_pure fun _ _ => trivial
  throw he _ := emitting_throw he
  bind hx hf known := (hx known).seq hf
  tell r _ := emits_tell r
  constant t v _ := t.emits_emit v
  parameter name t v _ := emits_parameter name t v
  arithmetic op := fun _ _ _ _ _ => emits_arithmetic op _ _ _
  extremum op := fun _ _ _ _ _ => emits_function _ op.number _
  elementary fn := fun _ _ _ _ => emits_function _ fn.number _
  normalize _ _ _ := emits_function _ normalizeNumber _
  cross _ _ _ := emits_function _ crossNumber _
  length _ _ _ := emits_function _ lengthNumber _
  select _ _ _ _ := emits_select _ _

end Emit

/-- Compiling any tree gives every instruction a declared type and an id of its own. -/
theorem Tree.emits_serialize {i : Input} {t : HostType} (tree : Tree i t) (x : i.Value) :
    (tree.serialize x).Emits interface known := by
  have hgiven : (emission interface).Entails [] ⟨i, x⟩ := trivial
  exact tree.step_serialize (emission interface) tree.respects_true hgiven known

end

/-! ### Injections -/

/-- With a block selected every id ends up in an instruction. -/
theorem Builder.Grows.extent {n : Nat} {b c : Builder} (h : Grows n b c)
    (hsel : b.selected?.isSome) : c.target.extent = b.target.extent + n := by
  induction h with
  | refl => rfl
  | tail hgrows hstep ih =>
    have hsofar := ih hsel
    cases hstep with
    | global =>
      simp only [withTarget, Module.extent_append_globals]
      omega
    | extInstImport =>
      simp only [withTarget, Module.extent_append_imports]
      omega
    | capability => exact hsofar
    | emit hblock =>
      simp only [withTarget, Module.extent_appendTo hblock]
      omega
    | spend hnone =>
      obtain ⟨a, rfl, -⟩ := hgrows.eq_grow
      rw [selected?_grow, Option.map_eq_none_iff] at hnone
      simp [hnone] at hsel

/-- A committed injection compiles into the module and then leaves the old blocks out. -/
theorem Injector.changes_inject {inj next : Injector} {i : Input} {t : HostType} {tree : Tree i t}
    {input : i.Value} {log : List Record} (h : inj.inject tree input = (log, .ok next)) :
    ∃ index f n a result, inj.target.functionWithId? inj.functionId = some index ∧
      inj.target.functions[index]? = some f ∧
      inj.target.Changes Instruction.Plain
        (fun m => Module.IsType (Interface.typeIds (some inj.interface)) m.globals) (n + 1)
        (inj.target.compiled index f n a result) ∧
      inj.target.instructions ⊆ (inj.target.compiled index f n a result).instructions ∧
      next.target = inj.target.graft index f n a result ∧
      inj.target.idsTaken next.target index = n + 1 := by
  obtain ⟨index, f, result, s, n, a, hindex, hf, -, hrun, hgrows, ha, hn, rfl⟩ := inject_eq_ok h
  have hlabel : Module.Adds { opcode := .label, resultId := inj.target.header.bound }
      inj.target.takeId (inj.target.openBlock index f) := .inside hf (.label rfl)
  have hreturn : Module.Adds { opcode := .returnValue, operands := [result] } s.builder.target
      (inj.target.compiled index f n a result) := by
    rw [ha]
    exact Module.adds_appendTo (selected?_opened_grow hf n a) rfl
      (by decide : Opcode.returnValue.IsBody)
  have hserialize := tree.emits_serialize input (inj.opened index f) rfl (List.nil_subset _)
  rw [hrun] at hserialize
  cases hserialize with
  | ok hext _ _ =>
    obtain ⟨⟨k, hchanges, hextent⟩, hsub⟩ := hext
    -- both are the number of instructions with a result, since there is a block for them
    have hk : k = n := by
      have hsame := hgrows.extent (by simp [selected?_opened hf])
      omega
    subst hk
    have hkept := List.Subset.trans (List.Subset.trans hlabel.subset hsub) hreturn.subset
    refine ⟨index, f, k, a, result, hindex, hf, ?_, hkept, rfl,
      Module.idsTaken_graft k a result hf hn⟩
    have hopened : inj.target.Changes Instruction.Plain
        (fun m => Module.IsType (Interface.typeIds (some inj.interface)) m.globals) 1
        (inj.target.openBlock index f) :=
      .new .refl rfl (.inl ⟨(by decide : Opcode.label.layout = .id), rfl⟩) hlabel
    have hall := (hopened.trans hchanges).put
      ⟨rfl, rfl, (by decide : Opcode.returnValue.layout = .none)⟩ hreturn
    rwa [Nat.add_comm 1 k] at hall

end ShaderGraft
