import ShaderGraft.Proofs.Simulation
import ShaderGraft.Proofs.Targets
import ShaderGraft.Proofs.TypeDeclaring

/-!
# Types of compiled trees

An id has a type if what defines it has a result type that is read as that type
(`Module.HasType`), and an instruction of a compiled tree is well typed if its operands have the
types that its result type asks for (`Module.WellTyped`). The main statement is
`Tree.wellTyped_serialize`: compiling a tree whose ids have their types gives a result of the type
of the tree and appends well-typed instructions only.

All types are those in the module at the end of the compilation. It has everything that there was
in between, so a type that was found once need not be carried from module to module: `Emit.Types`
says about each step of compiling that what it appends is well typed there, if it ends up there.
-/

namespace ShaderGraft

/-! ### Typed ids -/

/-- The type of a component of a value, if the index is in range. -/
def ValueType.component? : ValueType → Word → Option ValueType
  | .vector elem count, index => if index < count then some elem else none
  | .matrix elem columns rows, index => if index < columns then some (.vector elem rows) else none
  | .array elem count, index => if index < count then some elem else none
  | .struct fields, index => fields[index.toNat]?
  | _, _ => none

namespace Module

/-- What defines the id has a result type that is read as `t`. -/
def TypedAs (m : Module) (id : ResultId) (t : ValueType) : Prop :=
  ∃ inst, m.definition? id = some inst ∧ m.Denotes inst.resultType t

/-- What defines the id has a result type that is read as the same as `t`. -/
def HasType (m : Module) (id : ResultId) (t : ValueType) : Prop :=
  ∃ t', m.TypedAs id t' ∧ t'.same t = true

/-- The id is of the type that a host type stands for. -/
def HasHostType (m : Module) (id : ResultId) (type : HostType) : Prop :=
  ∀ t, type.valueType = .ok t → m.HasType id t

/-- An instruction of a compiled tree whose operands fit its result type. -/
inductive WellTyped (m : Module) (inst : Instruction) : Prop where
  | arithmetic {op : Arithmetic} {a b : ResultId} {t : ValueType} :
    inst.opcode = op.opcode → inst.operands = [a, b] → t.isFloat = true →
      m.Denotes inst.resultType t → m.HasType a t → m.HasType b t → WellTyped m inst
  | extremum {op : Extremum} {set a b : ResultId} {t : ValueType} :
    inst.opcode = .extInst → inst.operands = [set, op.number, a, b] → t.isFloat = true →
      m.Denotes inst.resultType t → m.HasType a t → m.HasType b t → WellTyped m inst
  | elementary {fn : Elementary} {set a : ResultId} {t : ValueType} :
    inst.opcode = .extInst → inst.operands = [set, fn.number, a] → t.isFloat = true →
      m.Denotes inst.resultType t → m.HasType a t → WellTyped m inst
  | normalize {set a : ResultId} {count : Word} :
    inst.opcode = .extInst → inst.operands = [set, normalizeNumber, a] →
      m.Denotes inst.resultType (.vector .f32 count) → m.HasType a (.vector .f32 count) →
      WellTyped m inst
  | cross {set a b : ResultId} :
    inst.opcode = .extInst → inst.operands = [set, crossNumber, a, b] →
      m.Denotes inst.resultType (.vector .f32 3) → m.HasType a (.vector .f32 3) →
      m.HasType b (.vector .f32 3) → WellTyped m inst
  | length {set a : ResultId} {count : Word} :
    inst.opcode = .extInst → inst.operands = [set, lengthNumber, a] →
      m.Denotes inst.resultType .f32 → m.HasType a (.vector .f32 count) → WellTyped m inst
  | extract {composite index : Word} {t elem : ValueType} :
    inst.opcode = .compositeExtract → inst.operands = [composite, index] →
      m.TypedAs composite t → t.component? index = some elem → m.Denotes inst.resultType elem →
      WellTyped m inst

/-- The second module has all declarations and definitions of the first. -/
structure Retains (m m' : Module) : Prop where
  keeps : m.Keeps m'
  definitions : ∀ id inst, m.definition? id = some inst → m'.definition? id = some inst

namespace Retains

variable {m m' : Module} (h : m.Retains m')

include h

theorem typedAs {id : ResultId} {t : ValueType} (hid : m.TypedAs id t) : m'.TypedAs id t := by
  obtain ⟨inst, hinst, htype⟩ := hid
  exact ⟨inst, h.definitions id inst hinst, h.keeps.denotes htype⟩

theorem hasHostType {id : ResultId} {type : HostType} (hid : m.HasHostType id type) :
    m'.HasHostType id type := by
  intro t ht
  obtain ⟨t', htyped, hsame⟩ := hid t ht
  exact ⟨t', h.typedAs htyped, hsame⟩

end Retains

theorem IdsDistinct.typedAs {m : Module} (hm : m.IdsDistinct) {inst : Instruction} {t : ValueType}
    (hmem : inst ∈ m.instructions) (hlayout : inst.opcode.layout ≠ .none)
    (htype : m.Denotes inst.resultType t) : m.TypedAs inst.resultId t :=
  ⟨inst, hm.definition?_eq hmem (hm.ne_zero inst hmem hlayout), htype⟩

theorem TypedAs.hasHostType {m : Module} {id : ResultId} {type : HostType} {t : ValueType}
    (h : m.TypedAs id t) (ht : type.valueType = .ok t) : m.HasHostType id type := by
  intro t' ht'
  cases ht.symm.trans ht'
  exact ⟨t, h, HostType.same_self ht⟩

end Module

/-- All ids of an input are of the types that it says. -/
def Input.Typed (m : Module) : (i : Input) → i.Value → Prop
  | .none, _ => True
  | .data type, id => m.HasHostType id type
  | .context, known => ∀ name b, known.find? name = some b → m.HasHostType b.id b.type

theorem Module.Retains.typed {m m' : Module} (h : m.Retains m') {i : Input} {x : i.Value}
    (hx : Input.Typed m i x) : Input.Typed m' i x := by
  cases i with
  | none => trivial
  | data type => exact h.hasHostType hx
  | context => exact fun name b hb => h.hasHostType (hx name b hb)

theorem Input.Typed.bind {m : Module} {known : Context} (h : Input.Typed m .context known)
    (name : Bytes) {type : HostType} {id : ResultId} (hid : m.HasHostType id type) :
    Input.Typed m .context (known.bind name { id, type }) := by
  intro other b hb
  by_cases heq : other = name
  · subst heq
    simp only [Context.find?, Context.bind, List.lookup_cons_self] at hb
    cases hb
    exact hid
  · rw [known.find?_bind_ne heq] at hb
    exact h other b hb

/-- All ids that a tree refers to are of the types that it says, and its input maps take typed
inputs to typed inputs, now and in every module that has all that there is now. -/
def Tree.TypedIn (m : Module) {i : Input} {t : HostType} (tree : Tree i t) : Prop :=
  tree.Respects m.HasHostType fun i j f =>
    ∀ m', m.Retains m' → ∀ x, Input.Typed m' i x → Input.Typed m' j (f x)

/-! ### Compiling into a module -/

/-- A compilation that ends in a module. -/
structure Typing where
  start : Module
  final : Module
  interface : Interface
  /-- The instructions of the selected block at the start. -/
  before : List Instruction
  idsDistinct : final.IdsDistinct
  retains : start.Retains final
  parameters : ∀ p ∈ interface.parameters, final.Denotes p.typeId p.type ∧
    final.TypedAs p.composite (.struct [.u32, p.type])

namespace Typing

variable (c : Typing)

/-- Whether what there is after some compiling ends up in the final module. -/
structure Within (s : Serializer) : Prop where
  globals : s.builder.target.globals <+: c.final.globals
  body : ∀ block, s.builder.selected? = some block → block.body ⊆ c.final.instructions

/-- Whether all that was appended so far is well typed. -/
structure Reached (s : Serializer) : Prop where
  interface : s.interface = some c.interface
  body : ∃ block new, s.builder.selected? = some block ∧ block.body = c.before ++ new ∧
    ∀ inst ∈ new, c.final.WellTyped inst

variable {c}

theorem Within.of_grows {s t : Serializer} (ht : c.Within t) (h : s.Grows t) : c.Within s := by
  obtain ⟨n, hn⟩ := h.builder
  obtain ⟨a, ha, -⟩ := hn.eq_grow
  have hglobals := ht.globals
  rw [ha] at hglobals
  refine ⟨(List.prefix_append ..).trans hglobals, fun block hsel => ?_⟩
  have hbody := ht.body { block with body := block.body ++ a.body }
  rw [ha, Builder.selected?_grow, hsel] at hbody
  exact List.Subset.trans (List.subset_append_left ..) (hbody rfl)

theorem Reached.of_grows {s t : Serializer} (hs : c.Reached s) (h : s.Grows t)
    (hsel : t.builder.selected? = s.builder.selected?) : c.Reached t where
  interface := h.interface.trans hs.interface
  body := hsel ▸ hs.body

end Typing

namespace Emit

variable {α β : Type} {c : Typing} {P : Prop}

/-- A step of compiling, with what holds of its result if `P` does. -/
def Types (c : Typing) (P : Prop) (x : Emit α) (Q : α → Prop) : Prop :=
  ∀ s t a, x.run s = .ok a t → s.Grows t ∧
    (P → c.Reached s → c.Within t → c.Reached t ∧ Q a)

theorem types_pure {a : α} {Q : α → Prop} (h : P → Q a) : Types c P (pure a) Q := by
  intro s t b hrun
  cases hrun
  exact ⟨.refl s, fun hP hs _ => ⟨hs, h hP⟩⟩

theorem types_throw {Q : α → Prop} (e : EmitError) : Types c P (throw e) Q := by
  intro s t b hrun
  cases hrun

theorem Types.bind {x : Emit α} {f : α → Emit β} {Q : α → Prop} {R : β → Prop}
    (hx : Types c P x Q) (hf : ∀ a, Types c (P ∧ Q a) (f a) R) : Types c P (x >>= f) R := by
  intro s t b hrun
  rw [EStateM.run_bind] at hrun
  cases hx' : x.run s with
  | error e u => simp [hx'] at hrun
  | ok a u =>
    simp only [hx'] at hrun
    obtain ⟨hsu, hQ⟩ := hx s u a hx'
    obtain ⟨hut, hR⟩ := hf a u t b hrun
    refine ⟨hsu.trans hut, fun hP hs ht => ?_⟩
    obtain ⟨hu, ha⟩ := hQ hP hs (ht.of_grows hut)
    exact hR ⟨hP, ha⟩ hu ht

theorem Types.imp {x : Emit α} {Q R : α → Prop} (hx : Types c P x Q) (h : ∀ a, P → Q a → R a) :
    Types c P x R := by
  intro s t a hrun
  obtain ⟨hgrows, hQ⟩ := hx s t a hrun
  refine ⟨hgrows, fun hP hs ht => ?_⟩
  obtain ⟨ht', ha⟩ := hQ hP hs ht
  exact ⟨ht', h a hP ha⟩

theorem Types.pre {P' : Prop} {x : Emit α} {Q : α → Prop} (hx : Types c P x Q) (h : P' → P) :
    Types c P' x Q := by
  intro s t a hrun
  obtain ⟨hgrows, hQ⟩ := hx s t a hrun
  exact ⟨hgrows, fun hP => hQ (h hP)⟩

theorem Types.mapM {f : α → Emit β} (hf : ∀ a, Types c True (f a) fun _ => True) (as : List α) :
    Types c P (as.mapM f) fun _ => True := by
  induction as generalizing P with
  | nil => exact types_pure fun _ => trivial
  | cons a as ih =>
    rw [List.mapM_cons]
    refine ((hf a).pre fun _ => trivial).bind fun b => ?_
    exact ih.bind fun bs => types_pure fun _ => trivial

theorem types_get_bind {f : Serializer → Emit α} {Q : α → Prop}
    (hf : ∀ s, Types c (P ∧ s.interface = some c.interface) (f s) Q) :
    Types c P (get >>= f) Q := by
  intro s t a hrun
  obtain ⟨hgrows, hQ⟩ := hf s s t a hrun
  exact ⟨hgrows, fun hP hs => hQ ⟨hP, hs.interface⟩ hs⟩

theorem types_tell (r : Record) : Types c P (tell r) fun _ => True := by
  intro s t a hrun
  have hgrows := (growing_tell r).grows hrun
  cases hrun
  exact ⟨hgrows, fun _ hs _ => ⟨hs.of_grows hgrows rfl, trivial⟩⟩

theorem types_throw_bind {Q : β → Prop} (e : EmitError) (f : α → Emit β) :
    Types c P (throw e >>= f) Q := by
  intro s t a hrun
  cases hrun

theorem types_valueType_bind {type : HostType} {f : ValueType → Emit α} {Q : α → Prop}
    (hf : ∀ t, type.valueType = .ok t → Types c P (f t) Q) :
    Types c P (valueType type >>= f) Q := by
  unfold valueType
  split
  · exact hf _ ‹_›
  · exact types_throw_bind _ _

theorem types_declare {x : Declare α} {Q : α → Prop} (hx : x.Settles c.final Q)
    (hgrowing : x.Growing) : Types c P (declare x) Q := by
  intro s t a hrun
  have hgrows := (growing_declare hgrowing).grows hrun
  obtain ⟨hfunctions, -, hQ⟩ := hx s.builder.target
  rw [run_declare] at hrun
  injection hrun with ha ht'
  subst ha ht'
  refine ⟨hgrows, fun _ hs ht => ⟨hs.of_grows hgrows ?_, hQ ht.globals⟩⟩
  simp only [Builder.selected?, Builder.withTarget, Module.block?, hfunctions]

theorem types_typeId (t : ValueType) : Types c P (typeId t) fun id => c.final.Denotes id t := by
  refine (types_declare (t.settles_declare c.idsDistinct) t.growing_declare).bind fun id? => ?_
  cases id? with
  | none => exact types_throw _
  | some id => exact types_pure fun h => h.2 id rfl

theorem types_instructionSet : Types c P instructionSet fun _ => True := by
  intro s t a hrun
  have hgrows := growing_instructionSet.grows hrun
  refine ⟨hgrows, fun _ hs _ => ⟨hs.of_grows hgrows ?_, trivial⟩⟩
  rw [run_instructionSet] at hrun
  split at hrun
  · have hfunctions : ((Declare.extInstImport s.setName).run s.builder.target).2.functions =
        s.builder.target.functions := by
      rw [Declare.run_extInstImport]
      split <;> rfl
    injection hrun with hid ht'
    subst ht'
    simp only [Builder.selected?, Builder.withTarget, Module.block?, hfunctions]
  · cases hrun
    rfl

/-- A well-typed instruction. -/
theorem types_emit {op : Opcode} {type : ResultId} {operands : List Word} {t : ValueType}
    (hlayout : op.layout = .typed) (hbody : op.IsBody) (hcall : op ≠ .functionCall)
    (htype : P → c.final.Denotes type t)
    (h : P → ∀ inst : Instruction, inst.opcode = op → inst.resultType = type →
      inst.operands = operands → c.final.WellTyped inst) :
    Types c P (build (Build.emit op type operands)) fun id => c.final.TypedAs id t := by
  intro s t' id hrun
  have hgrows := (growing_emit op type operands hlayout hbody hcall).grows hrun
  refine ⟨hgrows, fun hP hs ht => ?_⟩
  obtain ⟨block, new, hsel, hnew, htyped⟩ := hs.body
  let inst : Instruction :=
    { opcode := op, resultType := type, resultId := s.builder.target.header.bound, operands }
  rw [run_build, Build.run_emit hsel] at hrun
  injection hrun with hid ht'
  subst hid ht'
  have hsel' := Builder.selected?_appendTo hsel inst hlayout hcall
  have hmem : inst ∈ c.final.instructions := ht.body _ hsel' (by simp)
  refine ⟨⟨hs.interface, _, new ++ [inst], hsel', by simp [hnew], ?_⟩, ?_⟩
  · exact forall_mem_concat htyped (h hP inst rfl rfl rfl)
  · exact c.idsDistinct.typedAs hmem (by simp [inst, hlayout]) (htype hP)

end Emit

/-! ### Constants -/

open Emit

variable {c : Typing} {P : Prop}

theorem Typing.typedAs_declared {op : Opcode} {type id : ResultId} {operands : List Word}
    {t : ValueType} (h : c.final.Declared op type operands id) (hlayout : op.layout ≠ .none)
    (htype : c.final.Denotes type t) : c.final.TypedAs id t := by
  obtain ⟨inst, hmem, rfl, rfl, rfl, -⟩ := h
  exact c.idsDistinct.typedAs (c.final.sublist_globals.subset hmem) hlayout htype

theorem Emit.types_global {op : Opcode} (type : ResultId) (operands : List Word)
    (hop : op.placement = .within .globals) (hlayout : op.layout ≠ .none)
    (hcall : op ≠ .functionCall) :
    Types c P (declare (Declare.global op type operands)) (c.final.Declared op type operands) :=
  types_declare (Declare.settles_global op type operands)
    (Declare.growing_global op type operands hop hlayout hcall)

/-- A constant of a declared type. -/
theorem Emit.types_constant {op : Opcode} {type : ResultId} (operands : List Word)
    {t : ValueType} (hop : op.placement = .within .globals) (hlayout : op.layout ≠ .none)
    (hcall : op ≠ .functionCall) (htype : P → c.final.Denotes type t) :
    Types c P (declare (Declare.global op type operands)) fun id => c.final.TypedAs id t :=
  (types_global type operands hop hlayout hcall).imp fun _ hP h =>
    Typing.typedAs_declared h hlayout (htype hP)

namespace Scalar

theorem types_constant (s : Scalar) {type : ResultId} (v : s.Value)
    (htype : P → c.final.Denotes type s.type) :
    Types c P (declare (s.constant type v)) fun id => c.final.TypedAs id s.type := by
  cases s with
  | bool =>
    cases v with
    | false => exact Emit.types_constant _ rfl (by decide) (by decide) htype
    | true => exact Emit.types_constant _ rfl (by decide) (by decide) htype
  | int32 | uint32 | float32 | int64 | uint64 | float64 =>
    exact Emit.types_constant _ rfl (by decide) (by decide) htype

theorem types_emit (s : Scalar) (v : s.Value) :
    Types c P (s.emit v) fun id => c.final.TypedAs id s.type :=
  (types_typeId s.type).bind fun _ => s.types_constant v And.right

theorem types_emitVector (s : Scalar) (vs : List s.Value) :
    Types c P (s.emitVector vs) fun id =>
      c.final.TypedAs id (.vector s.type vs.length.toUInt32) := by
  refine (types_typeId _).bind fun type => ?_
  refine (Types.mapM (fun v => (s.types_emit v).imp fun _ _ _ => trivial) vs).bind fun parts => ?_
  exact Emit.types_constant _ rfl (by decide) (by decide) fun h => h.1.2

end Scalar

theorem types_emitMatrix (n : Nat) (elements : List UInt32) :
    Types c P (emitMatrix n elements) fun id =>
      c.final.TypedAs id (.matrix .f32 n.toUInt32 n.toUInt32) := by
  refine (types_typeId _).bind fun type => ?_
  refine (types_typeId _).bind fun columnType => ?_
  refine (types_typeId _).bind fun elementType => ?_
  refine (Types.mapM (fun column => ?_) _).bind fun columns => ?_
  · refine (Types.mapM (fun bits => ?_) _).bind fun parts => ?_
    · exact (types_global _ _ rfl (by decide) (by decide)).imp fun _ _ _ => trivial
    · exact (types_global _ _ rfl (by decide) (by decide)).imp fun _ _ _ => trivial
  · exact Emit.types_constant _ rfl (by decide) (by decide) fun h => h.1.1.1.2

theorem HostType.eq_vector_of_valueType {count : Nat} {elem : HostType} {e t : ValueType}
    (h : (HostType.array count elem).valueType = .ok t) (helem : elem.valueType = .ok e) :
    t = .vector e count.toUInt32 := by
  rw [valueType] at h
  split at h
  · cases h
  · simp only [helem] at h
    split at h
    · cases h
      rfl
    · cases h

/-- An array is a vector. -/
theorem HostType.types_emitArray {count : Nat} {elem : HostType} {s : Scalar}
    (helem : elem.valueType = .ok s.type) (v : Vector s.Value count) :
    Types c P (do
      let _ ← Emit.valueType (.array count elem)
      s.emitVector v.toList) fun id => c.final.HasHostType id (.array count elem) := by
  refine types_valueType_bind fun t ht => ?_
  refine (s.types_emitVector v.toList).imp fun id _ hid => hid.hasHostType ?_
  rw [ht, eq_vector_of_valueType ht helem, v.length_toList]

/-- The constant for a value has the type of the value. -/
theorem HostType.types_emit (type : HostType) (v : type.Value) :
    Types c P (type.emit v) fun id => c.final.HasHostType id type := by
  have hvector {n : Nat} {s : Scalar} (vs : Vector s.Value n) {type : HostType}
      (htype : type.valueType = .ok (.vector s.type n.toUInt32)) :
      Types c P (s.emitVector vs.toList) fun id => c.final.HasHostType id type := by
    refine (s.types_emitVector vs.toList).imp fun id _ hid => hid.hasHostType ?_
    rw [htype, vs.length_toList]
  unfold HostType.emit
  split
  · exact (Scalar.types_emit _ _).imp fun _ _ h => h.hasHostType rfl
  · exact (Scalar.types_emit _ _).imp fun _ _ h => h.hasHostType rfl
  · exact hvector _ rfl
  · exact hvector _ rfl
  · exact hvector _ rfl
  · exact hvector _ rfl
  · exact (types_emitMatrix _ _).imp fun _ _ h => h.hasHostType rfl
  · exact (types_emitMatrix _ _).imp fun _ _ h => h.hasHostType rfl
  · exact (types_emitMatrix _ _).imp fun _ _ h => h.hasHostType rfl
  · exact types_emitArray rfl _
  · exact types_emitArray rfl _
  · split
    · exact types_throw _
    · exact types_throw _

/-! ### Nodes -/

namespace Emit

variable {α : Type} {Q : α → Prop}

theorem types_extended {type : ResultId} {n : Word} {args : List ResultId} {t : ValueType}
    (htype : P → c.final.Denotes type t)
    (h : P → ∀ (set : ResultId) (inst : Instruction), inst.opcode = .extInst →
      inst.resultType = type → inst.operands = set :: n :: args → c.final.WellTyped inst) :
    Types c P (extended type n args) fun id => c.final.TypedAs id t := by
  refine types_instructionSet.bind fun set => ?_
  exact types_emit (by decide) (by decide) (by decide) (fun hP => htype hP.1) fun hP => h hP.1 set

theorem types_arithmetic (op : Arithmetic) {t : HostType} {vt : ValueType} {a b : ResultId}
    (ht : t.valueType = .ok vt) (hfloat : vt.isFloat = true)
    (ha : P → c.final.HasHostType a t) (hb : P → c.final.HasHostType b t) :
    Types c P (do
      let type ← typeId vt
      build (Build.binary op.opcode type a b)) fun id => c.final.HasHostType id t := by
  refine (types_typeId vt).bind fun type => ?_
  refine (types_emit op.opcode_layout op.isBody_opcode op.opcode_ne_functionCall And.right
    ?_).imp fun _ _ h => h.hasHostType ht
  rintro ⟨hP, htype⟩ inst hop rfl hops
  exact .arithmetic hop hops hfloat htype (ha hP vt ht) (hb hP vt ht)

/-- A function of the instruction set on results, which is well typed if its result type is. -/
theorem types_function {t : HostType} {vt : ValueType} {n : Word} {args : List ResultId}
    (ht : t.valueType = .ok vt)
    (h : P → ∀ (set : ResultId) (inst : Instruction), inst.opcode = .extInst →
      inst.operands = set :: n :: args → c.final.Denotes inst.resultType vt →
      c.final.WellTyped inst) :
    Types c P (do
      let type ← typeId vt
      extended type n args) fun id => c.final.HasHostType id t := by
  refine (types_typeId vt).bind fun type => ?_
  refine (types_extended And.right ?_).imp fun _ _ hid => hid.hasHostType ht
  rintro ⟨hP, htype⟩ set inst hop rfl hops
  exact h hP set inst hop hops htype

theorem types_select {t : HostType} {count index : Word} {v : ResultId}
    (ht : t.valueType = .ok (.vector .f32 count)) (hindex : index < count)
    (hv : P → c.final.HasHostType v t) :
    Types c P (do
      let type ← typeId .f32
      build (Build.compositeExtract type v [index])) fun id => c.final.HasHostType id .f32 := by
  refine (types_typeId .f32).bind fun type => ?_
  refine (types_emit (by decide) (by decide) (by decide) And.right ?_).imp fun _ _ hid =>
    hid.hasHostType rfl
  rintro ⟨hP, htype⟩ inst hop rfl hops
  obtain ⟨vector, hvector, hsame⟩ := hv hP _ ht
  rw [ValueType.eq_of_same hsame] at hvector
  exact .extract hop hops hvector (if_pos hindex) htype

theorem types_parameter (name : Bytes) (type : HostType) (default : type.Value) :
    Types c P (parameter name type default) fun id => c.final.HasHostType id type := by
  refine types_valueType_bind fun t ht => types_get_bind fun s => ?_
  cases hp : s.interface.bind (·.parameter? (nameHash name) t) with
  | none => exact (types_tell _).bind fun _ => type.types_emit default
  | some p =>
    have hfound (hs : s.interface = some c.interface) :
        p ∈ c.interface.parameters ∧ p.type.same t = true := by
      rw [hs, Option.bind_some] at hp
      have hsame := List.find?_some hp
      simp only [Bool.and_eq_true] at hsame
      exact ⟨List.mem_of_find?_eq_some hp, hsame.2⟩
    have hparameter (hs : s.interface = some c.interface) := c.parameters p (hfound hs).1
    refine (types_emit (by decide) (by decide) (by decide) (fun h => (hparameter h.2).1)
      ?_).imp fun id h hid t' ht' => ?_
    · rintro ⟨-, hs⟩ inst hop htype hops
      exact .extract hop hops (hparameter hs).2 rfl (htype ▸ (hparameter hs).1)
    · cases ht.symm.trans ht'
      exact ⟨p.type, hid, (hfound h.2).2⟩

end Emit

/-! ### Trees -/

namespace Typing

/-- Whether everything that is given is of the type that it says, in the end. -/
def Typed (c : Typing) (known : List Given) : Prop :=
  ∀ g ∈ known, Input.Typed c.final g.1 g.2

theorem types_data {x : Emit ResultId} {t : HostType}
    (hx : Types c P x fun id => c.final.HasHostType id t) :
    Types c P x fun id => c.Typed [⟨.data t, id⟩] :=
  hx.imp fun _ _ h => List.forall_mem_singleton.2 h

/-- What is given is typed, and what is compiled is well typed then. -/
def logic (c : Typing) : Emit.Logic where
  Ref := c.start.HasHostType
  Map i j f := ∀ m', c.start.Retains m' → ∀ x, Input.Typed m' i x → Input.Typed m' j (f x)
  Entails known g := c.Typed known → Input.Typed c.final g.1 g.2
  Step known x out := Types c (c.Typed known) x fun a => c.Typed (out a)
  mem hg h := h _ hg
  weaken _ hg h := hg (List.forall_mem_append.1 h).2
  ref hid _ := c.retains.hasHostType hid
  map hf hx h := hf c.final c.retains _ (hx h)
  empty _ _ _ hb := nomatch hb
  insert name hc hid h := Input.Typed.bind (hc h) name (hid h)
  lookup hfind hc h := hc h _ _ hfind
  pure ha := types_pure fun h g hg => ha g hg h
  throw _ := types_throw _
  bind hx hf := hx.bind fun a => (hf a).pre fun h => List.forall_mem_append.2 ⟨h.2, h.1⟩
  tell r := (types_tell r).imp fun _ _ _ => List.forall_mem_nil _
  constant t v := types_data (t.types_emit v)
  parameter name t v := types_data (types_parameter name t v)
  arithmetic op := fun ht hfloat ha hb => types_data (types_arithmetic op ht hfloat ha hb)
  extremum _ := fun ht hfloat ha hb => types_data (types_function ht
    fun h _ _ hop hops htype => .extremum hop hops hfloat htype (ha h _ ht) (hb h _ ht))
  elementary _ := fun ht hfloat hv => types_data (types_function ht
    fun h _ _ hop hops htype => .elementary hop hops hfloat htype (hv h _ ht))
  normalize ht hv := types_data (types_function ht
    fun h _ _ hop hops htype => .normalize hop hops htype (hv h _ ht))
  cross ha hb := types_data (types_function rfl
    fun h _ _ hop hops htype => .cross hop hops htype (ha h _ rfl) (hb h _ rfl))
  length ht hv := types_data (types_function rfl
    fun h _ _ hop hops htype => .length hop hops htype (hv h _ ht))
  select ht hindex hv := types_data (types_select ht hindex hv)

end Typing

theorem Tree.types_serialize {c : Typing} {i : Input} {t : HostType} {tree : Tree i t}
    (h : tree.TypedIn c.start) (x : i.Value) :
    Types c (Input.Typed c.final i x) (tree.serialize x) fun id => c.final.HasHostType id t := by
  have hgiven : c.logic.Entails [⟨i, x⟩] ⟨i, x⟩ := c.logic.head _
  refine ((tree.step_serialize c.logic h hgiven).pre List.forall_mem_singleton.2).imp ?_
  exact fun id _ hid => hid _ (List.mem_singleton_self _)

/-! ### Whole trees -/

theorem Builder.body_subset {b : Builder} {block : Block} (h : b.selected? = some block) :
    block.body ⊆ b.target.instructions := by
  obtain ⟨m, _ | f, _ | k⟩ := b
  · cases h
  · cases h
  · cases h
  change m.functions[f]?.bind (·.blocks[k]?) = some block at h
  obtain ⟨fn, hfn, hblock⟩ := Option.bind_eq_some_iff.1 h
  intro inst hinst
  exact Module.mem_instructions_of_mem_function (List.mem_of_getElem? hfn)
    (Function.mem_instructions_of_mem_body (List.mem_of_getElem? hblock) hinst)

namespace Module

theorem Retains.of_subset {m m' : Module} (hm' : m'.IdsDistinct)
    (hglobals : m.globals <+: m'.globals) (hsub : m.instructions ⊆ m'.instructions) :
    m.Retains m' where
  keeps := .of_globals hglobals
  definitions := fun id inst h => by
    obtain ⟨hne, hmem, rfl⟩ := mem_of_definition? h
    exact hm'.definition?_eq (hsub hmem) hne

theorem Retains.trans {m m' m'' : Module} (h : m.Retains m') (h' : m'.Retains m'') :
    m.Retains m'' where
  keeps := h.keeps.trans h'.keeps
  definitions := fun id inst hid => h'.definitions id inst (h.definitions id inst hid)

/-- The runtime parameters are structs of hash and value, and the values have their types. -/
def TypedParameters (m : Module) (i : Interface) : Prop :=
  ∀ p ∈ i.parameters, m.Denotes p.typeId p.type ∧ m.TypedAs p.composite (.struct [.u32, p.type])

end Module

/-- What a tree compiles to is well typed where it is, if everything is that it starts from. -/
theorem Tree.wellTyped_serialize {i : Input} {t : HostType} {tree : Tree i t} {x : i.Value}
    {m : Module} {interface : Interface} {s s' : Serializer} {limit : Nat} {block : Block}
    {result : ResultId} (hids : s.builder.target.IdsBelow limit)
    (hm : m.Retains s.builder.target) (hparameters : m.TypedParameters interface)
    (hinterface : s.interface = some interface) (hsel : s.builder.selected? = some block)
    (htree : tree.TypedIn m) (hx : Input.Typed m i x)
    (hrun : (tree.serialize x).run s = .ok result s')
    (hlimit : limit + (s'.builder.target.extent - s.builder.target.extent) ≤ UInt32.size) :
    s'.builder.target.HasHostType result t ∧
      ∃ new, s'.builder.selected? = some { block with body := block.body ++ new } ∧
        ∀ inst ∈ new, s'.builder.target.WellTyped inst := by
  obtain ⟨n, hn⟩ := ((tree.growing_serialize x).grows hrun).builder
  obtain ⟨a, ha, -⟩ := hn.eq_grow
  have hextent := hn.extent (by simp [hsel])
  have hdistinct := (hn.idsBelow (by omega) hids).toIdsDistinct
  have hsub : s.builder.target.instructions ⊆ s'.builder.target.instructions := by
    have hemits := tree.emits_serialize x s rfl (List.nil_subset _)
    rw [hrun] at hemits
    cases hemits with
    | ok hext _ _ => exact hext.subset
  have hretains : m.Retains s'.builder.target := by
    refine hm.trans (.of_subset hdistinct ?_ hsub)
    rw [ha]
    exact List.prefix_append ..
  let c : Typing := {
    start := m
    final := s'.builder.target
    interface
    before := block.body
    idsDistinct := hdistinct
    retains := hretains
    parameters := fun p hp => by
      obtain ⟨hvalue, hcomposite⟩ := hparameters p hp
      exact ⟨hretains.keeps.denotes hvalue, hretains.typedAs hcomposite⟩ }
  have hwithin : c.Within s' := ⟨List.prefix_rfl, fun _ => Builder.body_subset⟩
  have hreached : c.Reached s := ⟨hinterface, block, [], hsel, by simp [c], by simp⟩
  obtain ⟨-, htyped⟩ := tree.types_serialize (c := c) htree x s s' result hrun
  obtain ⟨⟨-, block', new, hsel', hbody, hnew⟩, hresult⟩ :=
    htyped (hretains.typed hx) hreached hwithin
  refine ⟨hresult, new, ?_, hnew⟩
  rw [ha, Builder.selected?_grow, hsel, Option.map_some] at hsel' ⊢
  cases hsel'
  rw [List.append_cancel_left hbody]

end ShaderGraft
