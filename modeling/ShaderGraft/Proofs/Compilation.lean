import ShaderGraft.Proofs.Execution
import ShaderGraft.Proofs.Ids

/-!
# Compiling and running

A tree is compiled into a module that goes on changing until it is committed, but it is run in the
module that was committed. So what compiling does is related to the committed module from the start
(`Compilation`): where compiling has got to, the instructions so far are the beginning of the body
that will be run, and running them leads to a frame (`Compilation.Reached`).

`Emit.Correct` is the logic for steps of compiling: a step that succeeds leads to a frame that holds
all that the frame before held, in which what the step gave back has the stated property.
-/

namespace ShaderGraft

namespace Frame

/-- Whether a frame has all the values of another. -/
def Le (a b : Frame) : Prop :=
  ∀ id v, a.values.get? id = some v → b.values.get? id = some v

theorem Le.refl (a : Frame) : a.Le a :=
  fun _ _ hget => hget

theorem Le.trans {a b c : Frame} (h : a.Le b) (h' : b.Le c) : a.Le c :=
  fun id v hget => h' id v (h id v hget)

theorem Holds.mono {m : Module} {a b : Frame} {id : ResultId} {xs : List Float32} (h : a.Le b)
    (hid : a.Holds m id xs) : b.Holds m id xs := by
  cases hid with
  | value hget => exact .value (h _ _ hget)
  | constant hconstant => exact .constant hconstant

end Frame

/-- The number of floats in a value of a type of floats. -/
def ValueType.floatCount? : ValueType → Option Nat
  | .float 32 => some 1
  | .vector (.float 32) count => some count.toNat
  | _ => none

/-- A committed module with the body of its target, and a run of that body from a frame in which
the runtime parameters have values. -/
structure Compilation where
  committed : Module
  interface : Interface
  /-- The formal parameters of the target. -/
  formals : List Instruction
  /-- The body of the target without the instruction that returns. -/
  body : List Instruction
  host : Host
  callee : Callee
  start : Frame
  /-- The components of the runtime parameters by formal parameter. -/
  values : ResultId → List Float32
  idsDistinct : committed.IdsDistinct
  /-- An import with the name of the standard set is an import. -/
  imports : ∀ inst ∈ committed.imports, (Literal.decode inst.operands).1 = standardSet →
    inst.opcode = .extInstImport
  apart : (committed.globals ++ (formals ++ body)).Pairwise Instruction.Apart
  ne_zero : ∀ inst ∈ formals ++ body, inst.resultId ≠ 0
  short : body.length < maxSteps
  keys : ∀ id v, start.values.get? id = some v → ∃ inst ∈ formals, inst.resultId = id
  passed : ∀ p ∈ interface.parameters, ∀ n, p.type.floatCount? = some n →
    (values p.composite).length = n ∧ ∃ hash, start.values.get? p.composite =
      some (.parameter hash (.floatVector (values p.composite)))

namespace Compilation

variable (c : Compilation)

/-- Whether what there is after some compiling ends up in the committed module. -/
structure Within (s : Serializer) : Prop where
  imports : s.builder.target.imports <+: c.committed.imports
  globals : s.builder.target.globals <+: c.committed.globals
  body : ∃ block, s.builder.selected? = some block ∧ block.body <+: c.body

/-- Whether running what was compiled so far leads to a frame. -/
structure Reached (s : Serializer) (frame : Frame) : Prop where
  interface : s.interface = some c.interface
  setName : s.setName = standardSet
  setImported : s.SetImported
  started : c.start.Le frame
  body : ∃ block, s.builder.selected? = some block ∧
    c.committed.Leads c.host c.callee c.start block.body frame ∧
    ∀ id v, frame.values.get? id = some v → ∃ inst ∈ c.formals ++ block.body, inst.resultId = id

variable {c}

theorem Within.of_grows {s t : Serializer} (ht : c.Within t) (h : s.Grows t) : c.Within s := by
  obtain ⟨n, hn⟩ := h.builder
  obtain ⟨a, ha, -⟩ := hn.eq_grow
  obtain ⟨block, hsel, hbody⟩ := ht.body
  have himports := ht.imports
  have hglobals := ht.globals
  rw [ha] at himports hglobals hsel
  rw [Builder.selected?_grow] at hsel
  obtain ⟨block', hsel', rfl⟩ := Option.map_eq_some_iff.1 hsel
  exact {
    imports := (List.prefix_append ..).trans himports
    globals := (List.prefix_append ..).trans hglobals
    body := ⟨block', hsel', (List.prefix_append ..).trans hbody⟩ }

/-- The values of a frame do not hide the declarations. -/
theorem Reached.local {s : Serializer} {frame : Frame} (h : c.Reached s frame) (hs : c.Within s) :
    frame.Local c.committed := by
  intro id inst hinst
  obtain ⟨block, hsel, -, hkeys⟩ := h.body
  obtain ⟨block', hsel', hbody⟩ := hs.body
  cases hsel.symm.trans hsel'
  obtain ⟨hmem, rfl⟩ := Module.mem_of_global? hinst
  cases hget : frame.values.get? inst.resultId with
  | none => rfl
  | some v =>
    obtain ⟨other, hother, heq⟩ := hkeys _ v hget
    have hother : other ∈ c.formals ++ c.body :=
      ((List.prefix_append_right_inj _).2 hbody).subset hother
    have hzero := (List.pairwise_append.1 c.apart).2.2 inst hmem other hother heq.symm
    exact absurd (heq.trans hzero) (c.ne_zero other hother)

end Compilation

namespace Emit

variable {c : Compilation}

/-- Whether a step of compiling, where it succeeds, leads on from a frame to one in which its result
has a property. -/
def Correct {α : Type} (c : Compilation) (x : Emit α) (frame : Frame) (Q : Frame → α → Prop) :
    Prop :=
  ∀ s t a, x.run s = .ok a t → c.Reached s frame → c.Within t →
    ∃ frame', frame.Le frame' ∧ c.Reached t frame' ∧ Q frame' a

theorem correct_pure {α : Type} {frame : Frame} {Q : Frame → α → Prop} {a : α} (h : Q frame a) :
    Correct c (pure a) frame Q := by
  intro s t b hrun hs _
  cases hrun
  exact ⟨frame, .refl frame, hs, h⟩

theorem correct_throw {α : Type} {frame : Frame} {Q : Frame → α → Prop} (e : EmitError) :
    Correct c (throw e) frame Q := by
  intro s t b hrun
  cases hrun

theorem Correct.bind {α β : Type} {x : Emit α} {f : α → Emit β} {frame : Frame}
    {Q : Frame → α → Prop} {R : Frame → β → Prop} (hx : Correct c x frame Q)
    (hgrowing : ∀ a, (f a).Growing)
    (hf : ∀ a frame', frame.Le frame' → Q frame' a → Correct c (f a) frame' R) :
    Correct c (x >>= f) frame R := by
  intro s t b hrun hs ht
  rw [EStateM.run_bind] at hrun
  cases hx' : x.run s with
  | error e u => simp [hx'] at hrun
  | ok a u =>
    simp only [hx'] at hrun
    obtain ⟨frame₁, hle₁, hu, hQ⟩ := hx s u a hx' hs (ht.of_grows ((hgrowing a).grows hrun))
    obtain ⟨frame₂, hle₂, ht', hR⟩ := hf a frame₁ hle₁ hQ u t b hrun hu ht
    exact ⟨frame₂, hle₁.trans hle₂, ht', hR⟩

theorem Correct.imp {α : Type} {x : Emit α} {frame : Frame} {Q R : Frame → α → Prop}
    (hx : Correct c x frame Q) (h : ∀ frame' a, Q frame' a → R frame' a) :
    Correct c x frame R := by
  intro s t a hrun hs ht
  obtain ⟨frame', hle, hreached, hQ⟩ := hx s t a hrun hs ht
  exact ⟨frame', hle, hreached, h frame' a hQ⟩

/-- A property of the results one by one, which does not depend on the frame. -/
theorem Correct.mapM {α β : Type} {f : α → Emit β} {P : α → β → Prop}
    (hgrowing : ∀ a, (f a).Growing) (hf : ∀ a frame, Correct c (f a) frame fun _ b => P a b) :
    (as : List α) → (frame : Frame) → Correct c (as.mapM f) frame fun _ bs => List.Forall₂ P as bs
  | [], _ => correct_pure .nil
  | a :: as, frame => by
    rw [List.mapM_cons]
    refine (hf a frame).bind (fun _ => (Growing.mapM hgrowing as).bind fun _ => growing_pure _) ?_
    intro b frame₁ _ hb
    refine (Correct.mapM hgrowing hf as frame₁).bind (fun _ => growing_pure _) ?_
    intro bs frame₂ _ hbs
    exact correct_pure (.cons hb hbs)

end Emit

/-! ### Steps that leave the block alone -/

/-- The declaration that an id stands for. -/
def Module.Declared (m : Module) (op : Opcode) (type : ResultId) (operands : List Word)
    (id : ResultId) : Prop :=
  ∃ inst ∈ m.globals, inst.resultId = id ∧ inst.opcode = op ∧ inst.resultType = type ∧
    inst.operands = operands

/-- Whether an import is the standard set. -/
def Module.Imported (m : Module) (id : ResultId) : Prop :=
  ∃ inst, m.definition? id = some inst ∧ inst.opcode = .extInstImport ∧
    (Literal.decode inst.operands).1 = standardSet

theorem Declare.global_declared (op : Opcode) (type : ResultId) (operands : List Word)
    (m : Module) : ((global op type operands).run m).2.Declared op type operands
      ((global op type operands).run m).1 := by
  rw [run_global]
  cases hfind : m.globals.find? (declares op type operands) with
  | some inst =>
    refine ⟨inst, List.mem_of_find?_eq_some hfind, rfl, ?_⟩
    simpa [declares, and_assoc] using List.find?_some hfind
  | none => exact ⟨_, List.mem_append_right _ (List.mem_singleton_self _), rfl, rfl, rfl, rfl⟩

theorem Module.Declared.mono {m m' : Module} {op : Opcode} {type : ResultId} {operands : List Word}
    {id : ResultId} (h : m.Declared op type operands id) (hpre : m.globals <+: m'.globals) :
    m'.Declared op type operands id := by
  obtain ⟨inst, hmem, hinst⟩ := h
  exact ⟨inst, hpre.subset hmem, hinst⟩

namespace Compilation

variable {c : Compilation} {s t : Serializer} {frame : Frame}

theorem Reached.of_grows (hs : c.Reached s frame) (h : s.Grows t)
    (hsel : t.builder.selected? = s.builder.selected?) : c.Reached t frame where
  interface := h.interface.trans hs.interface
  setName := h.setName.trans hs.setName
  setImported := h.setImported hs.setImported
  started := hs.started
  body := hsel ▸ hs.body

end Compilation

namespace Emit

variable {c : Compilation} {frame : Frame}

/-- A step that looks at the serializer knows its interface. -/
theorem correct_get_bind {α : Type} {f : Serializer → Emit α} {Q : Frame → α → Prop}
    (hf : ∀ s, s.interface = some c.interface → Correct c (f s) frame Q) :
    Correct c (get >>= f) frame Q :=
  fun s t a hrun hs ht => hf s hs.interface s t a hrun hs ht

theorem correct_tell (r : Record) : Correct c (tell r) frame fun frame' _ => frame' = frame := by
  intro s t a hrun hs _
  have hgrows := (growing_tell r).grows hrun
  cases hrun
  exact ⟨frame, .refl frame, hs.of_grows hgrows rfl, rfl⟩

theorem correct_valueType (type : HostType) :
    Correct c (valueType type) frame fun _ t => type.valueType = .ok t := by
  unfold valueType
  split
  · exact correct_pure ‹_›
  · exact correct_throw _

theorem run_declare {α : Type} (x : Declare α) (s : Serializer) :
    (declare x).run s = .ok (x.run s.builder.target).1
      { s with builder := s.builder.withTarget (x.run s.builder.target).2 } :=
  rfl

theorem correct_declareGlobal (op : Opcode) (type : ResultId) (operands : List Word)
    (hop : op.placement = .within .globals) (hlayout : op.layout ≠ .none)
    (hcall : op ≠ .functionCall := by decide) :
    Correct c (declare (Declare.global op type operands)) frame
      fun _ id => c.committed.Declared op type operands id := by
  intro s t id hrun hs ht
  have hgrows :=
    (growing_declare (Declare.growing_global op type operands hop hlayout hcall)).grows hrun
  have hdeclared := Declare.global_declared op type operands s.builder.target
  have hfunctions : ((Declare.global op type operands).run s.builder.target).2.functions =
      s.builder.target.functions := by
    rw [Declare.run_global]
    split <;> rfl
  rw [run_declare] at hrun
  injection hrun with hid ht'
  subst hid ht'
  refine ⟨frame, .refl frame, hs.of_grows hgrows ?_, hdeclared.mono ht.globals⟩
  simp only [Builder.selected?, Builder.withTarget, Module.block?, hfunctions]

end Emit

/-! ### Types and constants -/

namespace Module

/-- The id of the type of floats. -/
def FloatType (m : Module) (id : ResultId) : Prop :=
  m.Declared .typeFloat 0 [32] id

/-- The id of a type of vectors of floats. -/
def VectorType (m : Module) (count : Word) (id : ResultId) : Prop :=
  ∃ component, m.FloatType component ∧ m.Declared .typeVector 0 [component, count] id

variable {m : Module}

/-- A declaration is found by its id. -/
theorem IdsDistinct.global?_declared (hm : m.IdsDistinct) {op : Opcode} {type : ResultId}
    {operands : List Word} {id : ResultId} (h : m.Declared op type operands id)
    (hlayout : op.layout ≠ .none) :
    m.global? id = some { opcode := op, resultType := type, resultId := id, operands } := by
  obtain ⟨⟨_, _, _, _⟩, hmem, rfl, rfl, rfl, rfl⟩ := h
  exact hm.global?_eq hmem (hm.ne_zero _ (m.sublist_globals.subset hmem) hlayout)

theorem IdsDistinct.floatConstant (hm : m.IdsDistinct) {type id : ResultId} {bits : UInt32}
    (htype : m.FloatType type) (h : m.Declared .constant type [bits] id) :
    m.FloatConstant id (.ofBits bits) := by
  refine ⟨_, hm.global?_declared h (by decide), rfl, ?_⟩
  let inst : Instruction :=
    { opcode := .constant, resultType := type, resultId := id, operands := [bits] }
  have hof : ValueType.ofConstant m inst = .ok (.literalFloat32 bits) := by
    have hglobal : m.global? inst.resultType = _ := hm.global?_declared htype (by decide)
    rw [ValueType.ofConstant, hglobal]
    rfl
  have hliteral : m.typeOf inst = .ok (.literalFloat32 bits) := by
    change (ValueType.ofConstant m inst).mapError _ = _
    rw [hof]
    rfl
  rw [constantValue, hliteral]

theorem IdsDistinct.vectorConstant (hm : m.IdsDistinct) {count : Word} {type id : ResultId}
    {parts : List ResultId} {xs : List Float32} (htype : m.VectorType count type)
    (h : m.Declared .constantComposite type parts id)
    (hparts : List.Forall₂ m.FloatConstant parts xs) (hsize : xs.length ≤ 4) :
    m.Constant id xs := by
  obtain ⟨component, -, htype⟩ := htype
  exact .vector (hm.global?_declared h (by decide)) rfl (hm.global?_declared htype (by decide)) rfl
    hparts hsize

end Module

namespace Emit

variable {c : Compilation} {frame : Frame}

theorem typeId_f32 : typeId .f32 = declare (Declare.global .typeFloat 0 [32]) :=
  rfl

theorem typeId_vector (count : Word) : typeId (.vector .f32 count) = (do
    let component ← declare (Declare.global .typeFloat 0 [32])
    declare (Declare.global .typeVector 0 [component, count])) :=
  rfl

theorem correct_floatType :
    Correct c (typeId .f32) frame fun _ id => c.committed.FloatType id := by
  rw [typeId_f32]
  exact correct_declareGlobal _ _ _ rfl (by decide)

theorem correct_vectorType (count : Word) :
    Correct c (typeId (.vector .f32 count)) frame
      fun _ id => c.committed.VectorType count id := by
  rw [typeId_vector]
  refine (correct_declareGlobal _ _ _ rfl (by decide)).bind
    (fun _ => growing_declare (Declare.growing_global _ _ _ rfl (by decide))) ?_
  intro component frame' _ hcomponent
  exact (correct_declareGlobal _ _ _ rfl (by decide)).imp fun _ id hid =>
    ⟨component, hcomponent, hid⟩

end Emit

open Emit

namespace Scalar

variable {c : Compilation} {frame : Frame}

theorem correct_emit (bits : UInt32) :
    Correct c (float32.emit bits) frame
      fun _ id => c.committed.FloatConstant id (.ofBits bits) := by
  refine correct_floatType.bind (fun _ => growing_declare (float32.growing_constant _ bits)) ?_
  intro type frame' _ htype
  exact (correct_declareGlobal _ _ _ rfl (by decide)).imp fun _ id hid =>
    c.idsDistinct.floatConstant htype hid

theorem correct_emitVector (vs : List UInt32) (hsize : vs.length ≤ 4) :
    Correct c (float32.emitVector vs) frame
      fun _ id => c.committed.Constant id (vs.map .ofBits) := by
  refine (correct_vectorType _).bind (fun _ => (Growing.mapM float32.growing_emit vs).bind fun _ =>
    growing_declare (Declare.growing_constantComposite _ _)) ?_
  intro type frame₁ _ htype
  refine (Correct.mapM float32.growing_emit (fun bits _ => correct_emit bits) vs frame₁).bind
    (fun _ => growing_declare (Declare.growing_constantComposite _ _)) ?_
  intro parts frame₂ _ hparts
  refine (correct_declareGlobal _ _ _ rfl (by decide)).imp fun _ id hid => ?_
  exact c.idsDistinct.vectorConstant htype hid
    (List.forall₂_map_right_iff.2 (List.Forall₂.flip hparts)) (by rwa [List.length_map])

end Scalar

/-- A constant stands for its components. -/
theorem HostType.Floats.correct_emit {c : Compilation} {frame : Frame} {t : HostType} {n : Nat}
    (ht : t.Floats n) (v : t.Value) :
    Correct c (t.emit v) frame fun _ id => c.committed.Constant id (t.components v) := by
  cases ht with
  | f32 => exact (Scalar.correct_emit v).imp fun _ _ hid => .float hid
  | vec2 => exact Scalar.correct_emitVector v.toList (by simp)
  | vec3 => exact Scalar.correct_emitVector v.toList (by simp)
  | quad =>
    exact (correct_valueType _).bind (fun _ => Scalar.growing_emitVector _ _) fun _ _ _ _ =>
      Scalar.correct_emitVector v.toList (by simp)

/-! ### Instructions -/

theorem Builder.selected?_appendTo {b : Builder} {block : Block} (hsel : b.selected? = some block)
    (inst : Instruction) (hlayout : inst.opcode.layout = .typed)
    (hcall : inst.opcode ≠ .functionCall) :
    (b.withTarget (b.target.takeId.appendTo b.selection inst)).selected? =
      some { block with body := block.body ++ [inst] } := by
  let a : Additions :=
    { body := [inst], typed := (by simpa using hlayout), noCalls := (by simpa using hcall) }
  refine (selected?_grow b 1 a).trans ?_
  rw [hsel]
  rfl

/-- The id of a new instruction is not in the frame. -/
theorem Compilation.get?_eq_none {c : Compilation} {frame : Frame} {body : List Instruction}
    {inst : Instruction} (hpre : body ++ [inst] <+: c.body)
    (hkeys : ∀ id v, frame.values.get? id = some v →
      ∃ inst ∈ c.formals ++ body, inst.resultId = id) :
    frame.values.get? inst.resultId = none := by
  obtain ⟨rest, hrest⟩ := hpre
  have happend : c.formals ++ c.body = (c.formals ++ body) ++ (inst :: rest) := by
    simp [← hrest]
  have hapart := (List.pairwise_append.1 c.apart).2.1
  rw [happend, List.pairwise_append] at hapart
  cases hget : frame.values.get? inst.resultId with
  | none => rfl
  | some v =>
    obtain ⟨other, hother, heq⟩ := hkeys _ v hget
    have hzero := hapart.2.2 other hother inst (List.mem_cons_self ..) heq
    exact absurd hzero (c.ne_zero other (happend ▸ List.mem_append_left _ hother))

namespace Emit

variable {c : Compilation} {frame : Frame}

/-- An instruction that computes a value puts it under a new id. -/
theorem correct_emit {op : Opcode} {type : ResultId} {operands : List Word} {v : Value}
    (hop : op.Computes) (hlayout : op.layout = .typed) (hbody : op.IsBody)
    (hresult : frame.Local c.committed →
      ∀ inst : Instruction, inst.opcode = op → inst.operands = operands →
        Eval.Yields c.committed (c.committed.result c.host c.callee frame inst) v) :
    Correct c (build (Build.emit op type operands)) frame
      fun frame' id => frame'.values.get? id = some v := by
  intro s t id hrun hs ht
  have hcall : op ≠ .functionCall := by
    rintro rfl
    simp [Opcode.Computes] at hop
  have hgrows := (growing_emit op type operands hlayout hbody hcall).grows hrun
  have hlocal := hs.local (ht.of_grows hgrows)
  obtain ⟨block, hsel, hleads, hkeys⟩ := hs.body
  let inst : Instruction :=
    { opcode := op, resultType := type, resultId := s.builder.target.header.bound, operands }
  rw [run_build, Build.run_emit hsel] at hrun
  injection hrun with hid ht'
  subst hid ht'
  obtain ⟨block', hsel', hpre⟩ := ht.body
  cases (Builder.selected?_appendTo hsel inst hlayout hcall).symm.trans hsel'
  -- the committed body begins with what there is now, so the new id is known to be apart
  have hmem : inst ∈ c.body := hpre.subset (by simp)
  have hne : inst.resultId ≠ 0 := c.ne_zero inst (List.mem_append_right _ hmem)
  have hshort : block.body.length < maxSteps := by
    have hlength := hpre.length_le
    have hbody := c.short
    simp only [List.length_append, List.length_singleton] at hlength
    omega
  have hnew := Compilation.get?_eq_none hpre hkeys
  have hle : frame.Le { frame with values := frame.values.insert inst.resultId v } := by
    intro id w hget
    rw [IdMap.get?_insert, if_neg]
    · exact hget
    · rintro rfl
      rw [hnew] at hget
      cases hget
  refine ⟨_, hle, ?_, ?_⟩
  · exact {
      interface := hs.interface
      setName := hs.setName
      setImported := hgrows.setImported hs.setImported
      started := hs.started.trans hle
      body := by
        refine ⟨_, hsel', hleads.snoc hop hne (hresult hlocal inst rfl rfl) hshort, ?_⟩
        intro id w hget
        rw [IdMap.get?_insert] at hget
        split at hget
        · exact ⟨inst, by simp, ‹_›⟩
        · obtain ⟨other, hother, heq⟩ := hkeys id w hget
          refine ⟨other, ?_, heq⟩
          rw [← List.append_assoc]
          exact List.mem_append_left _ hother }
  · exact (IdMap.get?_insert ..).trans (if_pos rfl)

end Emit

/-! ### The standard set -/

theorem decode_encode_standardSet :
    (Literal.decode (Literal.encode standardSet)).1 = standardSet := by
  decide

/-- What the committed module has under the name of the standard set is the standard set. -/
theorem Compilation.imported {c : Compilation} {m : Module} {id : ResultId}
    (h : m.HasImport standardSet id) (hpre : m.imports <+: c.committed.imports) :
    c.committed.Imported id := by
  obtain ⟨inst, hmem, rfl, hinst⟩ := h
  have hmem := hpre.subset hmem
  have hname : (Literal.decode inst.operands).1 = standardSet := by
    rcases hinst with hname | ⟨-, hops⟩
    · exact hname
    · rw [hops, decode_encode_standardSet]
  have hop := c.imports inst hmem hname
  have hmem : inst ∈ c.committed.instructions := by
    simp [Module.instructions, Module.declarations, hmem]
  have hid : inst.resultId ≠ 0 := c.idsDistinct.ne_zero inst hmem (by rw [hop]; decide)
  exact ⟨inst, c.idsDistinct.definition?_eq hmem hid, hop, hname⟩

namespace Emit

variable {c : Compilation} {frame : Frame}

theorem correct_instructionSet :
    Correct c instructionSet frame fun _ id => c.committed.Imported id := by
  intro s t id hrun hs ht
  have hgrows := growing_instructionSet.grows hrun
  rw [run_instructionSet] at hrun
  by_cases hset : s.setId = 0
  · rw [if_pos hset, hs.setName] at hrun
    have himport := Declare.extInstImport_hasImport standardSet s.builder.target
    have hfunctions : ((Declare.extInstImport standardSet).run s.builder.target).2.functions =
        s.builder.target.functions := by
      rw [Declare.run_extInstImport]
      split <;> rfl
    injection hrun with hid ht'
    subst hid ht'
    refine ⟨frame, .refl frame, hs.of_grows hgrows ?_, Compilation.imported himport ht.imports⟩
    simp only [Builder.selected?, Builder.withTarget, Module.block?, hfunctions]
  · rw [if_neg hset] at hrun
    cases hrun
    refine ⟨frame, .refl frame, hs, ?_⟩
    rcases hs.setImported with hzero | himport
    · exact absurd hzero hset
    · exact Compilation.imported (hs.setName ▸ himport) ht.imports

/-- A function of the standard set gives its value on what its operands hold. -/
theorem correct_extended {type : ResultId} {n : Word} {id : ResultId} {ids : List ResultId}
    {xss : List (List Float32)} {v : Value}
    (hargs : List.Forall₂ (frame.Holds c.committed) (id :: ids) xss)
    (hvalue : standardValue c.host n (xss.map .floatVector) = .ok v) :
    Correct c (extended type n (id :: ids)) frame
      fun frame' result => frame'.values.get? result = some v := by
  refine correct_instructionSet.bind
    (fun set => growing_emit .extInst type (set :: n :: id :: ids) (by decide) (by decide)) ?_
  intro set frame' hle hset
  obtain ⟨imported, himported, hop, hname⟩ := hset
  have hargs := hargs.imp fun _ _ h => Frame.Holds.mono hle h
  refine correct_emit (by simp [Opcode.Computes]) (by decide) (by decide) ?_
  intro hlocal inst hinst hops
  obtain ⟨op, _, _, ops⟩ := inst
  cases hinst
  cases hops
  exact Module.yields_extended hlocal himported hop hname hargs hvalue

/-- A component of a composite. -/
theorem correct_compositeExtract {type composite : ResultId} {indices : List Word} {v w : Value}
    (hv : frame.Local c.committed →
      Eval.Yields c.committed (c.committed.value c.host frame composite) v)
    (hw : v.extract c.host indices = .ok w) :
    Correct c (build (Build.compositeExtract type composite indices)) frame
      fun frame' result => frame'.values.get? result = some w := by
  refine correct_emit (by simp [Opcode.Computes]) (by decide) (by decide) ?_
  intro hlocal inst hinst hops
  exact Module.yields_compositeExtract hinst hops (hv hlocal) hw

end Emit

end ShaderGraft
