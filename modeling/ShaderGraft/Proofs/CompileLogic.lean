import ShaderGraft.Proofs.Layout
import ShaderGraft.Tree.Serialize

/-!
# Properties of compiled trees from properties of their nodes

Compiling a tree is compiling its nodes one after the other. `Emit.Logic` lists what a judgement on
steps of compiling has to be closed under for this to go through, and then the judgement holds of
every tree and chain (`Tree.step_serialize`). A judgement is about what is given before a step and
what is given after it; the ids that a tree refers to and the functions that it applies to its input
come from outside, and a logic says what it asks of them.

A property that does not look at what is given only has to hold of the steps that there are
(`Emit.Compositional`).
-/

namespace ShaderGraft

mutual

/-- Every id that a tree refers to is as `ref` says, and every map of its inputs as `map` says. -/
def Tree.Respects (ref : ResultId → HostType → Prop)
    (map : (i j : Input) → (i.Value → j.Value) → Prop) {i : Input} {t : HostType} :
    Tree i t → Prop
  | .constant _ | .parameter _ _ | .input | .access _ | .missing => True
  | .ref id => ref id t
  | .arithmetic _ a b => a.Respects ref map ∧ b.Respects ref map
  | .extremum _ a b => a.Respects ref map ∧ b.Respects ref map
  | .square of => of.Respects ref map
  | .elementary _ of => of.Respects ref map
  | .normalize of => of.Respects ref map
  | .cross a b => a.Respects ref map ∧ b.Respects ref map
  | .length of => of.Respects ref map
  | .select _ of => of.Respects ref map
  | .link first second => first.Respects ref map ∧ second.Respects ref map
  | .mapInput (j := j) f inner => map i j f ∧ inner.Respects ref map
  | .chain steps => steps.Respects ref map
  | .detached steps => steps.Respects ref map
  | .withInput steps => steps.Respects ref map
  | .inspect _ of => of.Respects ref map

def Chain.Respects (ref : ResultId → HostType → Prop)
    (map : (i j : Input) → (i.Value → j.Value) → Prop) {t : HostType} : Chain t → Prop
  | .empty => True
  | .step before _ op => before.Respects ref map ∧ op.Respects ref map

end

/-! ### Logics of compiling -/

/-- An input of some kind. -/
abbrev Given := (i : Input) × i.Value

namespace Emit

theorem throw_bind {α β : Type} (e : EmitError) (f : α → Emit β) :
    (throw e >>= f : Emit β) = throw e :=
  rfl

/-- A type id of floats is that of the type, if it is one of floats. -/
theorem floatTypeId_eq (node : String) (t : HostType) :
    (∃ type, t.valueType = .ok type ∧ type.isFloat = true ∧ floatTypeId node t = typeId type) ∨
      ∃ e, (∀ cause, e ≠ .build cause) ∧ floatTypeId node t = throw e := by
  unfold floatTypeId valueType
  cases ht : t.valueType with
  | error e => exact .inr ⟨_, by simp, rfl⟩
  | ok type =>
    by_cases hfloat : type.isFloat = true
    · exact .inl ⟨type, rfl, hfloat, by simp only [pure_bind, if_pos hfloat]⟩
    · exact .inr ⟨.operandsNotFloat node type, by simp, by simp only [pure_bind, if_neg hfloat]⟩

/-- The components are counted without compiling anything. -/
theorem floatVector_eq (node : String) (t : HostType) :
    (∃ count, t.valueType = .ok (.vector .f32 count) ∧ floatVector node t = pure count) ∨
      ∃ e, (∀ cause, e ≠ .build cause) ∧ floatVector node t = throw e := by
  unfold floatVector valueType
  cases ht : t.valueType with
  | error e => exact .inr ⟨_, by simp, rfl⟩
  | ok type =>
    simp only [pure_bind]
    split
    · exact .inl ⟨_, rfl, rfl⟩
    · exact .inr ⟨.notFloatVector node _, by simp, rfl⟩

/-- A judgement on steps of compiling that holds of a tree if it holds of the nodes. -/
structure Logic where
  /-- What is asked of the ids that a tree refers to. -/
  Ref : ResultId → HostType → Prop
  /-- What is asked of the maps of inputs. -/
  Map : (i j : Input) → (i.Value → j.Value) → Prop
  /-- Whether an input can be used, given others. -/
  Entails : List Given → Given → Prop
  /-- Whether a step can be made, with what is given after it. -/
  Step : {α : Type} → List Given → Emit α → (α → List Given) → Prop
  mem {known : List Given} {g : Given} : g ∈ known → Entails known g
  weaken {known : List Given} {g : Given} (new : List Given) :
    Entails known g → Entails (new ++ known) g
  ref {known : List Given} {id : ResultId} {t : HostType} :
    Ref id t → Entails known ⟨.data t, id⟩
  map {known : List Given} {i j : Input} {f : i.Value → j.Value} {x : i.Value} :
    Map i j f → Entails known ⟨i, x⟩ → Entails known ⟨j, f x⟩
  empty {known : List Given} : Entails known ⟨.context, .empty⟩
  insert {known : List Given} {c : Context} {t : HostType} {id : ResultId} (name : Bytes) :
    Entails known ⟨.context, c⟩ → Entails known ⟨.data t, id⟩ →
      Entails known ⟨.context, c.bind name { id, type := t }⟩
  lookup {known : List Given} {c : Context} {name : Bytes} {b : Binding} :
    c.find? name = some b → Entails known ⟨.context, c⟩ → Entails known ⟨.data b.type, b.id⟩
  pure {α : Type} {known : List Given} {a : α} {out : α → List Given} :
    (∀ g ∈ out a, Entails known g) → Step known (pure a) out
  throw {α : Type} {known : List Given} {out : α → List Given} {e : EmitError} :
    (∀ cause, e ≠ .build cause) → Step known (throw e) out
  bind {α β : Type} {known : List Given} {x : Emit α} {f : α → Emit β} {mid : α → List Given}
    {out : β → List Given} :
    Step known x mid → (∀ a, Step (mid a ++ known) (f a) out) → Step known (x >>= f) out
  tell {known : List Given} (r : Record) : Step known (tell r) fun _ => []
  constant {known : List Given} (t : HostType) (v : t.Value) :
    Step known (t.emit v) fun id => [⟨.data t, id⟩]
  parameter {known : List Given} (name : Bytes) (t : HostType) (default : t.Value) :
    Step known (parameter name t default) fun id => [⟨.data t, id⟩]
  arithmetic {known : List Given} (op : Arithmetic) {t : HostType} {type : ValueType}
    {a b : ResultId} :
    t.valueType = .ok type → type.isFloat = true → Entails known ⟨.data t, a⟩ →
      Entails known ⟨.data t, b⟩ →
      Step known (do
        let type ← typeId type
        build (Build.binary op.opcode type a b)) fun id => [⟨.data t, id⟩]
  extremum {known : List Given} (op : Extremum) {t : HostType} {type : ValueType}
    {a b : ResultId} :
    t.valueType = .ok type → type.isFloat = true → Entails known ⟨.data t, a⟩ →
      Entails known ⟨.data t, b⟩ →
      Step known (do
        let type ← typeId type
        extended type op.number [a, b]) fun id => [⟨.data t, id⟩]
  elementary {known : List Given} (fn : Elementary) {t : HostType} {type : ValueType}
    {v : ResultId} :
    t.valueType = .ok type → type.isFloat = true → Entails known ⟨.data t, v⟩ →
      Step known (do
        let type ← typeId type
        extended type fn.number [v]) fun id => [⟨.data t, id⟩]
  normalize {known : List Given} {t : HostType} {count : Word} {v : ResultId} :
    t.valueType = .ok (.vector .f32 count) → Entails known ⟨.data t, v⟩ →
      Step known (do
        let type ← typeId (.vector .f32 count)
        extended type normalizeNumber [v]) fun id => [⟨.data t, id⟩]
  cross {known : List Given} {a b : ResultId} :
    Entails known ⟨.data .vec3, a⟩ → Entails known ⟨.data .vec3, b⟩ →
      Step known (do
        let type ← typeId (.vector .f32 3)
        extended type crossNumber [a, b]) fun id => [⟨.data .vec3, id⟩]
  length {known : List Given} {t : HostType} {count : Word} {v : ResultId} :
    t.valueType = .ok (.vector .f32 count) → Entails known ⟨.data t, v⟩ →
      Step known (do
        let type ← typeId .f32
        extended type lengthNumber [v]) fun id => [⟨.data .f32, id⟩]
  select {known : List Given} {t : HostType} {count index : Word} {v : ResultId} :
    t.valueType = .ok (.vector .f32 count) → index < count → Entails known ⟨.data t, v⟩ →
      Step known (do
        let type ← typeId .f32
        build (Build.compositeExtract type v [index])) fun id => [⟨.data .f32, id⟩]

namespace Logic

variable (l : Logic) {known : List Given}

theorem head (g : Given) : l.Entails (g :: known) g :=
  l.mem List.mem_cons_self

theorem pure_data {t : HostType} {id : ResultId} (h : l.Entails known ⟨.data t, id⟩) :
    l.Step known (Pure.pure id) fun id => [⟨.data t, id⟩] :=
  l.pure (List.forall_mem_singleton.2 h)

theorem access {c : Context} (name : Bytes) (t : HostType)
    (h : l.Entails known ⟨.context, c⟩) :
    l.Step known (access c name t) fun id => [⟨.data t, id⟩] := by
  unfold Emit.access Context.get?
  cases hfind : c.find? name with
  | none => exact l.throw (by simp)
  | some b =>
    by_cases htype : b.type = t
    · subst htype
      simp only [if_true]
      exact l.pure_data (l.lookup hfind h)
    · simp only [if_neg htype]
      exact l.throw (by simp)

/-- After a step its result is given, also in the context. -/
theorem step {c : Context} (name : Bytes) (t : HostType) {x : Emit ResultId}
    (hc : l.Entails known ⟨.context, c⟩) (hx : l.Step known x fun id => [⟨.data t, id⟩]) :
    l.Step known (step c name t x) fun r => [⟨.data t, r.1⟩, ⟨.context, r.2⟩] := by
  have hresult (id : ResultId) {known' : List Given} (hc : l.Entails known' ⟨.context, c⟩)
      (hid : l.Entails known' ⟨.data t, id⟩) :
      l.Step known' (Pure.pure (id, c.bind name { id, type := t })) fun r =>
        [⟨.data t, r.1⟩, ⟨.context, r.2⟩] :=
    l.pure (List.forall_mem_cons.2 ⟨hid, List.forall_mem_singleton.2 (l.insert name hc hid)⟩)
  refine l.bind hx fun id => ?_
  have hc := l.weaken [⟨.data t, id⟩] hc
  split
  · exact l.bind (l.tell _) fun _ => hresult id hc (l.head _)
  · exact hresult id hc (l.head _)

/-- A step that starts with the type id of floats. -/
theorem floatTypeId {α : Type} {node : String} {t : HostType} {f : ResultId → Emit α}
    {out : α → List Given}
    (h : ∀ type, t.valueType = .ok type → type.isFloat = true →
      l.Step known (typeId type >>= f) out) : l.Step known (floatTypeId node t >>= f) out := by
  obtain ⟨type, ht, hfloat, heq⟩ | ⟨e, he, heq⟩ := floatTypeId_eq node t
  · rw [heq]
    exact h type ht hfloat
  · rw [heq, throw_bind]
    exact l.throw he

/-- A step that starts by counting components. -/
theorem floatVector {α : Type} {node : String} {t : HostType} {f : Word → Emit α}
    {out : α → List Given}
    (h : ∀ count, t.valueType = .ok (.vector .f32 count) → l.Step known (f count) out) :
    l.Step known (floatVector node t >>= f) out := by
  obtain ⟨count, ht, heq⟩ | ⟨e, he, heq⟩ := floatVector_eq node t
  · rw [heq, pure_bind]
    exact h count ht
  · rw [heq, throw_bind]
    exact l.throw he

end Logic

end Emit

/-! ### Trees -/

section

variable (l : Emit.Logic)

mutual

/-- A judgement holds of a tree whose ids and maps are as the logic asks, on any input that can be
used. -/
theorem Tree.step_serialize {i : Input} {t : HostType} :
    (tree : Tree i t) → tree.Respects l.Ref l.Map → {known : List Given} → {x : i.Value} →
      l.Entails known ⟨i, x⟩ → l.Step known (tree.serialize x) fun id => [⟨.data t, id⟩]
  | .constant v, _, _, _, _ => by
    rw [Tree.serialize]
    exact l.constant t v
  | .parameter name v, _, _, _, _ => by
    rw [Tree.serialize]
    exact l.parameter name t v
  | .ref id, h, _, _, _ => by
    rw [Tree.Respects] at h
    rw [Tree.serialize]
    exact l.pure_data (l.ref h)
  | .input, _, _, _, hx => by
    rw [Tree.serialize]
    exact l.pure_data hx
  | .arithmetic op a b, h, _, _, hx => by
    rw [Tree.Respects] at h
    rw [Tree.serialize]
    refine l.bind (a.step_serialize h.1 hx) fun ida => ?_
    refine l.bind (b.step_serialize h.2 (l.weaken _ hx)) fun idb => ?_
    refine l.floatTypeId fun type ht hfloat => ?_
    exact l.arithmetic op ht hfloat (l.weaken _ (l.head _)) (l.head _)
  | .extremum op a b, h, _, _, hx => by
    rw [Tree.Respects] at h
    rw [Tree.serialize]
    refine l.bind (a.step_serialize h.1 hx) fun ida => ?_
    refine l.bind (b.step_serialize h.2 (l.weaken _ hx)) fun idb => ?_
    refine l.floatTypeId fun type ht hfloat => ?_
    exact l.extremum op ht hfloat (l.weaken _ (l.head _)) (l.head _)
  | .square of, h, _, _, hx => by
    rw [Tree.Respects] at h
    rw [Tree.serialize]
    refine l.bind (of.step_serialize h hx) fun v => ?_
    refine l.floatTypeId fun type ht hfloat => ?_
    exact l.arithmetic .mul ht hfloat (l.head _) (l.head _)
  | .elementary fn of, h, _, _, hx => by
    rw [Tree.Respects] at h
    rw [Tree.serialize]
    refine l.bind (of.step_serialize h hx) fun v => ?_
    refine l.floatTypeId fun type ht hfloat => ?_
    exact l.elementary fn ht hfloat (l.head _)
  | .normalize of, h, _, _, hx => by
    rw [Tree.Respects] at h
    rw [Tree.serialize]
    refine l.floatVector fun count ht => ?_
    refine l.bind (of.step_serialize h hx) fun v => ?_
    exact l.normalize ht (l.head _)
  | .cross a b, h, _, _, hx => by
    rw [Tree.Respects] at h
    rw [Tree.serialize]
    refine l.bind (a.step_serialize h.1 hx) fun ida => ?_
    refine l.bind (b.step_serialize h.2 (l.weaken _ hx)) fun idb => ?_
    exact l.cross (l.weaken _ (l.head _)) (l.head _)
  | .length of, h, _, _, hx => by
    rw [Tree.Respects] at h
    rw [Tree.serialize]
    refine l.floatVector fun count ht => ?_
    refine l.bind (of.step_serialize h hx) fun v => ?_
    exact l.length ht (l.head _)
  | .select index of, h, _, _, hx => by
    rw [Tree.Respects] at h
    rw [Tree.serialize]
    refine l.floatVector fun count ht => ?_
    split
    · rw [Emit.throw_bind]
      exact l.throw (by simp)
    · refine l.bind (of.step_serialize h hx) fun v => ?_
      exact l.select ht (UInt32.not_le.1 ‹_›) (l.head _)
  | .link first second, h, _, _, hx => by
    rw [Tree.Respects] at h
    rw [Tree.serialize]
    exact l.bind (first.step_serialize h.1 hx) fun y => second.step_serialize h.2 (l.head _)
  | .mapInput f inner, h, _, _, hx => by
    rw [Tree.Respects] at h
    rw [Tree.serialize]
    exact inner.step_serialize h.2 (l.map h.1 hx)
  | .access name, _, _, _, hx => by
    rw [Tree.serialize]
    exact l.access name t hx
  | .chain steps, h, _, _, hx => by
    rw [Tree.Respects] at h
    rw [Tree.serialize]
    exact steps.step_serialize h hx
  | .detached steps, h, _, _, _ => by
    rw [Tree.Respects] at h
    rw [Tree.serialize]
    exact steps.step_serialize h l.empty
  | .withInput steps, h, _, _, hx => by
    rw [Tree.Respects] at h
    rw [Tree.serialize]
    exact steps.step_serialize h (l.insert _ l.empty hx)
  | .inspect names of, h, _, _, hx => by
    rw [Tree.Respects] at h
    rw [Tree.serialize]
    exact l.bind (l.tell _) fun _ => of.step_serialize h hx
  | .missing, _, _, _, _ => by
    rw [Tree.serialize]
    exact l.throw (by simp)

theorem Chain.step_serialize {t : HostType} :
    (steps : Chain t) → steps.Respects l.Ref l.Map → {known : List Given} → {c : Context} →
      l.Entails known ⟨.context, c⟩ →
      l.Step known (steps.serialize c) fun id => [⟨.data t, id⟩]
  | .empty, _, _, _, _ => by
    rw [Chain.serialize]
    exact l.throw (by simp)
  | .step before name op, h, _, _, hc => by
    rw [Chain.Respects] at h
    rw [Chain.serialize]
    refine l.bind (before.step_extend h.1 hc) fun c => ?_
    refine l.bind (l.step name t (l.head _) (op.step_serialize h.2 (l.head _))) fun r => ?_
    exact l.pure_data (l.head _)

theorem Chain.step_extend {t : HostType} :
    (steps : Chain t) → steps.Respects l.Ref l.Map → {known : List Given} → {c : Context} →
      l.Entails known ⟨.context, c⟩ → l.Step known (steps.extend c) fun c => [⟨.context, c⟩]
  | .empty, _, _, _, hc => by
    rw [Chain.extend]
    exact l.pure (List.forall_mem_singleton.2 hc)
  | .step before name op, h, _, _, hc => by
    rw [Chain.Respects] at h
    rw [Chain.extend]
    refine l.bind (before.step_extend h.1 hc) fun c => ?_
    refine l.bind (l.step name t (l.head _) (op.step_serialize h.2 (l.head _))) fun r => ?_
    exact l.pure (List.forall_mem_singleton.2 (l.mem (by simp)))

end

end

/-! ### Properties of single steps -/

mutual

theorem Tree.respects_true {i : Input} {t : HostType} :
    (tree : Tree i t) → tree.Respects (fun _ _ => True) fun _ _ _ => True
  | .constant _ | .parameter _ _ | .input | .access _ | .missing | .ref _ => by
    rw [Tree.Respects]
    trivial
  | .arithmetic _ a b | .extremum _ a b | .cross a b => by
    rw [Tree.Respects]
    exact ⟨a.respects_true, b.respects_true⟩
  | .square of | .elementary _ of | .normalize of | .length of | .select _ of | .inspect _ of => by
    rw [Tree.Respects]
    exact of.respects_true
  | .link first second => by
    rw [Tree.Respects]
    exact ⟨first.respects_true, second.respects_true⟩
  | .mapInput _ inner => by
    rw [Tree.Respects]
    exact ⟨trivial, inner.respects_true⟩
  | .chain steps | .detached steps | .withInput steps => by
    rw [Tree.Respects]
    exact steps.respects_true

theorem Chain.respects_true {t : HostType} :
    (steps : Chain t) → steps.Respects (fun _ _ => True) fun _ _ _ => True
  | .empty => by
    rw [Chain.Respects]
    trivial
  | .step before _ op => by
    rw [Chain.Respects]
    exact ⟨before.respects_true, op.respects_true⟩

end

theorem Arithmetic.opcode_layout (op : Arithmetic) : op.opcode.layout = .typed := by
  cases op <;> decide

theorem Arithmetic.isBody_opcode (op : Arithmetic) : op.opcode.IsBody := by
  cases op <;> decide

theorem Arithmetic.opcode_ne_functionCall (op : Arithmetic) : op.opcode ≠ .functionCall := by
  cases op <;> decide

namespace Emit

/-- What holds of the steps that trees are compiled by, and of one step after the other. -/
structure Compositional (P : {α : Type} → Emit α → Prop) : Prop where
  pure {α : Type} (a : α) : P (pure a : Emit α)
  throw {α : Type} (e : EmitError) : P (throw e : Emit α)
  bind {α β : Type} {x : Emit α} {f : α → Emit β} : P x → (∀ a, P (f a)) → P (x >>= f)
  get : P (get : Emit Serializer)
  tell (r : Record) : P (tell r)
  typeId (t : ValueType) : P (typeId t)
  constant (type : HostType) (v : type.Value) : P (type.emit v)
  instructionSet : P instructionSet
  emit {op : Opcode} (type : ResultId) (operands : List Word) :
    op.layout = .typed → op.IsBody → op ≠ .functionCall → P (build (Build.emit op type operands))

namespace Compositional

variable {P : {α : Type} → Emit α → Prop} (h : Compositional P)

include h

theorem valueType (type : HostType) : P (valueType type) := by
  unfold Emit.valueType
  split
  · exact h.pure _
  · exact h.throw _

theorem extended (type : ResultId) (n : Word) (operands : List ResultId) :
    P (extended type n operands) :=
  h.bind h.instructionSet fun _ => h.emit _ _ (by decide) (by decide) (by decide)

theorem floatTypeId (node : String) (type : HostType) : P (floatTypeId node type) := by
  refine h.bind (h.valueType type) fun t => ?_
  split
  · exact h.typeId t
  · exact h.throw _

theorem floatVector (node : String) (type : HostType) : P (floatVector node type) := by
  refine h.bind (h.valueType type) fun t => ?_
  split
  · exact h.pure _
  · exact h.throw _

theorem parameter (name : Bytes) (type : HostType) (default : type.Value) :
    P (parameter name type default) := by
  refine h.bind (h.valueType type) fun t => h.bind h.get fun s => ?_
  split
  · exact h.emit _ _ (by decide) (by decide) (by decide)
  · exact h.bind (h.tell _) fun _ => h.constant type default

theorem arithmetic (op : Arithmetic) {typeId : Emit ResultId} (htype : P typeId)
    (a b : ResultId) :
    P (do
      let type ← typeId
      build (Build.binary op.opcode type a b)) :=
  h.bind htype fun _ =>
    h.emit _ _ op.opcode_layout op.isBody_opcode op.opcode_ne_functionCall

theorem function {typeId : Emit ResultId} (htype : P typeId) (n : Word) (ids : List ResultId) :
    P (do
      let type ← typeId
      Emit.extended type n ids) :=
  h.bind htype fun _ => h.extended _ n ids

theorem select (v : ResultId) (index : Word) :
    P (do
      let type ← Emit.typeId .f32
      build (Build.compositeExtract type v [index])) :=
  h.bind (h.typeId .f32) fun _ => h.emit _ _ (by decide) (by decide) (by decide)

theorem step (context : Context) (name : Bytes) (type : HostType) {x : Emit ResultId} (hx : P x) :
    P (step context name type x) := by
  refine h.bind hx fun id => ?_
  split
  · exact h.bind (h.tell _) fun _ => h.pure _
  · exact h.pure _

end Compositional

/-- The logic that does not look at what is given. -/
def Compositional.logic {P : {α : Type} → Emit α → Prop} (h : Compositional P) : Logic where
  Ref _ _ := True
  Map _ _ _ := True
  Entails _ _ := True
  Step _ x _ := P x
  mem _ := trivial
  weaken _ _ := trivial
  ref _ := trivial
  map _ _ := trivial
  empty := trivial
  insert _ _ _ := trivial
  lookup _ _ := trivial
  pure _ := h.pure _
  throw _ := h.throw _
  bind := h.bind
  tell := h.tell
  constant := h.constant
  parameter := h.parameter
  arithmetic op := fun _ _ _ _ => h.arithmetic op (h.typeId _) _ _
  extremum _ := fun _ _ _ _ => h.function (h.typeId _) _ _
  elementary _ := fun _ _ _ => h.function (h.typeId _) _ _
  normalize _ _ := h.function (h.typeId _) _ _
  cross _ _ := h.function (h.typeId _) _ _
  length _ _ := h.function (h.typeId _) _ _
  select _ _ _ := h.select _ _

end Emit

/-- A property that holds of every step holds of compiling any tree. -/
theorem Tree.compositional_serialize {P : {α : Type} → Emit α → Prop} (h : Emit.Compositional P)
    {i : Input} {t : HostType} (tree : Tree i t) (x : i.Value) : P (tree.serialize x) := by
  have hgiven : h.logic.Entails [] ⟨i, x⟩ := trivial
  exact tree.step_serialize h.logic tree.respects_true hgiven

end ShaderGraft
