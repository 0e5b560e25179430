import ShaderGraft.Proofs.Compilation

/-!
# Running a compiled tree gives its value

The ids that are handed around while a tree is compiled stand for the values that are handed around
while it is evaluated (`Input.Carried`). Node by node, the instructions of a tree then lead to a
frame in which the id of its result holds its value (`Tree.correct_serialize`).
-/

namespace ShaderGraft

/-! ### Components -/

namespace HostType.Floats

variable {t : HostType} {n : Nat}

theorem pos (h : t.Floats n) : 0 < n := by
  cases h <;> decide

theorem unique {k : Nat} (h : t.Floats n) (h' : t.Floats k) : n = k := by
  cases h <;> cases h' <;> rfl

theorem floatCount?_eq (h : t.Floats n) {type : ValueType} (htype : t.valueType = .ok type) :
    type.floatCount? = some n := by
  cases h <;> cases htype <;> rfl

end HostType.Floats

namespace ValueType

theorem eq_of_same_float {s : ValueType} {width : Word} (h : s.same (.float width)) :
    s = .float width := by
  cases s <;> simp_all [same]

/-- Parameters are looked up by a type that is the same, so they have as many components. -/
theorem floatCount?_of_same {s t : ValueType} {n : Nat} (h : s.same t)
    (ht : t.floatCount? = some n) : s.floatCount? = some n := by
  unfold floatCount? at ht
  split at ht
  · cases ht
    rw [eq_of_same_float h]
    rfl
  · cases ht
    cases s with
    | vector elem count =>
      simp only [same, Bool.and_eq_true, beq_iff_eq] at h
      rw [h.1, eq_of_same_float h.2]
      rfl
    | _ => simp [same] at h
  · cases ht

end ValueType

section

variable (host : Host)

theorem lengthOf_eq_norm (xs : List Float32) : Value.lengthOf host xs = norm host xs := by
  rw [Value.lengthOf, norm, List.foldl_map]

theorem Extremum.standardValue_eq (op : Extremum) {xs ys : List Float32}
    (hlength : xs.length = ys.length) (hxs : xs ≠ []) :
    standardValue host op.number [.floatVector xs, .floatVector ys] =
      .ok (.floatVector (List.zipWith (op.apply host) xs ys)) := by
  cases op <;> exact Value.zipFloats_eq hlength hxs

theorem Elementary.standardValue_eq (fn : Elementary) (xs : List Float32) :
    standardValue host fn.number [.floatVector xs] =
      .ok (.floatVector (xs.map (fn.apply host))) := by
  cases fn <;> rfl

theorem normalize_standardValue_eq (xs : List Float32) :
    standardValue host normalizeNumber [.floatVector xs] =
      .ok (.floatVector (xs.map (· / norm host xs))) := by
  rw [← lengthOf_eq_norm]
  rfl

theorem length_standardValue_eq (xs : List Float32) :
    standardValue host lengthNumber [.floatVector xs] = .ok (.floatVector [norm host xs]) := by
  rw [← lengthOf_eq_norm]
  rfl

theorem Arithmetic.computes (op : Arithmetic) : op.opcode.Computes := by
  cases op <;> simp [opcode, Opcode.Computes]

theorem Arithmetic.result_eq (op : Arithmetic) (m : Module) (callee : Callee) (frame : Frame)
    {inst : Instruction} (h : inst.opcode = op.opcode) :
    m.result host callee frame inst = m.arithmetic host frame op.apply inst.operands := by
  cases op <;> simp only [Module.result, h] <;> rfl

end

/-! ### Values by id -/

/-- Whether an id stands for a value of a type of floats. -/
structure Frame.Has (frame : Frame) (m : Module) (t : HostType) (id : ResultId)
    (xs : List Float32) : Prop where
  holds : frame.Holds m id xs
  floats : t.Floats xs.length

namespace Frame.Has

variable {m : Module} {frame : Frame} {t : HostType} {id : ResultId} {xs ys : List Float32}

theorem mono {frame' : Frame} (h : frame.Le frame') (hid : frame.Has m t id xs) :
    frame'.Has m t id xs :=
  ⟨hid.holds.mono h, hid.floats⟩

theorem ne_nil (h : frame.Has m t id xs) : xs ≠ [] :=
  List.ne_nil_of_length_pos h.floats.pos

theorem length_eq {frame' : Frame} {id' : ResultId} (h : frame.Has m t id xs)
    (h' : frame'.Has m t id' ys) : xs.length = ys.length :=
  h.floats.unique h'.floats

/-- A new result of the type of an old one. -/
theorem of_get? (h : frame.values.get? id = some (.floatVector ys)) (hfloats : t.Floats xs.length)
    (hlength : ys.length = xs.length) : frame.Has m t id ys :=
  ⟨.value h, hlength ▸ hfloats⟩

end Frame.Has

/-- Taking the entries of another name out does not change what a name stands for. -/
theorem Context.lookup_filter_ne {name other : Bytes} (h : other ≠ name) :
    (entries : List (Bytes × Binding)) →
      (entries.filter (·.1 != name)).lookup other = entries.lookup other
  | [] => rfl
  | (key, b) :: rest => by
    have ih := lookup_filter_ne h rest
    by_cases hkey : key = name
    · have hbeq : (other == key) = false := by simpa [hkey] using h
      simp [hkey, List.lookup_cons, hkey ▸ hbeq, ih]
    · simp [hkey, List.lookup_cons, ih]

theorem Context.find?_bind_ne (known : Context) {name other : Bytes} (h : other ≠ name)
    (b : Binding) : (known.bind name b).find? other = known.find? other := by
  have hbeq : (other == name) = false := by simpa using h
  simp [find?, bind, List.lookup_cons, hbeq, lookup_filter_ne h]

/-- Whether the ids of an input stand for the values of its meaning. -/
def Input.Carried (m : Module) (frame : Frame) : (i : Input) → i.Value → i.Meaning → Prop
  | .none, _, _ => True
  | .data t, id, xs => frame.Has m t id xs
  | .context, known, scope => ∀ name b, known.find? name = some b →
    ∃ xs, scope.lookup name = some (b.type, xs) ∧ frame.Has m b.type b.id xs

namespace Input.Carried

variable {m : Module} {frame : Frame}

theorem mono {frame' : Frame} (h : frame.Le frame') {i : Input} {x : i.Value} {y : i.Meaning}
    (hx : Carried m frame i x y) : Carried m frame' i x y := by
  cases i with
  | none => trivial
  | data t => exact Frame.Has.mono h hx
  | context =>
    intro name b hb
    obtain ⟨xs, hxs, hhas⟩ := hx name b hb
    exact ⟨xs, hxs, hhas.mono h⟩

theorem of_empty {i : Input} {x : i.Value} {y : i.Meaning} (h : Input.Empty x y) :
    Carried m frame i x y := by
  cases h with
  | none => trivial
  | context =>
    intro name b hb
    cases hb

theorem of_maps {i j : Input} {f : i.Value → j.Value} {x : i.Value} {y : i.Meaning}
    {z : j.Meaning} (h : Input.Maps f y z) (hx : Carried m frame i x y) :
    Carried m frame j (f x) z := by
  cases h with
  | passOn hf => rwa [hf]
  | discard hempty => exact of_empty (hempty x)

theorem bind {known : Context} {scope : Scope} (h : Carried m frame .context known scope)
    (name : Bytes) {t : HostType} {id : ResultId} {xs : List Float32}
    (hid : frame.Has m t id xs) :
    Carried m frame .context (known.bind name { id, type := t }) ((name, t, xs) :: scope) := by
  intro other b hb
  by_cases heq : other = name
  · subst heq
    simp only [Context.find?, Context.bind, List.lookup_cons_self] at hb
    cases hb
    exact ⟨xs, List.lookup_cons_self, hid⟩
  · rw [known.find?_bind_ne heq] at hb
    obtain ⟨ys, hys, hhas⟩ := h other b hb
    have hbeq : (other == name) = false := by simpa using heq
    exact ⟨ys, by simpa [List.lookup_cons, hbeq] using hys, hhas⟩

end Input.Carried
/-! ### Nodes -/

open Emit

/-- The runtime parameters by name. -/
def Compilation.environment (c : Compilation) : Environment :=
  c.interface.environment c.values

namespace HostType.Floats

variable {c : Compilation} {frame : Frame} {t : HostType} {n : Nat}

theorem correct_floatTypeId (h : t.Floats n) (node : String) :
    Correct c (floatTypeId node t) frame fun _ _ => True := by
  refine (correct_valueType t).bind (fun type => ?_) ?_
  · split
    · exact growing_typeId type
    · exact growing_throw _
  · intro type frame' _ htype
    cases h with
    | f32 =>
      cases htype
      exact correct_floatType.imp fun _ _ _ => trivial
    | vec2 | vec3 | quad =>
      cases htype
      exact (correct_vectorType _).imp fun _ _ _ => trivial

/-- The number of components of a vector. -/
theorem eq_count (h : t.Floats n) {count : Word}
    (htype : t.valueType = .ok (.vector (.float 32) count)) : count.toNat = n ∧ 2 ≤ n := by
  cases h <;> cases htype <;> decide

/-- A variable has the value of the runtime parameter of its name and type, or its default. -/
theorem correct_parameter (h : t.Floats n) (name : Bytes) (default : t.Value) :
    Correct c (parameter name t default) frame fun frame' id => ∃ type xs,
      t.valueType = .ok type ∧
      xs = (c.environment (nameHash name) type).getD (t.components default) ∧
      frame'.Has c.committed t id xs := by
  refine (correct_valueType t).bind (fun type => Growing.bind (fun s => .refl s) fun s => ?_) ?_
  · split
    · exact Emit.growing_emit _ _ _ (by decide) (by decide)
    · exact (growing_tell _).bind fun _ => t.growing_emit default
  intro type frame₁ _ htype
  refine correct_get_bind fun s hs => ?_
  rw [hs, Option.bind_some]
  cases hp : c.interface.parameter? (nameHash name) type with
  | none =>
    refine (correct_tell _).bind (fun _ => t.growing_emit default) fun _ frame₃ _ _ => ?_
    refine (h.correct_emit default).imp fun frame' id hid => ⟨type, _, htype, rfl, ?_⟩
    rw [Compilation.environment, Interface.environment, hp]
    exact ⟨.constant hid, (h.length_components default).symm ▸ h⟩
  | some p =>
    have hsame : p.type.same type := by
      have hfound := List.find?_some hp
      simp only [Bool.and_eq_true] at hfound
      exact hfound.2
    obtain ⟨hlength, hash, hget⟩ := c.passed p (List.mem_of_find?_eq_some hp) n
      (ValueType.floatCount?_of_same hsame (h.floatCount?_eq htype))
    intro s t' id hrun hs ht
    have hvalue : Eval.Yields c.committed (c.committed.value c.host frame₁ p.composite) _ :=
      Module.yields_value_of_get? (hs.started _ _ hget)
    obtain ⟨frame', hle, hreached, hid⟩ :=
      correct_compositeExtract (fun _ => hvalue) rfl s t' id hrun hs ht
    refine ⟨frame', hle, hreached, type, _, htype, rfl, ?_⟩
    rw [Compilation.environment, Interface.environment, hp]
    exact ⟨.value hid, hlength.symm ▸ h⟩

end HostType.Floats

namespace Emit

variable {c : Compilation} {frame : Frame}

theorem correct_floatVector (node : String) (t : HostType) :
    Correct c (floatVector node t) frame
      fun _ count => t.valueType = .ok (.vector (.float 32) count) := by
  refine (correct_valueType t).bind (fun type => ?_) fun type frame' _ htype => ?_
  · split
    · exact growing_pure _
    · exact growing_throw _
  · split
    · exact correct_pure htype
    · exact correct_throw _

theorem correct_binary (op : Arithmetic) {type a b : ResultId} {t : HostType}
    {xs ys : List Float32} (ha : frame.Has c.committed t a xs) (hb : frame.Has c.committed t b ys) :
    Correct c (build (Build.binary op.opcode type a b)) frame
      fun frame' id => frame'.Has c.committed t id (List.zipWith op.apply xs ys) := by
  refine (correct_emit op.computes op.opcode_layout op.isBody_opcode ?_).imp fun frame' id hid =>
    .of_get? hid ha.floats (by simp [ha.length_eq hb])
  intro hlocal inst hinst hops
  rw [op.result_eq _ _ _ _ hinst, hops]
  exact Module.yields_arithmetic hlocal ha.holds hb.holds (ha.length_eq hb) ha.ne_nil

theorem correct_step {x : Emit ResultId} {Q : Frame → ResultId → Prop}
    (hx : Correct c x frame Q) (known : Context) (name : Bytes) (t : HostType) :
    Correct c (step known name t x) frame fun frame' r =>
      Q frame' r.1 ∧ r.2 = known.bind name { id := r.1, type := t } := by
  refine hx.bind (fun id => ?_) fun id frame' _ hid => ?_
  · split
    · exact (growing_tell _).bind fun _ => growing_pure _
    · exact growing_pure _
  · split
    · refine (correct_tell _).bind (fun _ => growing_pure _) fun _ frame'' _ heq => ?_
      exact correct_pure ⟨heq ▸ hid, rfl⟩
    · exact correct_pure ⟨hid, rfl⟩

end Emit

namespace Emit

variable {c : Compilation} {frame : Frame} {t : HostType}

/-- Whether a step of compiling leads on to a frame that has its result, a value with a property. -/
def Gives (c : Compilation) (x : Emit ResultId) (frame : Frame) (t : HostType)
    (P : List Float32 → Prop) : Prop :=
  Correct c x frame fun frame' id => ∃ xs, P xs ∧ frame'.Has c.committed t id xs

theorem correct_access {known : Context} {scope : Scope}
    (h : Input.Carried c.committed frame .context known scope) (name : Bytes) (t : HostType) :
    Gives c (access known name t) frame t fun xs => scope.lookup name = some (t, xs) := by
  unfold access Context.get?
  cases hfind : known.find? name with
  | none => exact correct_throw _
  | some b =>
    by_cases htype : b.type = t
    · subst htype
      simp only [if_true]
      exact correct_pure (h name b hfind)
    · simp only [if_neg htype]
      exact correct_throw _

/-- The operands of a node of two trees. -/
theorem Gives.bind₂ {x y : Emit ResultId} {f : ResultId → ResultId → Emit ResultId}
    {P R : List Float32 → Prop} {Q : Frame → ResultId → Prop} (hx : Gives c x frame t P)
    (hy : ∀ frame', frame.Le frame' → Gives c y frame' t R) (hgrowing : y.Growing)
    (hgrowing' : ∀ a b, (f a b).Growing)
    (hf : ∀ frame' a b xs ys, P xs → R ys → frame'.Has c.committed t a xs →
      frame'.Has c.committed t b ys → Correct c (f a b) frame' Q) :
    Correct c (do
      let a ← x
      let b ← y
      f a b) frame Q := by
  refine hx.bind (fun a => hgrowing.bind (hgrowing' a)) ?_
  rintro a frame₁ hle₁ ⟨xs, hxs, ha⟩
  refine (hy frame₁ hle₁).bind (hgrowing' a) ?_
  rintro b frame₂ hle₂ ⟨ys, hys, hb⟩
  -- the second operand may have added values, but the first one is still there
  exact hf frame₂ a b xs ys hxs hys (ha.mono hle₂) hb

theorem correct_arithmetic (op : Arithmetic) (node : String) {a b : ResultId} {xs ys : List Float32}
    (ha : frame.Has c.committed t a xs) (hb : frame.Has c.committed t b ys) :
    Correct c (do
      let type ← floatTypeId node t
      build (Build.binary op.opcode type a b)) frame
      fun frame' id => frame'.Has c.committed t id (List.zipWith op.apply xs ys) := by
  refine (ha.floats.correct_floatTypeId _).bind
    (fun _ => growing_emit _ _ _ op.opcode_layout op.isBody_opcode op.opcode_ne_functionCall)
    fun type frame' hle _ => ?_
  exact correct_binary op (ha.mono hle) (hb.mono hle)

/-- A function of the standard set whose value has the type of the node. -/
theorem correct_function {typeId : Emit ResultId} {n : Word} {id : ResultId} {ids : List ResultId}
    {xss : List (List Float32)} {ys : List Float32} (htype : Correct c typeId frame fun _ _ => True)
    (hargs : List.Forall₂ (frame.Holds c.committed) (id :: ids) xss)
    (hvalue : standardValue c.host n (xss.map .floatVector) = .ok (.floatVector ys))
    (hfloats : t.Floats ys.length) :
    Correct c (do
      let type ← typeId
      extended type n (id :: ids)) frame fun frame' id => frame'.Has c.committed t id ys := by
  refine htype.bind (fun _ => compositional_growing.extended _ _ _) fun type frame' hle _ => ?_
  exact (correct_extended (hargs.imp fun _ _ h => h.mono hle) hvalue).imp fun _ _ hget =>
    ⟨.value hget, hfloats⟩

/-- A component of a vector. -/
theorem correct_select {v : ResultId} {index count : Word} {xs : List Float32}
    (htype : t.valueType = .ok (.vector (.float 32) count)) (hindex : index < count)
    (hv : frame.Has c.committed t v xs) :
    ∃ e, xs[index.toNat]? = some e ∧ Correct c (do
      let type ← typeId .f32
      build (Build.compositeExtract type v [index])) frame
      fun frame' id => frame'.Has c.committed .f32 id [e] := by
  obtain ⟨hcount, htwo⟩ := hv.floats.eq_count htype
  have hlt : index.toNat < xs.length := hcount ▸ UInt32.lt_iff_toNat_lt.1 hindex
  refine ⟨xs[index.toNat], List.getElem?_eq_getElem hlt, ?_⟩
  have hextract : (Value.floatVector xs).extract c.host [index] =
      .ok (.floatVector [xs[index.toNat]]) := by
    match xs, htwo with
    | x :: y :: rest, _ =>
      simp only [Value.extract, Value.element?, Value.floatVector, List.getElem?_eq_getElem hlt]
      rfl
  refine correct_floatType.bind (fun _ => growing_emit _ _ _ (by decide) (by decide)) ?_
  intro type frame' hle _
  refine (correct_compositeExtract (fun hlocal => ?_) hextract).imp fun _ _ hget =>
    ⟨.value hget, .f32⟩
  exact Module.yields_value hlocal (hv.mono hle).holds

end Emit

mutual

/-- A compiled tree computes its value. -/
theorem Tree.correct_serialize {c : Compilation} {i : Input} {t : HostType} :
    (tree : Tree i t) → tree.Direct → {x : i.Value} → {y : i.Meaning} → {frame : Frame} →
      Input.Carried c.committed frame i x y →
      Gives c (tree.serialize x) frame t (tree.Evaluates c.host c.environment y)
  | .constant v, hdirect, x, y, frame, _ => by
    rw [Tree.Direct] at hdirect
    obtain ⟨n, hn⟩ := hdirect
    rw [Tree.serialize]
    exact (hn.correct_emit v).imp fun _ _ hid =>
      ⟨_, .constant, .constant hid, (hn.length_components v).symm ▸ hn⟩
  | .parameter name v, hdirect, x, y, frame, _ => by
    rw [Tree.Direct] at hdirect
    obtain ⟨n, hn⟩ := hdirect
    rw [Tree.serialize]
    refine (hn.correct_parameter name v).imp fun _ _ h => ?_
    obtain ⟨type, xs, htype, rfl, hid⟩ := h
    exact ⟨_, .parameter htype, hid⟩
  | .ref _, hdirect, _, _, _, _ => by
    rw [Tree.Direct] at hdirect
    exact hdirect.elim
  | .input, _, x, y, frame, hx => by
    rw [Tree.serialize]
    exact correct_pure ⟨y, .input, hx⟩
  | .arithmetic op a b, hdirect, x, y, frame, hx => by
    rw [Tree.Direct] at hdirect
    rw [Tree.serialize]
    refine (a.correct_serialize hdirect.1 hx).bind₂
      (fun _ hle => b.correct_serialize hdirect.2 (hx.mono hle)) (b.growing_serialize x)
      (fun _ _ =>
        compositional_growing.arithmetic op (compositional_growing.floatTypeId _ _) _ _) ?_
    intro frame' ida idb xs ys hxs hys ha hb
    exact (correct_arithmetic op _ ha hb).imp fun _ _ hid => ⟨_, .arithmetic hxs hys, hid⟩
  | .extremum op a b, hdirect, x, y, frame, hx => by
    rw [Tree.Direct] at hdirect
    rw [Tree.serialize]
    refine (a.correct_serialize hdirect.1 hx).bind₂
      (fun _ hle => b.correct_serialize hdirect.2 (hx.mono hle)) (b.growing_serialize x)
      (fun _ _ => compositional_growing.function (compositional_growing.floatTypeId _ _) _ _) ?_
    intro frame' ida idb xs ys hxs hys ha hb
    have hlength := ha.length_eq hb
    refine (correct_function (ha.floats.correct_floatTypeId _)
      (.cons ha.holds (.cons hb.holds .nil)) (op.standardValue_eq c.host hlength ha.ne_nil) ?_).imp
      fun _ _ hid => ⟨_, .extremum hxs hys, hid⟩
    rw [List.length_zipWith, ← hlength, Nat.min_self]
    exact ha.floats
  | .square of, hdirect, x, y, frame, hx => by
    rw [Tree.Direct] at hdirect
    rw [Tree.serialize]
    refine (of.correct_serialize hdirect hx).bind (fun _ =>
      compositional_growing.arithmetic .mul (compositional_growing.floatTypeId _ _) _ _) ?_
    rintro id frame' _ ⟨xs, hxs, hid⟩
    refine (correct_arithmetic .mul _ hid hid).imp fun _ _ hid => ⟨_, .square hxs, ?_⟩
    rwa [List.zipWith_self] at hid
  | .elementary fn of, hdirect, x, y, frame, hx => by
    rw [Tree.Direct] at hdirect
    rw [Tree.serialize]
    refine (of.correct_serialize hdirect hx).bind
      (fun _ => compositional_growing.function (compositional_growing.floatTypeId _ _) _ _) ?_
    rintro id frame' _ ⟨xs, hxs, hid⟩
    refine (correct_function (hid.floats.correct_floatTypeId _) (.cons hid.holds .nil)
      (fn.standardValue_eq c.host xs) ?_).imp fun _ _ hid => ⟨_, .elementary hxs, hid⟩
    rw [List.length_map]
    exact hid.floats
  | .normalize of, hdirect, x, y, frame, hx => by
    rw [Tree.Direct] at hdirect
    rw [Tree.serialize]
    refine (correct_floatVector _ t).bind (fun _ => (of.growing_serialize x).bind fun _ =>
      compositional_growing.function (growing_typeId _) _ _) fun count frame₁ hle _ => ?_
    refine (of.correct_serialize hdirect (hx.mono hle)).bind
      (fun _ => compositional_growing.function (growing_typeId _) _ _) ?_
    rintro id frame₂ _ ⟨xs, hxs, hid⟩
    refine (correct_function ((correct_vectorType count).imp fun _ _ _ => trivial)
      (.cons hid.holds .nil) (normalize_standardValue_eq c.host xs) ?_).imp fun _ _ hid =>
        ⟨_, .normalize hxs, hid⟩
    rw [List.length_map]
    exact hid.floats
  | .cross a b, hdirect, x, y, frame, hx => by
    rw [Tree.Direct] at hdirect
    rw [Tree.serialize]
    refine (a.correct_serialize hdirect.1 hx).bind₂
      (fun _ hle => b.correct_serialize hdirect.2 (hx.mono hle)) (b.growing_serialize x)
      (fun _ _ => compositional_growing.function (growing_typeId _) _ _) ?_
    intro frame' ida idb xs ys hxs hys ha hb
    obtain ⟨a₀, a₁, a₂, rfl⟩ := List.length_eq_three.1 (ha.floats.unique .vec3)
    obtain ⟨b₀, b₁, b₂, rfl⟩ := List.length_eq_three.1 (hb.floats.unique .vec3)
    exact (correct_function ((correct_vectorType 3).imp fun _ _ _ => trivial)
      (.cons ha.holds (.cons hb.holds .nil)) rfl .vec3).imp fun _ _ hid => ⟨_, .cross hxs hys, hid⟩
  | .length (v := vector) of, hdirect, x, y, frame, hx => by
    rw [Tree.Direct] at hdirect
    rw [Tree.serialize]
    refine (correct_floatVector _ vector).bind (fun _ => (of.growing_serialize x).bind fun _ =>
      compositional_growing.function (growing_typeId _) _ _) fun count frame₁ hle _ => ?_
    refine (of.correct_serialize hdirect (hx.mono hle)).bind
      (fun _ => compositional_growing.function (growing_typeId _) _ _) ?_
    rintro id frame₂ _ ⟨xs, hxs, hid⟩
    exact (correct_function (correct_floatType.imp fun _ _ _ => trivial) (.cons hid.holds .nil)
      (length_standardValue_eq c.host xs) .f32).imp fun _ _ hid => ⟨_, .length hxs, hid⟩
  | .select (v := vector) index of, hdirect, x, y, frame, hx => by
    rw [Tree.Direct] at hdirect
    rw [Tree.serialize]
    have hselect (v : ResultId) := compositional_growing.select v index
    have hgrowing := (of.growing_serialize x).bind hselect
    refine (correct_floatVector _ vector).bind (fun count => ?_) fun count frame₁ hle hcount => ?_
    · split
      · exact (growing_throw _).bind fun _ => hgrowing
      · exact hgrowing
    by_cases hindex : index ≥ count
    · simp only [if_pos hindex]
      exact correct_throw _
    · simp only [if_neg hindex]
      refine (of.correct_serialize hdirect (hx.mono hle)).bind hselect ?_
      rintro id frame₂ _ ⟨xs, hxs, hid⟩
      obtain ⟨e, he, hselect⟩ := correct_select hcount (UInt32.not_le.1 hindex) hid
      exact hselect.imp fun _ _ hid => ⟨_, .select hxs he, hid⟩
  | .link first second, hdirect, x, y, frame, hx => by
    rw [Tree.Direct] at hdirect
    rw [Tree.serialize]
    refine (first.correct_serialize hdirect.1 hx).bind (fun _ => second.growing_serialize _) ?_
    rintro id frame' _ ⟨ys, hys, hid⟩
    exact (second.correct_serialize hdirect.2 hid).imp fun _ _ ⟨zs, hzs, hid⟩ =>
      ⟨zs, .link hys hzs, hid⟩
  | .mapInput f inner, hdirect, x, y, frame, hx => by
    rw [Tree.Direct] at hdirect
    rw [Tree.serialize]
    obtain ⟨z, hz⟩ := hdirect.1 y
    exact (inner.correct_serialize hdirect.2 (hx.of_maps hz)).imp fun _ _ ⟨zs, hzs, hid⟩ =>
      ⟨zs, .mapInput hz hzs, hid⟩
  | .access name, _, known, scope, frame, hx => by
    rw [Tree.serialize]
    exact (correct_access hx name t).imp fun _ _ ⟨xs, hxs, hid⟩ => ⟨xs, .access hxs, hid⟩
  | .chain steps, hdirect, known, scope, frame, hx => by
    rw [Tree.Direct] at hdirect
    rw [Tree.serialize]
    exact (steps.correct_serialize hdirect hx).imp fun _ _ ⟨xs, hxs, hid⟩ => ⟨xs, .chain hxs, hid⟩
  | .detached steps, hdirect, _, _, frame, _ => by
    rw [Tree.Direct] at hdirect
    rw [Tree.serialize]
    exact (steps.correct_serialize hdirect (.of_empty .context)).imp fun _ _ ⟨xs, hxs, hid⟩ =>
      ⟨xs, .detached hxs, hid⟩
  | .withInput (m := type) steps, hdirect, id, ys, frame, hx => by
    rw [Tree.Direct] at hdirect
    rw [Tree.serialize]
    have hknown : Input.Carried c.committed frame .context .empty [] := .of_empty .context
    exact (steps.correct_serialize hdirect (hknown.bind inputName hx)).imp
      fun _ _ ⟨xs, hxs, hid⟩ => ⟨xs, .withInput hxs, hid⟩
  | .inspect _ _, hdirect, _, _, _, _ => by
    rw [Tree.Direct] at hdirect
    exact hdirect.elim
  | .missing, hdirect, _, _, _, _ => by
    rw [Tree.Direct] at hdirect
    exact hdirect.elim
termination_by structural tree => tree

/-- A compiled chain computes its value. -/
theorem Chain.correct_serialize {c : Compilation} {t : HostType} :
    (steps : Chain t) → steps.Direct → {known : Context} → {scope : Scope} → {frame : Frame} →
      Input.Carried c.committed frame .context known scope →
      Gives c (steps.serialize known) frame t (steps.Evaluates c.host c.environment scope)
  | .empty, _, _, _, _, _ => by
    rw [Chain.serialize]
    exact correct_throw _
  | .step before name op, hdirect, known, scope, frame, hknown => by
    rw [Chain.Direct] at hdirect
    rw [Chain.serialize]
    refine (before.correct_extend hdirect.1 hknown).bind (fun known =>
      (compositional_growing.step known name t (op.growing_serialize known)).bind fun _ =>
        growing_pure _) ?_
    rintro known' frame₁ _ ⟨scope', hscope, hknown'⟩
    refine (correct_step (op.correct_serialize hdirect.2 hknown') known' name t).bind
      (fun _ => growing_pure _) ?_
    rintro r frame₂ _ ⟨⟨xs, hxs, hid⟩, _⟩
    exact correct_pure ⟨xs, .step hscope hxs, hid⟩
termination_by structural steps => steps

/-- The results of a compiled chain stand for the values of its steps. -/
theorem Chain.correct_extend {c : Compilation} {t : HostType} :
    (steps : Chain t) → steps.Direct → {known : Context} → {scope : Scope} → {frame : Frame} →
      Input.Carried c.committed frame .context known scope →
      Correct c (steps.extend known) frame fun frame' known' =>
        ∃ scope', steps.Binds c.host c.environment scope scope' ∧
          Input.Carried c.committed frame' .context known' scope'
  | .empty, _, known, scope, _, hknown => by
    rw [Chain.extend]
    exact correct_pure ⟨scope, .empty, hknown⟩
  | .step before name op, hdirect, known, scope, frame, hknown => by
    rw [Chain.Direct] at hdirect
    rw [Chain.extend]
    refine (before.correct_extend hdirect.1 hknown).bind (fun known =>
      (compositional_growing.step known name t (op.growing_serialize known)).bind fun _ =>
        growing_pure _) ?_
    rintro known' frame₁ _ ⟨scope', hscope, hknown'⟩
    refine (correct_step (op.correct_serialize hdirect.2 hknown') known' name t).bind
      (fun _ => growing_pure _) ?_
    rintro r frame₂ hle ⟨⟨xs, hxs, hid⟩, hr⟩
    rw [hr]
    exact correct_pure ⟨_, .step hscope hxs, (hknown'.mono hle).bind name hid⟩
termination_by structural steps => steps

end

end ShaderGraft
