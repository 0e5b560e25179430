import ShaderGraft.Proofs.TypedInjection

/-!
# Definitions before uses

In the block of a compiled tree every id is defined before it is used: by an instruction further up,
by a parameter of the function, by an import, or by a declaration (`Preceded`, `Module.Supplies`).
The main statement is `Tree.preceded_injected`. It is about trees that refer to nothing else
themselves; whatever they take from each other is the result of a part that was compiled before.
Input maps may pass on what they are given, but an id that one of them makes up is used without any
definition (`Injector.inject_conjured`).

As for types, what is declared or imported is looked up in the module at the end, so only what the
block defines depends on how far the compilation is (`Flow.Offers`).
-/

namespace ShaderGraft

/-! ### Uses and definitions -/

/-- The ids that an instruction of a compiled tree uses: its result type and its operands. The
number of a function in its instruction set and the indices of a component are no ids. -/
def Instruction.uses (inst : Instruction) : List ResultId :=
  (if inst.opcode.layout = .typed then [inst.resultType] else []) ++
    match inst.opcode, inst.operands with
    | .extInst, set :: _ :: arguments => set :: arguments
    | .compositeExtract, composite :: _ => [composite]
    | _, operands => operands

/-- Whether one of the instructions has the id as its result. -/
def Defines (insts : List Instruction) (id : ResultId) : Prop :=
  id ≠ 0 ∧ ∃ inst ∈ insts, inst.resultId = id

instance (insts : List Instruction) (id : ResultId) : Decidable (Defines insts id) :=
  inferInstanceAs (Decidable (_ ∧ ∃ inst ∈ _, _))

theorem Defines.mono {xs ys : List Instruction} {id : ResultId} (h : Defines xs id)
    (hsub : xs ⊆ ys) : Defines ys id := by
  obtain ⟨hne, inst, hinst, hid⟩ := h
  exact ⟨hne, inst, hsub hinst, hid⟩

/-- Whether an id can be used everywhere in a function: it is that of a declaration, a parameter of
the function or an import. -/
def Module.Supplies (m : Module) (f : Function) (id : ResultId) : Prop :=
  Defines m.globals id ∨ Defines f.parameters id ∨ ∃ inst ∈ m.imports, inst.resultId = id

instance (m : Module) (f : Function) (id : ResultId) : Decidable (m.Supplies f id) :=
  inferInstanceAs (Decidable (_ ∨ _ ∨ ∃ inst ∈ _, _))

theorem Module.Supplies.mono {m m' : Module} {f : Function} {id : ResultId} (h : m.Supplies f id)
    (hglobals : m.globals ⊆ m'.globals) (himports : m.imports ⊆ m'.imports) : m'.Supplies f id := by
  rcases h with hglobal | hparameter | ⟨inst, hinst, hid⟩
  · exact .inl (hglobal.mono hglobals)
  · exact .inr (.inl hparameter)
  · exact .inr (.inr ⟨inst, himports hinst, hid⟩)

theorem Module.defines_of_global? {m : Module} {id : ResultId} (h : (m.global? id).isSome) :
    Defines m.globals id := by
  obtain ⟨decl, hdecl⟩ := Option.isSome_iff_exists.1 h
  have hid : id ≠ 0 := by
    rintro rfl
    simp [global?] at hdecl
  exact ⟨hid, decl, mem_of_global? hdecl⟩

/-- Every id that an instruction uses is available from the start or defined further up. -/
def Preceded (available : ResultId → Prop) (body : List Instruction) : Prop :=
  ∀ before inst after, body = before ++ inst :: after →
    ∀ id ∈ inst.uses, available id ∨ Defines before id

theorem preceded_nil (available : ResultId → Prop) : Preceded available [] := by
  intro before inst after h
  simp at h

/-- What holds of every entry of a list and those before it holds with one more entry at the end. -/
theorem forall_split_concat {α : Type} {P : List α → α → Prop} {xs : List α} {x : α}
    (h : ∀ before a after, xs = before ++ a :: after → P before a) (hx : P xs x) :
    ∀ before a after, xs ++ [x] = before ++ a :: after → P before a := by
  intro before a after heq
  rcases List.eq_nil_or_concat after with rfl | ⟨after, last, rfl⟩
  · obtain ⟨rfl, ha⟩ := List.append_inj' heq rfl
    cases ha
    exact hx
  · rw [List.concat_eq_append, ← List.cons_append, ← List.append_assoc] at heq
    exact h before a after (List.append_inj_left' heq rfl)

theorem Preceded.concat {available : ResultId → Prop} {body : List Instruction} {inst : Instruction}
    (h : Preceded available body) (hinst : ∀ id ∈ inst.uses, available id ∨ Defines body id) :
    Preceded available (body ++ [inst]) :=
  forall_split_concat h hinst

/-! ### What trees refer to -/

/-- The ids of all results in a context. -/
def Context.ids (known : Context) : List ResultId :=
  known.entries.map (·.2.id)

theorem Context.mem_ids {known : Context} {name : Bytes} {b : Binding}
    (h : known.find? name = some b) : b.id ∈ known.ids := by
  obtain ⟨before, after, hentries, -⟩ := List.lookup_eq_some_iff.1 h
  simp [ids, hentries]

theorem Context.ids_bind_subset (known : Context) (name : Bytes) (b : Binding) :
    (known.bind name b).ids ⊆ b.id :: known.ids := by
  refine List.cons_subset_cons _ (List.map_subset _ ?_)
  exact List.filter_subset_self ..

/-- The ids in an input. -/
def Input.ids : (i : Input) → i.Value → List ResultId
  | .none, _ => []
  | .data _, id => [id]
  | .context, known => known.ids

/-- The ids of all that is given. -/
def Given.ids (known : List Given) : List ResultId :=
  known.flatMap fun g => g.1.ids g.2

theorem Given.ids_append (new known : List Given) : ids (new ++ known) = ids new ++ ids known :=
  List.flatMap_append

/-- A tree refers to available ids only, and so do its input maps, besides what they are given. -/
def Tree.RefersTo (available : ResultId → Prop) {i : Input} {t : HostType} (tree : Tree i t) :
    Prop :=
  tree.Respects (fun id _ => available id) fun i j f =>
    ∀ x, ∀ id ∈ j.ids (f x), available id ∨ id ∈ i.ids x

/-! ### Compiling in order -/

/-- A compilation into a block of a function whose module is known at the end. -/
structure Flow where
  final : Module
  function : Function
  interface : Interface
  idsDistinct : final.IdsDistinct
  parameters : ∀ p ∈ interface.parameters,
    final.Supplies function p.typeId ∧ final.Supplies function p.composite

namespace Flow

variable (c : Flow)

/-- Whether an id can be used after some compiling. -/
def Offers (s : Serializer) (id : ResultId) : Prop :=
  c.final.Supplies c.function id ∨ ∃ block, s.builder.selected? = some block ∧
    Defines block.body id

/-- Whether what there is after some compiling ends up in the final module. -/
structure Within (s : Serializer) : Prop where
  globals : s.builder.target.globals <+: c.final.globals
  imports : s.builder.target.imports ⊆ c.final.imports
  body : ∀ block, s.builder.selected? = some block → block.body ⊆ c.final.instructions

/-- Whether the block that is compiled into is in order so far. -/
structure InOrder (s : Serializer) : Prop where
  setImported : s.SetImported
  body : ∃ block, s.builder.selected? = some block ∧
    Preceded (c.final.Supplies c.function) block.body

variable {c}

theorem Offers.of_grows {s t : Serializer} {id : ResultId} (hs : c.Offers s id) (h : s.Grows t) :
    c.Offers t id := by
  rcases hs with hid | ⟨block, hsel, hid⟩
  · exact .inl hid
  obtain ⟨n, hn⟩ := h.builder
  obtain ⟨a, ha, -⟩ := hn.eq_grow
  refine .inr ⟨{ block with body := block.body ++ a.body }, ?_, ?_⟩
  · rw [ha, Builder.selected?_grow, hsel, Option.map_some]
  · exact hid.mono (List.subset_append_left ..)

theorem Within.of_grows {s t : Serializer} (ht : c.Within t) (h : s.Grows t) : c.Within s := by
  obtain ⟨n, hn⟩ := h.builder
  obtain ⟨a, ha, -⟩ := hn.eq_grow
  obtain ⟨hglobals, himports, hbody⟩ := ht
  rw [ha] at hglobals himports hbody
  refine ⟨(List.prefix_append ..).trans hglobals, ?_, fun block hsel => ?_⟩
  · exact List.Subset.trans (List.subset_append_left ..) himports
  · have hblock := hbody { block with body := block.body ++ a.body }
    rw [Builder.selected?_grow, hsel] at hblock
    exact List.Subset.trans (List.subset_append_left ..) (hblock rfl)

theorem InOrder.of_grows {s t : Serializer} (hs : c.InOrder s) (h : s.Grows t)
    (hsel : t.builder.selected? = s.builder.selected?) : c.InOrder t where
  setImported := h.setImported hs.setImported
  body := hsel ▸ hs.body

end Flow

namespace Emit

variable {α β : Type} {c : Flow} {ids : List ResultId}

/-- A step of compiling that keeps the order if `ids` can be used before it, with the ids that can
be used after it. -/
def Orders (c : Flow) (ids : List ResultId) (x : Emit α) (out : α → List ResultId) : Prop :=
  ∀ s t a, x.run s = .ok a t → s.interface = some c.interface → s.Grows t ∧
    ((∀ id ∈ ids, c.Offers s id) → c.InOrder s → c.Within t →
      c.InOrder t ∧ ∀ id ∈ out a, c.Offers t id)

theorem orders_pure {a : α} {out : α → List ResultId}
    (h : ∀ id ∈ out a, c.final.Supplies c.function id ∨ id ∈ ids) : Orders c ids (pure a) out := by
  intro s t b hrun _
  cases hrun
  refine ⟨.refl s, fun hids hs _ => ⟨hs, fun id hid => ?_⟩⟩
  exact (h id hid).elim .inl (hids id)

theorem orders_throw {out : α → List ResultId} (e : EmitError) : Orders c ids (throw e) out := by
  intro s t a hrun
  cases hrun

theorem Orders.bind {x : Emit α} {f : α → Emit β} {mid : α → List ResultId}
    {out : β → List ResultId} (hx : Orders c ids x mid)
    (hf : ∀ a, Orders c (mid a ++ ids) (f a) out) : Orders c ids (x >>= f) out := by
  intro s t b hrun hinterface
  rw [EStateM.run_bind] at hrun
  cases hx' : x.run s with
  | error e u => simp [hx'] at hrun
  | ok a u =>
    simp only [hx'] at hrun
    obtain ⟨hsu, hmid⟩ := hx s u a hx' hinterface
    obtain ⟨hut, hout⟩ := hf a u t b hrun (hsu.interface.trans hinterface)
    refine ⟨hsu.trans hut, fun hids hs ht => ?_⟩
    obtain ⟨hu, ha⟩ := hmid hids hs (ht.of_grows hut)
    refine hout (fun id hid => ?_) hu ht
    exact (List.mem_append.1 hid).elim (ha id) fun hid => (hids id hid).of_grows hsu

/-- What is available everywhere need not be asked for. -/
theorem Orders.pre {ids' : List ResultId} {x : Emit α} {out : α → List ResultId}
    (hx : Orders c ids x out)
    (h : ∀ id ∈ ids, c.final.Supplies c.function id ∨ id ∈ ids') : Orders c ids' x out := by
  intro s t a hrun hinterface
  obtain ⟨hgrows, hout⟩ := hx s t a hrun hinterface
  exact ⟨hgrows, fun hids => hout fun id hid => (h id hid).elim .inl (hids id)⟩

theorem Orders.weaken {ids' : List ResultId} {x : Emit α} {out : α → List ResultId}
    (hx : Orders c ids x out) (h : ids ⊆ ids') : Orders c ids' x out :=
  hx.pre fun _ hid => .inr (h hid)

theorem Orders.forget {x : Emit α} {out : α → List ResultId} (hx : Orders c ids x out) :
    Orders c ids x fun _ => [] := by
  intro s t a hrun hinterface
  obtain ⟨hgrows, hout⟩ := hx s t a hrun hinterface
  exact ⟨hgrows, fun hids hs ht => ⟨(hout hids hs ht).1, by simp⟩⟩

theorem Orders.mapM {f : α → Emit β} (hf : ∀ a, Orders c [] (f a) fun _ => []) (as : List α) :
    Orders c ids (as.mapM f) fun _ => [] := by
  induction as with
  | nil => exact orders_pure (by simp)
  | cons a as ih =>
    rw [List.mapM_cons]
    refine ((hf a).weaken (List.nil_subset _)).bind fun b => ?_
    exact ih.bind fun bs => orders_pure (by simp)

theorem orders_get_bind {f : Serializer → Emit α} {out : α → List ResultId}
    (hf : ∀ s, s.interface = some c.interface → Orders c ids (f s) out) :
    Orders c ids (get >>= f) out :=
  fun s t a hrun hinterface => hf s hinterface s t a hrun hinterface

/-- A step that leaves the block as it is and whose result does not matter. -/
theorem orders_tell (r : Record) : Orders c ids (tell r) fun _ => [] := by
  intro s t a hrun _
  have hgrows := (growing_tell r).grows hrun
  cases hrun
  exact ⟨hgrows, fun _ hs _ => ⟨hs.of_grows hgrows rfl, by simp⟩⟩

theorem orders_throw_bind {out : β → List ResultId} (e : EmitError) (f : α → Emit β) :
    Orders c ids (throw e >>= f) out := by
  intro s t a hrun
  cases hrun

theorem orders_valueType_bind {type : HostType} {f : ValueType → Emit α}
    {out : α → List ResultId} (hf : ∀ t, Orders c ids (f t) out) :
    Orders c ids (valueType type >>= f) out := by
  unfold valueType
  split
  · exact hf _
  · exact orders_throw_bind _ _

/-- What is declared is available everywhere. -/
theorem orders_declare {x : Declare α} {Q : α → Prop} {out : α → List ResultId}
    (hx : x.Settles c.final Q) (hgrowing : x.Growing)
    (hout : ∀ a, Q a → ∀ id ∈ out a, Defines c.final.globals id) :
    Orders c ids (declare x) out := by
  intro s t a hrun _
  have hgrows := (growing_declare hgrowing).grows hrun
  obtain ⟨hfunctions, -, hQ⟩ := hx s.builder.target
  rw [run_declare] at hrun
  injection hrun with ha ht'
  subst ha ht'
  refine ⟨hgrows, fun _ hs ht => ⟨hs.of_grows hgrows ?_, fun id hid => ?_⟩⟩
  · simp only [Builder.selected?, Builder.withTarget, Module.block?, hfunctions]
  · exact .inl (.inl (hout _ (hQ ht.globals) id hid))

theorem orders_typeId (t : ValueType) : Orders c ids (typeId t) fun id => [id] := by
  have hdeclare : Orders c ids (declare t.declare) Option.toList := by
    refine orders_declare (t.settles_declare c.idsDistinct) t.growing_declare ?_
    intro id? hdenotes id hid
    obtain ⟨decl, hdecl, -⟩ := hdenotes id (Option.mem_toList.1 hid)
    exact Module.defines_of_global? (by simp [hdecl])
  refine hdeclare.bind fun id? => ?_
  cases id? with
  | none => exact orders_throw _
  | some id => exact orders_pure (by simp)

theorem orders_instructionSet : Orders c ids instructionSet fun id => [id] := by
  intro s t set hrun _
  have hgrows := growing_instructionSet.grows hrun
  refine ⟨hgrows, fun _ hs ht => ?_⟩
  rw [run_instructionSet] at hrun
  split at hrun
  · have hfunctions : ((Declare.extInstImport s.setName).run s.builder.target).2.functions =
        s.builder.target.functions := by
      rw [Declare.run_extInstImport]
      split <;> rfl
    have himport := Declare.extInstImport_hasImport s.setName s.builder.target
    injection hrun with hid ht'
    subst hid ht'
    refine ⟨hs.of_grows hgrows ?_, fun id hid => ?_⟩
    · simp only [Builder.selected?, Builder.withTarget, Module.block?, hfunctions]
    · cases List.mem_singleton.1 hid
      obtain ⟨inst, hinst, hid, -⟩ := himport
      exact .inl (.inr (.inr ⟨inst, ht.imports hinst, hid⟩))
  · rename_i hset
    cases hrun
    refine ⟨hs, fun id hid => ?_⟩
    cases List.mem_singleton.1 hid
    obtain ⟨inst, hinst, hid, -⟩ := hs.setImported.resolve_left hset
    exact .inl (.inr (.inr ⟨inst, ht.imports hinst, hid⟩))

/-- An instruction that uses what can be used. -/
theorem orders_emit {op : Opcode} {type : ResultId} {operands : List Word}
    (hlayout : op.layout = .typed) (hbody : op.IsBody) (hcall : op ≠ .functionCall)
    (huses : ∀ resultId,
      ({ opcode := op, resultType := type, resultId, operands } : Instruction).uses ⊆ ids) :
    Orders c ids (build (Build.emit op type operands)) fun id => [id] := by
  intro s t id hrun _
  have hgrows := (growing_emit op type operands hlayout hbody hcall).grows hrun
  refine ⟨hgrows, fun hids hs ht => ?_⟩
  obtain ⟨block, hsel, hpreceded⟩ := hs.body
  let inst : Instruction :=
    { opcode := op, resultType := type, resultId := s.builder.target.header.bound, operands }
  rw [run_build, Build.run_emit hsel] at hrun
  injection hrun with hid ht'
  subst hid ht'
  have hsel' := Builder.selected?_appendTo hsel inst hlayout hcall
  have hmem : inst ∈ c.final.instructions := ht.body _ hsel' (by simp)
  refine ⟨⟨hgrows.setImported hs.setImported, _, hsel', hpreceded.concat fun id hid => ?_⟩,
    fun id hid => ?_⟩
  · refine (hids id (huses _ hid)).imp_right fun ⟨block', hblock, hdefines⟩ => ?_
    cases hsel.symm.trans hblock
    exact hdefines
  · cases List.mem_singleton.1 hid
    exact .inr ⟨_, hsel', c.idsDistinct.ne_zero inst hmem (by simp [inst, hlayout]), inst, by simp,
      rfl⟩

end Emit

/-! ### Constants -/

open Emit

variable {c : Flow} {ids : List ResultId}

theorem Emit.orders_global {op : Opcode} (type : ResultId) (operands : List Word)
    (hop : op.placement = .within .globals) (hlayout : op.layout ≠ .none)
    (hcall : op ≠ .functionCall) :
    Orders c ids (declare (Declare.global op type operands)) fun id => [id] := by
  refine orders_declare (Declare.settles_global op type operands)
    (Declare.growing_global op type operands hop hlayout hcall) ?_
  rintro id ⟨inst, hmem, rfl, rfl, rfl, rfl⟩ _ hid
  cases List.mem_singleton.1 hid
  exact ⟨c.idsDistinct.ne_zero inst (c.final.sublist_globals.subset hmem) hlayout, inst, hmem, rfl⟩

theorem Scalar.orders_emit (s : Scalar) (v : s.Value) : Orders c ids (s.emit v) fun id => [id] := by
  refine (orders_typeId s.type).bind fun type => ?_
  cases s with
  | bool =>
    cases v with
    | false => exact orders_global _ _ rfl (by decide) (by decide)
    | true => exact orders_global _ _ rfl (by decide) (by decide)
  | int32 | uint32 | float32 | int64 | uint64 | float64 =>
    exact orders_global _ _ rfl (by decide) (by decide)

theorem Scalar.orders_emitVector (s : Scalar) (vs : List s.Value) :
    Orders c ids (s.emitVector vs) fun id => [id] := by
  refine (orders_typeId _).bind fun type => ?_
  refine (Orders.mapM (fun v => (s.orders_emit v).forget) vs).bind fun parts => ?_
  exact orders_global _ _ rfl (by decide) (by decide)

theorem orders_emitMatrix (n : Nat) (elements : List UInt32) :
    Orders c ids (emitMatrix n elements) fun id => [id] := by
  refine (orders_typeId _).bind fun type => ?_
  refine (orders_typeId _).bind fun columnType => ?_
  refine (orders_typeId _).bind fun elementType => ?_
  refine (Orders.mapM (fun column => ?_) _).bind fun columns => ?_
  · refine (Orders.mapM (fun bits => ?_) _).bind fun parts => ?_
    · exact (orders_global _ _ rfl (by decide) (by decide)).forget
    · exact (orders_global _ _ rfl (by decide) (by decide)).forget
  · exact orders_global _ _ rfl (by decide) (by decide)

/-- A constant is a declaration, whatever its type is. -/
theorem HostType.orders_emit (type : HostType) (v : type.Value) :
    Orders c ids (type.emit v) fun id => [id] := by
  unfold HostType.emit
  split
  · exact Scalar.orders_emit _ _
  · exact Scalar.orders_emit _ _
  · exact Scalar.orders_emitVector _ _
  · exact Scalar.orders_emitVector _ _
  · exact Scalar.orders_emitVector _ _
  · exact Scalar.orders_emitVector _ _
  · exact orders_emitMatrix _ _
  · exact orders_emitMatrix _ _
  · exact orders_emitMatrix _ _
  · exact orders_valueType_bind fun _ => Scalar.orders_emitVector _ _
  · exact orders_valueType_bind fun _ => Scalar.orders_emitVector _ _
  · split
    · exact orders_throw _
    · exact orders_throw _

/-! ### Nodes -/

namespace Emit

theorem orders_arithmetic (op : Arithmetic) (t : ValueType) (a b : ResultId) :
    Orders c [a, b] (do
      let type ← typeId t
      build (Build.binary op.opcode type a b)) fun id => [id] := by
  refine (orders_typeId t).bind fun type => ?_
  refine orders_emit op.opcode_layout op.isBody_opcode op.opcode_ne_functionCall fun id => ?_
  have huses : ({ opcode := op.opcode, resultType := type, resultId := id, operands := [a, b] } :
      Instruction).uses = [type, a, b] := by
    cases op <;> rfl
  simp [huses]

/-- A function of the instruction set on results. -/
theorem orders_function (t : ValueType) (n : Word) (args : List ResultId) :
    Orders c args (do
      let type ← typeId t
      extended type n args) fun id => [id] := by
  refine (orders_typeId t).bind fun type => orders_instructionSet.bind fun set => ?_
  refine orders_emit (by decide) (by decide) (by decide) fun id => ?_
  change type :: set :: args ⊆ set :: type :: args
  grind

theorem orders_select (v : ResultId) (index : Word) :
    Orders c [v] (do
      let type ← typeId .f32
      build (Build.compositeExtract type v [index])) fun id => [id] := by
  refine (orders_typeId .f32).bind fun type => ?_
  exact orders_emit (by decide) (by decide) (by decide) fun id => List.Subset.refl [type, v]

theorem orders_parameter (name : Bytes) (type : HostType) (default : type.Value) :
    Orders c ids (parameter name type default) fun id => [id] := by
  refine orders_valueType_bind fun t => orders_get_bind fun s hinterface => ?_
  cases hp : s.interface.bind (·.parameter? (nameHash name) t) with
  | none => exact (orders_tell _).bind fun _ => type.orders_emit default
  | some p =>
    rw [hinterface, Option.bind_some] at hp
    obtain ⟨htype, hcomposite⟩ := c.parameters p (List.mem_of_find?_eq_some hp)
    have hextract : Orders c [p.typeId, p.composite]
        (build (Build.compositeExtract p.typeId p.composite [1])) fun id => [id] :=
      orders_emit (by decide) (by decide) (by decide) fun _ => List.Subset.refl _
    refine hextract.pre fun id hid => .inl ?_
    simp only [List.mem_cons, List.not_mem_nil, or_false] at hid
    rcases hid with rfl | rfl
    · exact htype
    · exact hcomposite

end Emit

/-! ### Trees -/

/-- The ids that are given can be used, and only what can be used is. -/
def Flow.logic (c : Flow) {available : ResultId → Prop}
    (h : ∀ id, available id → c.final.Supplies c.function id) : Emit.Logic where
  Ref id _ := available id
  Map i j f := ∀ x, ∀ id ∈ j.ids (f x), available id ∨ id ∈ i.ids x
  Entails known g := ∀ id ∈ g.1.ids g.2, c.final.Supplies c.function id ∨ id ∈ Given.ids known
  Step known x out := Orders c (Given.ids known) x fun a => Given.ids (out a)
  mem hg id hid := .inr (List.mem_flatMap.2 ⟨_, hg, hid⟩)
  weaken new hg id hid := (hg id hid).imp_right fun hid => by
    rw [Given.ids_append]
    exact List.mem_append_right _ hid
  ref hid := List.forall_mem_singleton.2 (.inl (h _ hid))
  map hf hx id hid := (hf _ id hid).elim (fun hid => .inl (h id hid)) (hx id)
  empty := List.forall_mem_nil _
  insert name hc hid id hmem := by
    rcases List.mem_cons.1 (Context.ids_bind_subset _ name _ hmem) with rfl | hmem
    · exact hid _ (List.mem_singleton_self _)
    · exact hc id hmem
  lookup hfind hc := List.forall_mem_singleton.2 (hc _ (Context.mem_ids hfind))
  pure ha := orders_pure fun id hid => by
    obtain ⟨g, hg, hid⟩ := List.mem_flatMap.1 hid
    exact ha g hg id hid
  throw _ := orders_throw _
  bind hx hf := hx.bind fun a => Given.ids_append _ _ ▸ hf a
  tell := orders_tell
  constant t v := t.orders_emit v
  parameter name t v := orders_parameter name t v
  arithmetic op := fun _ _ ha hb =>
    (orders_arithmetic op _ _ _).pre (List.forall_mem_cons.2 ⟨ha _ (List.mem_singleton_self _), hb⟩)
  extremum op := fun _ _ ha hb =>
    (orders_function _ _ _).pre (List.forall_mem_cons.2 ⟨ha _ (List.mem_singleton_self _), hb⟩)
  elementary fn := fun _ _ hv => (orders_function _ _ _).pre hv
  normalize _ hv := (orders_function _ _ _).pre hv
  cross ha hb :=
    (orders_function _ _ _).pre (List.forall_mem_cons.2 ⟨ha _ (List.mem_singleton_self _), hb⟩)
  length _ hv := (orders_function _ _ _).pre hv
  select _ _ hv := (orders_select _ _).pre hv

theorem Tree.orders_serialize {available : ResultId → Prop}
    (h : ∀ id, available id → c.final.Supplies c.function id) {i : Input} {t : HostType}
    {tree : Tree i t} (htree : tree.RefersTo available) (x : i.Value) :
    Orders c (i.ids x) (tree.serialize x) fun id => [id] := by
  have hgiven : (c.logic h).Entails [⟨i, x⟩] ⟨i, x⟩ := (c.logic h).head _
  exact (tree.step_serialize (c.logic h) htree hgiven).weaken (by simp [Given.ids])

/-- What a tree compiles to is in order, and its result can be used after it. -/
theorem Tree.preceded_serialize {i : Input} {t : HostType} {tree : Tree i t} {x : i.Value}
    {s s' : Serializer} {block : Block} {result : ResultId} {available : ResultId → Prop}
    (h : ∀ id, available id → c.final.Supplies c.function id) (htree : tree.RefersTo available)
    (hx : ∀ id ∈ i.ids x, available id) (hinterface : s.interface = some c.interface)
    (hs : c.InOrder s) (hrun : (tree.serialize x).run s = .ok result s') (hs' : c.Within s')
    (hblock : s'.builder.selected? = some block) :
    Preceded (c.final.Supplies c.function) block.body ∧
      (c.final.Supplies c.function result ∨ Defines block.body result) := by
  obtain ⟨-, hout⟩ := tree.orders_serialize h htree x s s' result hrun hinterface
  obtain ⟨⟨-, block', hblock', hbody⟩, hresult⟩ :=
    hout (fun id hid => .inl (h id (hx id hid))) hs hs'
  cases hblock.symm.trans hblock'
  refine ⟨hbody, (hresult result (List.mem_singleton_self _)).imp_right ?_⟩
  rintro ⟨block', hblock', hdefines⟩
  cases hblock.symm.trans hblock'
  exact hdefines

/-! ### Injections -/

namespace Module

section

variable {m : Module} {f : Function}

/-- What a function can use, or what one of its blocks defines, is somewhere in the module. -/
theorem exists_mem_of_supplies {b : Block} {id : ResultId} (hf : f ∈ m.functions)
    (hb : b ∈ f.blocks) (h : m.Supplies f id ∨ Defines b.body id) :
    ∃ inst ∈ m.instructions, inst.resultId = id := by
  rcases h with (⟨-, inst, hinst, hid⟩ | ⟨-, inst, hinst, hid⟩ | ⟨inst, hinst, hid⟩) |
    ⟨-, inst, hinst, hid⟩
  · exact ⟨inst, m.sublist_globals.subset hinst, hid⟩
  · have hmem : inst ∈ f.instructions := by simp [Function.instructions, hinst]
    exact ⟨inst, mem_instructions_of_mem_function hf hmem, hid⟩
  · exact ⟨inst, List.mem_append_left _ (by simp [declarations, hinst]), hid⟩
  · have hmem := Function.mem_instructions_of_mem_body hb hinst
    exact ⟨inst, mem_instructions_of_mem_function hf hmem, hid⟩

variable {index : Nat} (hf : m.functions[index]? = some f)

include hf

theorem getElem?_functions_graft (n : Nat) (a : Additions) (result : ResultId) :
    (m.graft index f n a result).functions[index]? =
      some { f with blocks := [m.graftedBlock a.body result] } := by
  obtain ⟨hlt, -⟩ := List.getElem?_eq_some_iff.1 hf
  exact List.getElem?_set_self hlt

/-- What is there after an injection is not what it dropped. -/
theorem not_defines_of_mem_graft {n : Nat} {a : Additions} {result id : ResultId}
    (hm : m.IdsDistinct) (hcompiled : (m.compiled index f n a result).IdsDistinct)
    (hid : ∃ inst ∈ (m.graft index f n a result).instructions, inst.resultId = id) :
    ∀ b ∈ f.blocks, ¬ b.Defines id := by
  intro b hb hdefines
  have hne : id ≠ 0 := by
    rintro rfl
    have hlabel : b.label ∈ f.outline := List.mem_append_right _ (List.mem_map_of_mem hb)
    exact hm.outline f (List.mem_of_getElem? hf) _ hlabel (hdefines.resolve_right fun h => h.1 rfl)
  have hsome := isSome_definition?.2 ⟨hne, hid⟩
  rw [definition?_graft_of_drops hf hcompiled.distinct (.inl ⟨b, hb, hdefines⟩)] at hsome
  cases hsome

end

end Module

namespace Injector

/-- The block of a compiled tree is in order in the module that has it. -/
theorem preceded_graftedBlock {inj : Injector} {index n : Nat} {f : Function} {a : Additions}
    {i : Input} {t : HostType} {tree : Tree i t} {x : i.Value} {result : ResultId} {s : Serializer}
    (hf : inj.target.functions[index]? = some f)
    (hgraft : (inj.target.graft index f n a result).IdsDistinct)
    (hparameters : ∀ p ∈ inj.interface.parameters,
      inj.target.Supplies f p.typeId ∧ inj.target.Supplies f p.composite)
    (htree : tree.RefersTo (inj.target.Supplies f))
    (hx : ∀ id ∈ i.ids x, inj.target.Supplies f id)
    (hrun : (tree.serialize x).run (inj.opened index f) = .ok result s)
    (ha : s.builder = (inj.opened index f).builder.grow n a) :
    Preceded ((inj.target.graft index f n a result).Supplies f)
      (inj.target.graftedBlock a.body result).body := by
  have hsupplies (id : ResultId) (hid : inj.target.Supplies f id) :
      (inj.target.graft index f n a result).Supplies f id :=
    hid.mono (List.subset_append_left ..) (List.subset_append_left ..)
  have hsel := selected?_opened_grow hf n a
  rw [← ha] at hsel
  let c : Flow := {
    final := inj.target.graft index f n a result
    function := f
    interface := inj.interface
    idsDistinct := hgraft
    parameters := fun p hp => (hparameters p hp).imp (hsupplies _) (hsupplies _) }
  have hopened : c.InOrder (inj.opened index f) :=
    ⟨.inl rfl, _, selected?_opened hf, preceded_nil _⟩
  have hwithin : c.Within s := by
    refine ⟨?_, ?_, fun block hblock inst hinst => ?_⟩
    · rw [ha]
      exact List.prefix_rfl
    · rw [ha]
      exact List.Subset.refl _
    · cases hsel.symm.trans hblock
      have hmem := List.mem_of_getElem? (Module.getElem?_functions_graft hf n a result)
      refine Module.mem_instructions_of_mem_function hmem ?_
      exact Function.mem_instructions_of_mem_body (List.mem_singleton_self _)
        (List.mem_append_left _ hinst)
  obtain ⟨hbody, hresult⟩ :=
    Tree.preceded_serialize hsupplies htree hx rfl hopened hrun hwithin hsel
  -- only the return comes after the tree
  refine hbody.concat fun id hid => ?_
  cases List.mem_singleton.1 hid
  exact hresult

theorem Located.preceded_inject {inj next : Injector} {f : Function} {i : Input} {t : HostType}
    {tree : Tree i t} {x : i.Value} (h : inj.Located f)
    (hparameters : ∀ p ∈ inj.interface.parameters,
      inj.target.Supplies f p.typeId ∧ inj.target.Supplies f p.composite)
    (htree : tree.RefersTo (inj.target.Supplies f))
    (hx : ∀ id ∈ i.ids x, inj.target.Supplies f id)
    (hinject : (inj.inject tree x).2 = .ok next)
    (hlimit : inj.target.header.bound.toNat +
      inj.target.idsTaken next.target inj.interface.function ≤ UInt32.size) :
    ∃ block, next.target.functions[inj.interface.function]? = some { f with blocks := [block] } ∧
      Preceded (next.target.Supplies f) block.body ∧
      ∀ inst ∈ block.body, ∀ id ∈ inst.uses, ∀ b ∈ f.blocks, ¬ b.Defines id := by
  obtain ⟨index, g, result, s, n, a, hindex, hg, -, hrun, hgrows, ha, hn, rfl⟩ :=
    inject_eq_ok (Prod.ext rfl hinject)
  cases h.functionWithId?_eq.symm.trans hindex
  cases h.function.symm.trans hg
  have hf := h.function
  change _ + inj.target.idsTaken (inj.target.graft _ f n a result) _ ≤ _ at hlimit
  rw [Module.idsTaken_graft n a result hf hn] at hlimit
  have hcompiled := idsBelow_compiled h.idWellFormed hf hgrows ha hlimit result
  have hgraft := h.idWellFormed.idsBelow.graft (by omega) hf hcompiled
  have hpreceded := preceded_graftedBlock hf hgraft.toIdsDistinct hparameters htree hx hrun ha
  have hfunction := Module.getElem?_functions_graft hf n a result
  refine ⟨_, hfunction, hpreceded, fun inst hinst id hid => ?_⟩
  obtain ⟨before, after, hsplit⟩ := List.append_of_mem hinst
  refine Module.not_defines_of_mem_graft hf h.idWellFormed.toIdsDistinct hcompiled.toIdsDistinct ?_
  refine Module.exists_mem_of_supplies (List.mem_of_getElem? hfunction)
    (List.mem_singleton_self _) ?_
  refine (hpreceded before inst after hsplit id hid).imp_right fun hdefines => ?_
  exact hdefines.mono (hsplit ▸ List.subset_append_left ..)

end Injector

/-- **Definitions precede uses in injected code.** The interface was reflected from a module with
well-formed ids and has declared types. Whenever a tree is injected that refers to nothing but
declarations, imports and parameters of the function, and whose input maps give no other ids than
these and the ones they are given, after any number of injections, every id that the new block uses
is defined further up in the block, or is itself one of these. None of them was
defined by a block that the injection dropped. -/
theorem Tree.preceded_injected {m : Module} {name : Bytes} {options : Options}
    {inj inj' next : Injector} {f : Function} {i : Input} {t : HostType} {tree : Tree i t}
    {x : i.Value} (hm : m.IdWellFormed) (hcreate : (Injector.create m name options).2 = .ok inj)
    (htypes : ∀ p ∈ inj.interface.parameters, (m.global? p.typeId).isSome)
    (hreaches : inj.Reaches inj')
    (hf : inj'.target.functions[inj.interface.function]? = some f)
    (htree : tree.RefersTo (inj'.target.Supplies f))
    (hx : ∀ id ∈ i.ids x, inj'.target.Supplies f id)
    (hinject : (inj'.inject tree x).2 = .ok next)
    (hlimit : inj'.target.header.bound.toNat +
      inj'.target.idsTaken next.target inj.interface.function ≤ UInt32.size) :
    ∃ block, next.target.functions[inj.interface.function]? = some { f with blocks := [block] } ∧
      Preceded (next.target.Supplies f) block.body ∧
      ∀ inst ∈ block.body, ∀ id ∈ inst.uses, ∀ b ∈ f.blocks, ¬ b.Defines id := by
  obtain ⟨hreflect, rfl, f₀, hlocated₀⟩ := Injector.create_eq_ok hcreate hm
  have htakes := Module.takes_of_reflect hreflect hlocated₀.function
  obtain ⟨hinterface, hkeeps, f', hlocated, hformals⟩ := hlocated₀.reaches hreaches
  rw [← hinterface] at hf hlimit htypes htakes ⊢
  cases hlocated.function.symm.trans hf
  refine hlocated.preceded_inject (fun p hp => ⟨?_, ?_⟩) htree hx hinject hlimit
  · obtain ⟨decl, hdecl⟩ := Option.isSome_iff_exists.1 (htypes p hp)
    exact .inl (Module.defines_of_global? (by simp [hkeeps _ _ hdecl]))
  · obtain ⟨formal, hformal, hid, -⟩ := htakes p hp
    rw [← hformals] at hformal
    have hne := hlocated.idWellFormed.toIdsDistinct.parameter_ne_zero (List.mem_of_getElem? hf)
      formal hformal
    exact .inr (.inl ⟨hid ▸ hne, formal, hformal, hid⟩)

/-- The larger one of a declared constant and of the product of the input with `x`, in steps. -/
def Tree.clampedProduct : Tree (.data .f32) .f32 :=
  .withInput (.step
    (.step (.empty (t := .f32)) (utf8 "product")
      (.arithmetic (t := .f32) .mul (.access inputName) (.parameter (utf8 "x") (0 : UInt32))))
    (utf8 "clamped") (.extremum .max (.access (utf8 "product")) (.ref 5)))

/-- After the successor and then this were injected. -/
def Injector.builtClamped : Injector :=
  builtInjected.commit { Module.built.withSuccessor with
    header := { version := ⟨1, 3⟩, bound := 26 }
    imports := [
      { opcode := .extInstImport, resultId := 24, operands := Literal.encode standardSet }]
    functions := Module.built.functions.set 0 { Function.built with
      blocks := [{ label := { opcode := .label, resultId := 21 }
                   body := [
                    { opcode := .compositeExtract, resultType := 1, resultId := 22
                      operands := [10, 1] },
                    { opcode := .fMul, resultType := 1, resultId := 23, operands := [19, 22] },
                    { opcode := .extInst, resultType := 1, resultId := 25
                      operands := [24, 40, 23, 5] },
                    { opcode := .returnValue, operands := [25] }] }] } }

theorem Tree.preceded_injected_clampedProduct :
    Module.built.IdWellFormed ∧ (Injector.create .built (utf8 "f")).2 = .ok .built ∧
      (∀ p ∈ Injector.built.interface.parameters, (Module.built.global? p.typeId).isSome) ∧
      Injector.built.Reaches .builtInjected ∧
      (Injector.builtInjected.inject Tree.clampedProduct 19).2 = .ok .builtClamped ∧
      ∃ f block, Injector.builtInjected.target.functions[0]? = some f ∧
        Tree.clampedProduct.RefersTo (Injector.builtInjected.target.Supplies f) ∧
        Injector.builtInjected.target.Supplies f 19 ∧
        Injector.builtClamped.target.functions[0]? = some { f with blocks := [block] } ∧
        Preceded (Injector.builtClamped.target.Supplies f) block.body ∧
        ∀ inst ∈ block.body, ∀ id ∈ inst.uses, ∀ b ∈ f.blocks, ¬ b.Defines id := by
  have hm : Module.built.IdWellFormed := by decide +kernel
  have hcreate : (Injector.create .built (utf8 "f")).2 = .ok .built := rfl
  have htypes : ∀ p ∈ Injector.built.interface.parameters,
      (Module.built.global? p.typeId).isSome := by decide
  have hsuccessor : (Injector.built.inject Tree.successor ()).2 = .ok .builtInjected :=
    Injector.inject_eq_commit (by decide +kernel)
  have hreaches : Injector.built.Reaches .builtInjected :=
    .inject .refl hsuccessor (by decide +kernel)
  have hinject : (Injector.builtInjected.inject Tree.clampedProduct 19).2 = .ok .builtClamped :=
    Injector.inject_eq_commit (by decide +kernel)
  obtain ⟨f, hf⟩ : ∃ f, Injector.builtInjected.target.functions[0]? = some f := ⟨_, rfl⟩
  have hconstant : Injector.builtInjected.target.Supplies f 5 := .inl (by decide +kernel)
  have hinput : Injector.builtInjected.target.Supplies f 19 := .inl (by decide +kernel)
  have htree : Tree.clampedProduct.RefersTo (Injector.builtInjected.target.Supplies f) := by
    simpa [Tree.clampedProduct, Tree.RefersTo, Tree.Respects, Chain.Respects] using hconstant
  obtain ⟨block, hblock⟩ := Tree.preceded_injected hm hcreate htypes hreaches hf htree
    (by simpa [Input.ids] using hinput) hinject (by decide +kernel)
  exact ⟨hm, hcreate, htypes, hreaches, hinject, f, block, hf, htree, hinput, hblock⟩

/-- An id that an input map makes up is returned, although nothing defines it. -/
theorem Injector.inject_conjured :
    Module.built.IdWellFormed ∧ (create .built (utf8 "f")).2 = .ok built ∧
      (∀ p ∈ built.interface.parameters, (Module.built.global? p.typeId).isSome) ∧
      built.Reaches builtInjected ∧
      (builtInjected.inject (Tree.conjured 999) ()).2 = .ok (builtReturning 999) ∧
      builtInjected.target.header.bound.toNat +
        builtInjected.target.idsTaken (builtReturning 999).target 0 ≤ UInt32.size ∧
      ∃ f block, (builtReturning 999).target.functions[0]? = some { f with blocks := [block] } ∧
        block.body = [{ opcode := .returnValue, operands := [999] }] ∧
        ¬ Preceded ((builtReturning 999).target.Supplies f) block.body ∧
        (builtReturning 999).target.definition? 999 = none := by
  have hsuccessor : (built.inject Tree.successor ()).2 = .ok builtInjected :=
    inject_eq_commit (by decide +kernel)
  refine ⟨by decide +kernel, rfl, by decide, .inject .refl hsuccessor (by decide +kernel),
    inject_eq_commit (by decide +kernel), by decide +kernel, .built, _, rfl, rfl, fun h => ?_,
    by decide +kernel⟩
  exact absurd (h [] _ [] rfl 999 (by decide)) (by decide +kernel)

end ShaderGraft
