import ShaderGraft.Proofs.DeclarationOrder

/-!
# Injecting a tree again

If a tree is injected twice in a row, the second injection finds all that the first one declared and
imported. What is left to do is the block, which has new ids and is otherwise the same: the main
statement is `Injector.inject_again`.

The two compilations are followed side by side (`Emit.Mirrors`). The first one may still have to
declare something where the second one does not, so ids are not at the same distance in both; they
correspond by their places in the block (`renumber`). As for types and uses, what is declared is
looked up in the module at the end of the first compilation.

Ids that come from outside of the tree mean something only as long as they are not also those of the
new block, which the second injection drops (`Injector.inject_again_captured`).
-/

namespace ShaderGraft

/-! ### Renaming -/

/-- The ids of a list renamed to those from `next` on, in the order of the list. -/
def renumber (ids : List ResultId) (next : Word) (id : ResultId) : ResultId :=
  if id ∈ ids then next + .ofNat (ids.idxOf id) else id

section

variable {ids : List ResultId} {next : Word} {id : ResultId}

theorem renumber_of_not_mem (h : id ∉ ids) : renumber ids next id = id :=
  if_neg h

theorem renumber_of_split {before after : List ResultId} (hids : ids = before ++ id :: after)
    (hid : id ∉ before) : renumber ids next id = next + .ofNat before.length := by
  subst hids
  rw [renumber, if_pos (by simp), List.idxOf_append_of_notMem hid, List.idxOf_cons_self,
    Nat.add_zero]

theorem renumber_head : renumber (id :: ids) next id = next := by
  simp [renumber]

theorem toNat_renumber (hid : id ∈ ids) (hlimit : next.toNat + ids.length ≤ UInt32.size) :
    (renumber ids next id).toNat = next.toNat + ids.idxOf id := by
  have hlt := List.idxOf_lt_length_of_mem hid
  rw [renumber, if_pos hid, toNat_add_ofNat (by omega)]

/-- Ids in ascending order stay in this order. -/
theorem renumber_lt (hids : ids.Pairwise (· < ·)) {id' : ResultId} (hid : id ∈ ids)
    (hid' : id' ∈ ids) (hlt : id < id') (hlimit : next.toNat + ids.length ≤ UInt32.size) :
    renumber ids next id < renumber ids next id' := by
  have hk := List.idxOf_lt_length_of_mem hid
  have hk' := List.idxOf_lt_length_of_mem hid'
  have hindex : ids.idxOf id < ids.idxOf id' := by
    rcases Nat.lt_trichotomy (ids.idxOf id) (ids.idxOf id') with h | h | h
    · exact h
    · rw [List.idxOf_inj hid] at h
      exact absurd hlt (h ▸ UInt32.lt_irrefl id)
    · have hgt := List.pairwise_iff_getElem.1 hids _ _ hk' hk h
      rw [List.getElem_idxOf, List.getElem_idxOf] at hgt
      exact absurd hlt (UInt32.lt_asymm hgt)
  rw [UInt32.lt_iff_toNat_lt, toNat_renumber hid hlimit, toNat_renumber hid' hlimit]
  omega

end

/-- The instruction with the id of its result and those among its operands renamed. Its type is not
one of the results that can be. -/
def Instruction.rename (ρ : ResultId → ResultId) (inst : Instruction) : Instruction where
  opcode := inst.opcode
  resultType := inst.resultType
  resultId := ρ inst.resultId
  operands := match inst.opcode, inst.operands with
    | .extInst, set :: number :: arguments => ρ set :: number :: arguments.map ρ
    | .compositeExtract, composite :: indices => ρ composite :: indices
    | _, operands => operands.map ρ

/-- The ids of the label and of the instructions, in order. -/
def Block.resultIds (b : Block) : List ResultId :=
  b.instructions.map Instruction.resultId

def Block.rename (ρ : ResultId → ResultId) (b : Block) : Block where
  label := b.label.rename ρ
  body := b.body.map (Instruction.rename ρ)

/-- The ids of a block, and only these, are renamed to ids from `next` on in the same order. -/
structure Block.Renews (b : Block) (ρ : ResultId → ResultId) (next : Word) : Prop where
  fixed : ∀ id, ¬ b.Defines id → ρ id = id
  fresh : ∀ id, b.Defines id → next ≤ ρ id
  increasing : ∀ id id', b.Defines id → b.Defines id' → id < id' → ρ id < ρ id'

theorem Block.Renews.of_renumber {b : Block} {ids : List ResultId} {next : Word}
    (hids : ∀ id, b.Defines id ↔ id ∈ ids) (hascending : ids.Pairwise (· < ·))
    (hlimit : next.toNat + ids.length ≤ UInt32.size) : b.Renews (renumber ids next) next where
  fixed := fun id hid => renumber_of_not_mem (mt (hids id).2 hid)
  fresh := fun id hid => by
    rw [UInt32.le_iff_toNat_le, toNat_renumber ((hids id).1 hid) hlimit]
    exact Nat.le_add_right ..
  increasing := fun id id' hid hid' hlt =>
    renumber_lt hascending ((hids id).1 hid) ((hids id').1 hid') hlt hlimit

namespace Context

variable (ρ : ResultId → ResultId)

def rename (known : Context) : Context where
  entries := known.entries.map fun entry => (entry.1, { entry.2 with id := ρ entry.2.id })

theorem find?_rename (known : Context) (name : Bytes) :
    (known.rename ρ).find? name = (known.find? name).map fun b => { b with id := ρ b.id } := by
  rcases known with ⟨entries⟩
  induction entries with
  | nil => rfl
  | cons entry entries ih =>
    rcases entry with ⟨key, b⟩
    simp only [find?, rename, List.map_cons, List.lookup_cons] at ih ⊢
    cases name == key with
    | true => rfl
    | false => exact ih

theorem get?_rename (known : Context) (name : Bytes) (type : HostType) :
    (known.rename ρ).get? name type = (known.get? name type).map ρ := by
  unfold get?
  rw [find?_rename]
  cases known.find? name with
  | none => rfl
  | some b =>
    by_cases htype : b.type = type
    · simp [htype]
    · simp [htype]

theorem contains_rename (known : Context) (name : Bytes) :
    (known.rename ρ).contains name = known.contains name := by
  rw [contains, find?_rename, Option.isSome_map, contains]

theorem rename_bind (known : Context) (name : Bytes) (b : Binding) :
    (known.bind name b).rename ρ = (known.rename ρ).bind name { b with id := ρ b.id } := by
  simp [bind, rename, List.filter_map, Function.comp_def]

end Context

def Input.rename (ρ : ResultId → ResultId) : (i : Input) → i.Value → i.Value
  | .none, _ => ()
  | .data _, id => ρ id
  | .context, known => known.rename ρ

/-- An input stays the same if its ids do. -/
theorem Input.rename_eq {ρ : ResultId → ResultId} {i : Input} {x : i.Value}
    (h : ∀ id ∈ i.ids x, ρ id = id) : i.rename ρ x = x := by
  cases i with
  | none => rfl
  | data t => exact h x (List.mem_singleton_self x)
  | context =>
    refine congrArg Context.mk ((List.map_congr_left fun entry hentry => ?_).trans (List.map_id _))
    rw [h entry.2.id (List.mem_map_of_mem hentry)]
    rfl

/-- A tree refers to nothing that is renamed, and its input maps do not depend on what ids they are
given. -/
def Tree.Equivariant (ρ : ResultId → ResultId) {i : Input} {t : HostType} (tree : Tree i t) :
    Prop :=
  tree.Respects (fun id _ => ρ id = id) fun i j f => ∀ x, f (i.rename ρ x) = j.rename ρ (f x)

def Chain.Equivariant (ρ : ResultId → ResultId) {t : HostType} (steps : Chain t) : Prop :=
  steps.Respects (fun id _ => ρ id = id) fun i j f => ∀ x, f (i.rename ρ x) = j.rename ρ (f x)

/-! ### Following a compilation -/

/-- A compilation whose module is known at the end, and that is done again. -/
structure Repetition where
  final : Module
  function : Function
  /-- What was compiled, without the return at its end. -/
  block : Block
  interface : Interface
  setName : Bytes
  idsDistinct : final.IdsDistinct
  parameters : ∀ p ∈ interface.parameters, final.Supplies function p.composite
  setName_readable : 0 ∉ setName
  nodup : block.resultIds.Nodup
  supplied : ∀ id, final.Supplies function id → id ∉ block.resultIds

namespace Repetition

variable (c : Repetition)

/-- What the ids of the block become. -/
def rename : ResultId → ResultId :=
  renumber c.block.resultIds c.final.header.bound

/-- Whether what there is after some compiling ends up in the final module. -/
structure Within (s : Serializer) : Prop where
  widens : s.builder.target.Widens c.final
  body : ∀ block, s.builder.selected? = some block → block.body <+: c.block.body

/-- Whether a second compilation is as far as the first one. -/
structure Follows (s s' : Serializer) : Prop where
  interface : s.interface = some c.interface
  interface' : s'.interface = some c.interface
  setName : s.setName = c.setName
  setName' : s'.setName = c.setName
  setImported : s.SetImported
  setId : s'.setId = s.setId
  capabilities : s'.builder.target.capabilities = c.final.capabilities
  imports : s'.builder.target.imports = c.final.imports
  globals : s'.builder.target.globals = c.final.globals
  block : ∃ block block', s.builder.selected? = some block ∧ s'.builder.selected? = some block' ∧
    block'.body = block.body.map (Instruction.rename c.rename) ∧
    s'.builder.target.header.bound = c.final.header.bound + .ofNat (block.body.length + 1)

variable {c}

theorem Within.of_grows {s t : Serializer} (ht : c.Within t) (h : s.Grows t) : c.Within s := by
  obtain ⟨n, hn⟩ := h.builder
  obtain ⟨a, ha, -⟩ := hn.eq_grow
  obtain ⟨hwidens, hbody⟩ := ht
  rw [ha] at hwidens hbody
  refine ⟨.trans ⟨List.prefix_append .., List.prefix_append .., List.prefix_append ..⟩ hwidens,
    fun block hsel => ?_⟩
  have hblock := hbody { block with body := block.body ++ a.body }
  rw [Builder.selected?_grow, hsel] at hblock
  exact (List.prefix_append ..).trans (hblock rfl)

/-- The second compilation has all declarations from the start. -/
theorem Follows.widens {s s' : Serializer} (h : c.Follows s s') :
    c.final.Widens s'.builder.target :=
  ⟨h.capabilities ▸ List.prefix_rfl, h.imports ▸ List.prefix_rfl, h.globals ▸ List.prefix_rfl⟩

/-- It has nothing to do when the first one declares something. -/
theorem Follows.declare {s s' : Serializer} {m : Module} (h : c.Follows s s')
    (hm : s.builder.target.Declares m) :
    c.Follows { s with builder := s.builder.withTarget m } s' where
  interface := h.interface
  interface' := h.interface'
  setName := h.setName
  setName' := h.setName'
  setImported := h.setImported.imp_right fun ⟨inst, hinst, h⟩ => ⟨inst, hm.imports.subset hinst, h⟩
  setId := h.setId
  capabilities := h.capabilities
  imports := h.imports
  globals := h.globals
  block := by
    obtain ⟨block, block', hsel, h⟩ := h.block
    refine ⟨block, block', ?_, h⟩
    rw [← hsel]
    simp only [Builder.selected?, Builder.withTarget, Module.block?, hm.functions]

/-- What can be used everywhere keeps its id. -/
theorem rename_supplied {id : ResultId} (h : c.final.Supplies c.function id) : c.rename id = id :=
  renumber_of_not_mem (c.supplied id h)

/-- The id of an instruction becomes that of its place. -/
theorem rename_body {before after : List Instruction} {inst : Instruction}
    (h : c.block.body = before ++ inst :: after) :
    c.rename inst.resultId = c.final.header.bound + .ofNat (before.length + 1) := by
  have hids : c.block.resultIds = (c.block.label :: before).map Instruction.resultId ++
      inst.resultId :: after.map Instruction.resultId := by
    simp [Block.resultIds, Block.instructions, h]
  have hnodup := c.nodup
  rw [hids, List.nodup_append] at hnodup
  have hnew : inst.resultId ∉ (c.block.label :: before).map Instruction.resultId :=
    fun hmem => hnodup.2.2 _ hmem _ (List.mem_cons_self ..) rfl
  rw [rename, renumber_of_split hids hnew, List.length_map, List.length_cons]

end Repetition

namespace Emit

variable {α β : Type} {c : Repetition}

/-- A step of compiling and a step that follows it: whenever the first one succeeds, so does the
second one, and its result is what the first one's becomes. -/
structure Mirrors (c : Repetition) (x x' : Emit α) (becomes : α → α) : Prop where
  growing : x.Growing
  run : ∀ s t a s', x.run s = .ok a t → c.Follows s s' → c.Within t →
    ∃ t', x'.run s' = .ok (becomes a) t' ∧ c.Follows t t'

theorem mirrors_pure {a a' : α} {becomes : α → α} (h : a' = becomes a) :
    Mirrors c (pure a) (pure a') becomes := by
  refine ⟨growing_pure a, fun s t b s' hrun hs _ => ?_⟩
  cases hrun
  exact ⟨s', h ▸ rfl, hs⟩

theorem mirrors_throw {becomes : α → α} (e : EmitError) (x' : Emit α) :
    Mirrors c (throw e) x' becomes := by
  refine ⟨growing_throw e, fun s t a s' hrun => ?_⟩
  cases hrun

theorem Mirrors.bind {x x' : Emit α} {f f' : α → Emit β} {becomes : α → α} {becomes' : β → β}
    (hx : Mirrors c x x' becomes) (hf : ∀ a, Mirrors c (f a) (f' (becomes a)) becomes') :
    Mirrors c (x >>= f) (x' >>= f') becomes' := by
  refine ⟨hx.growing.bind fun a => (hf a).growing, fun s t b s' hrun hs ht => ?_⟩
  rw [EStateM.run_bind] at hrun
  cases hx' : x.run s with
  | error e u => simp [hx'] at hrun
  | ok a u =>
    simp only [hx'] at hrun
    obtain ⟨u', hrun', hu⟩ := hx.run s u a s' hx' hs (ht.of_grows ((hf a).growing.grows hrun))
    obtain ⟨t', hrun'', ht'⟩ := (hf a).run u t b u' hrun hu ht
    refine ⟨t', ?_, ht'⟩
    rw [EStateM.run_bind, hrun']
    exact hrun''

theorem mirrors_throw_bind {becomes : β → β} (e : EmitError) {f : α → Emit β} {x' : Emit β}
    (hf : ∀ a, (f a).Growing) : Mirrors c (throw e >>= f) x' becomes := by
  refine ⟨(growing_throw e).bind hf, fun s t a s' hrun => ?_⟩
  cases hrun

theorem mirrors_tell (r r' : Record) : Mirrors c (tell r) (tell r') fun _ => () := by
  refine ⟨growing_tell r, fun s t a s' hrun hs _ => ?_⟩
  cases hrun
  exact ⟨_, rfl, ⟨hs.interface, hs.interface', hs.setName, hs.setName', hs.setImported, hs.setId,
    hs.capabilities, hs.imports, hs.globals, hs.block⟩⟩

theorem mirrors_get_bind {f : Serializer → Emit α} {becomes : α → α}
    (hgrowing : ∀ s, (f s).Growing)
    (hf : ∀ s s', s.interface = some c.interface → s'.interface = some c.interface →
      Mirrors c (f s) (f s') becomes) : Mirrors c (get >>= f) (get >>= f) becomes := by
  refine ⟨Growing.bind (fun s => .refl s) hgrowing, fun s t a s' hrun hs ht => ?_⟩
  exact (hf s s' hs.interface hs.interface').run s t a s' hrun hs ht

/-- What only declares finds everything the second time. -/
theorem Recalls.mirrors {x : Emit α} (hx : x.Recalls) (hgrowing : x.Growing) :
    Mirrors c x x fun a => a := by
  refine ⟨hgrowing, fun s t a s' hrun hs ht => ?_⟩
  obtain ⟨m, rfl, hdeclares, hagain⟩ := hx s a t hrun
  exact ⟨s', hagain s' (ht.widens.trans hs.widens), hs.declare hdeclares⟩

theorem mirrors_typeId (t : ValueType) : Mirrors c (typeId t) (typeId t) fun id => id :=
  (recalls_typeId t).mirrors (growing_typeId t)

/-- A constant is a declaration, which keeps its id. -/
theorem mirrors_constant (type : HostType) (v : type.Value) :
    Mirrors c (type.emit v) (type.emit v) c.rename := by
  refine ⟨type.growing_emit v, fun s t id s' hrun hs ht => ?_⟩
  obtain ⟨-, hlisted⟩ := type.registering_emit v s (List.nil_subset _)
  obtain ⟨inst, hinst, hlayout, rfl⟩ := hlisted id t hrun
  have hmem := ht.widens.globals.subset hinst
  have hne := c.idsDistinct.ne_zero inst (c.final.sublist_globals.subset hmem) hlayout
  rw [Repetition.rename_supplied (.inl ⟨hne, inst, hmem, rfl⟩)]
  exact ((type.recalls_emit v).mirrors (type.growing_emit v)).run s t _ s' hrun hs ht

theorem mirrors_instructionSet : Mirrors c instructionSet instructionSet c.rename := by
  refine ⟨growing_instructionSet, fun s t id s' hrun hs ht => ?_⟩
  have himported := (growing_instructionSet.grows hrun).setImported hs.setImported
  rw [run_instructionSet] at hrun
  rw [run_instructionSet, hs.setId, hs.setName'.trans hs.setName.symm]
  by_cases hset : s.setId = 0
  -- neither compilation has looked for the import yet, but the second one will find it
  · rw [if_pos hset] at hrun ⊢
    have hrecalls : (Declare.extInstImport s.setName).Recalls :=
      Declare.recalls_extInstImport (hs.setName ▸ c.setName_readable)
    obtain ⟨inst, hinst, hid, -⟩ := Declare.extInstImport_hasImport s.setName s.builder.target
    injection hrun with hid' ht'
    subst hid' ht'
    have hagain := hrecalls.again s.builder.target s'.builder.target (ht.widens.trans hs.widens)
    have himport := ht.widens.imports.subset hinst
    rw [hagain, Repetition.rename_supplied (.inr (.inr ⟨inst, himport, hid⟩))]
    have hdeclared := hs.declare (hrecalls.declares s.builder.target)
    exact ⟨_, rfl,
      { hdeclared with setName' := hs.setName, setImported := himported, setId := rfl }⟩
  · rw [if_neg hset] at hrun ⊢
    cases hrun
    obtain ⟨inst, hinst, hid, -⟩ := hs.setImported.resolve_left hset
    rw [Repetition.rename_supplied (.inr (.inr ⟨inst, ht.widens.imports.subset hinst, hid⟩))]
    exact ⟨s', rfl, hs⟩

/-- An instruction goes to the same place in the second block. -/
theorem mirrors_emit {op : Opcode} {type : ResultId} {operands operands' : List Word}
    (hlayout : op.layout = .typed) (hbody : op.IsBody) (hcall : op ≠ .functionCall)
    (hrename : ∀ id, Instruction.rename c.rename ⟨op, type, id, operands⟩ =
      ⟨op, type, c.rename id, operands'⟩) :
    Mirrors c (build (Build.emit op type operands)) (build (Build.emit op type operands'))
      c.rename := by
  have hgrowing := growing_emit op type operands hlayout hbody hcall
  refine ⟨hgrowing, fun s t id s' hrun hs ht => ?_⟩
  have himported := (hgrowing.grows hrun).setImported hs.setImported
  obtain ⟨block, block', hsel, hsel', hbodies, hbound⟩ := hs.block
  rw [run_build, Build.run_emit hsel] at hrun
  rw [run_build, Build.run_emit hsel']
  injection hrun with hid ht'
  subst hid ht'
  have hselected := Builder.selected?_appendTo hsel
    ⟨op, type, s.builder.target.header.bound, operands⟩ hlayout hcall
  have hselected' := Builder.selected?_appendTo hsel'
    ⟨op, type, s'.builder.target.header.bound, operands'⟩ hlayout hcall
  -- the id is known from where the instruction is in the whole block, not from the bound
  obtain ⟨after, hafter⟩ := ht.body _ hselected
  have hid : c.rename s.builder.target.header.bound = s'.builder.target.header.bound := by
    rw [hbound]
    exact Repetition.rename_body (hafter.symm.trans (List.append_assoc ..))
  rw [hid]
  refine ⟨_, rfl, { hs with
    setImported := himported, block := ⟨_, _, hselected, hselected', ?_, ?_⟩ }⟩
  · rw [List.map_append, List.map_singleton, hrename, hid, hbodies]
  · change s'.builder.target.header.bound + 1 = _
    rw [hbound, List.length_append, List.length_singleton,
      UInt32.ofNat_add (block.body.length + 1) 1, UInt32.add_assoc]
    rfl

/-! ### Nodes -/

theorem recalls_floatTypeId (node : String) (type : HostType) :
    (floatTypeId node type).Recalls := by
  refine (recalls_valueType type).bind fun t => ?_
  split
  · exact recalls_typeId t
  · exact recalls_throw _

theorem recalls_floatVector (node : String) (type : HostType) :
    (floatVector node type).Recalls := by
  refine (recalls_valueType type).bind fun t => ?_
  split
  · exact recalls_pure _
  · exact recalls_throw _

theorem mirrors_floatTypeId (node : String) (type : HostType) :
    Mirrors c (floatTypeId node type) (floatTypeId node type) fun id => id :=
  (recalls_floatTypeId node type).mirrors (compositional_growing.floatTypeId node type)

theorem mirrors_floatVector (node : String) (type : HostType) :
    Mirrors c (floatVector node type) (floatVector node type) fun count => count :=
  (recalls_floatVector node type).mirrors (compositional_growing.floatVector node type)

theorem mirrors_arithmetic (op : Arithmetic) (node : String) (type : HostType) (a b : ResultId) :
    Mirrors c
      (do
        let type ← floatTypeId node type
        build (Build.binary op.opcode type a b))
      (do
        let type ← floatTypeId node type
        build (Build.binary op.opcode type (c.rename a) (c.rename b)))
      c.rename := by
  refine (mirrors_floatTypeId node type).bind fun type => ?_
  refine mirrors_emit op.opcode_layout op.isBody_opcode op.opcode_ne_functionCall fun id => ?_
  cases op <;> rfl

/-- A function of the instruction set. Its number is not renamed. -/
theorem mirrors_extended {typeId : Emit ResultId} (h : Mirrors c typeId typeId fun id => id)
    (n : Word) (args : List ResultId) :
    Mirrors c
      (do
        let type ← typeId
        extended type n args)
      (do
        let type ← typeId
        extended type n (args.map c.rename))
      c.rename := by
  refine h.bind fun type => mirrors_instructionSet.bind fun set => ?_
  exact mirrors_emit (by decide) (by decide) (by decide) fun _ => rfl

theorem mirrors_select (v : ResultId) (index : Word) :
    Mirrors c
      (do
        let type ← typeId .f32
        build (Build.compositeExtract type v [index]))
      (do
        let type ← typeId .f32
        build (Build.compositeExtract type (c.rename v) [index]))
      c.rename := by
  refine (mirrors_typeId .f32).bind fun type => ?_
  exact mirrors_emit (by decide) (by decide) (by decide) fun _ => rfl

/-- Both compilations find the same parameter, or none. -/
theorem mirrors_parameter (name : Bytes) (type : HostType) (default : type.Value) :
    Mirrors c (parameter name type default) (parameter name type default) c.rename := by
  refine ((recalls_valueType type).mirrors (growing_valueType type)).bind fun t => ?_
  refine mirrors_get_bind (fun s => ?_) fun s s' hs hs' => ?_
  · split
    · exact growing_emit _ _ _ (by decide) (by decide)
    · exact (growing_tell _).bind fun _ => type.growing_emit default
  rw [hs, hs', Option.bind_some]
  cases hp : c.interface.parameter? (nameHash name) t with
  | none => exact (mirrors_tell _ _).bind fun _ => mirrors_constant type default
  | some p =>
    refine mirrors_emit (by decide) (by decide) (by decide) fun id => ?_
    change Instruction.mk _ _ _ [c.rename p.composite, 1] = _
    rw [Repetition.rename_supplied (c.parameters p (List.mem_of_find?_eq_some hp))]

theorem mirrors_access (known : Context) (name : Bytes) (type : HostType) :
    Mirrors c (access known name type) (access (known.rename c.rename) name type) c.rename := by
  unfold access
  rw [Context.get?_rename]
  cases known.get? name type with
  | none => exact mirrors_throw _ _
  | some id => exact mirrors_pure rfl

theorem mirrors_step (known : Context) (name : Bytes) (type : HostType) {x x' : Emit ResultId}
    (hx : Mirrors c x x' c.rename) :
    Mirrors c (step known name type x) (step (known.rename c.rename) name type x')
      fun r => (c.rename r.1, r.2.rename c.rename) := by
  refine hx.bind fun id => ?_
  have hresult : (c.rename id, (known.rename c.rename).bind name { id := c.rename id, type }) =
      (c.rename id, (known.bind name { id, type }).rename c.rename) := by
    rw [Context.rename_bind]
  rw [Context.contains_rename]
  split
  · exact (mirrors_tell _ _).bind fun _ => mirrors_pure hresult
  · exact mirrors_pure hresult

end Emit

/-! ### Trees -/

section

open Emit

variable {c : Repetition}

mutual

theorem Tree.mirrors_serialize {i : Input} {t : HostType} :
    (tree : Tree i t) → tree.Equivariant c.rename → (x : i.Value) →
      Mirrors c (tree.serialize x) (tree.serialize (i.rename c.rename x)) c.rename
  | .constant v, _, _ => by
    rw [Tree.serialize, Tree.serialize]
    exact mirrors_constant t v
  | .parameter name v, _, _ => by
    rw [Tree.serialize, Tree.serialize]
    exact mirrors_parameter name t v
  | .ref id, htree, _ => by
    rw [Tree.Equivariant, Tree.Respects] at htree
    rw [Tree.serialize, Tree.serialize]
    exact mirrors_pure htree.symm
  | .input, _, _ => by
    rw [Tree.serialize, Tree.serialize]
    exact mirrors_pure rfl
  | .arithmetic op a b, htree, x => by
    rw [Tree.Equivariant, Tree.Respects] at htree
    rw [Tree.serialize, Tree.serialize]
    refine (a.mirrors_serialize htree.1 x).bind fun ida => ?_
    refine (b.mirrors_serialize htree.2 x).bind fun idb => ?_
    exact mirrors_arithmetic op _ t ida idb
  | .extremum op a b, htree, x => by
    rw [Tree.Equivariant, Tree.Respects] at htree
    rw [Tree.serialize, Tree.serialize]
    refine (a.mirrors_serialize htree.1 x).bind fun ida => ?_
    refine (b.mirrors_serialize htree.2 x).bind fun idb => ?_
    exact mirrors_extended (mirrors_floatTypeId _ t) _ [ida, idb]
  | .square of, htree, x => by
    rw [Tree.Equivariant, Tree.Respects] at htree
    rw [Tree.serialize, Tree.serialize]
    refine (of.mirrors_serialize htree x).bind fun v => ?_
    exact mirrors_arithmetic .mul _ t v v
  | .elementary fn of, htree, x => by
    rw [Tree.Equivariant, Tree.Respects] at htree
    rw [Tree.serialize, Tree.serialize]
    refine (of.mirrors_serialize htree x).bind fun v => ?_
    exact mirrors_extended (mirrors_floatTypeId _ t) _ [v]
  | .normalize of, htree, x => by
    rw [Tree.Equivariant, Tree.Respects] at htree
    rw [Tree.serialize, Tree.serialize]
    refine (mirrors_floatVector _ t).bind fun count => ?_
    refine (of.mirrors_serialize htree x).bind fun v => ?_
    exact mirrors_extended (mirrors_typeId _) _ [v]
  | .cross a b, htree, x => by
    rw [Tree.Equivariant, Tree.Respects] at htree
    rw [Tree.serialize, Tree.serialize]
    refine (a.mirrors_serialize htree.1 x).bind fun ida => ?_
    refine (b.mirrors_serialize htree.2 x).bind fun idb => ?_
    exact mirrors_extended (mirrors_typeId _) _ [ida, idb]
  | .length of, htree, x => by
    rw [Tree.Equivariant, Tree.Respects] at htree
    rw [Tree.serialize, Tree.serialize]
    refine (mirrors_floatVector _ _).bind fun _ => ?_
    refine (of.mirrors_serialize htree x).bind fun v => ?_
    exact mirrors_extended (mirrors_typeId _) _ [v]
  | .select index of, htree, x => by
    rw [Tree.Equivariant, Tree.Respects] at htree
    rw [Tree.serialize, Tree.serialize]
    refine (mirrors_floatVector _ _).bind fun count => ?_
    split
    · exact mirrors_throw_bind _ fun _ =>
        (of.growing_serialize x).bind fun v => compositional_growing.select v index
    · exact (of.mirrors_serialize htree x).bind fun v => mirrors_select v index
  | .link first second, htree, x => by
    rw [Tree.Equivariant, Tree.Respects] at htree
    rw [Tree.serialize, Tree.serialize]
    exact (first.mirrors_serialize htree.1 x).bind fun y => second.mirrors_serialize htree.2 y
  | .mapInput f inner, htree, x => by
    rw [Tree.Equivariant, Tree.Respects] at htree
    rw [Tree.serialize, Tree.serialize, htree.1 x]
    exact inner.mirrors_serialize htree.2 (f x)
  | .access name, _, known => by
    rw [Tree.serialize, Tree.serialize]
    exact mirrors_access known name t
  | .chain steps, htree, known => by
    rw [Tree.Equivariant, Tree.Respects] at htree
    rw [Tree.serialize, Tree.serialize]
    exact steps.mirrors_serialize htree known
  | .detached steps, htree, _ => by
    rw [Tree.Equivariant, Tree.Respects] at htree
    rw [Tree.serialize]
    exact steps.mirrors_serialize htree .empty
  | .withInput steps, htree, x => by
    rw [Tree.Equivariant, Tree.Respects] at htree
    rw [Tree.serialize, Tree.serialize]
    exact steps.mirrors_serialize htree (Context.empty.bind inputName _)
  | .inspect names of, htree, known => by
    rw [Tree.Equivariant, Tree.Respects] at htree
    rw [Tree.serialize, Tree.serialize]
    exact (mirrors_tell _ _).bind fun _ => of.mirrors_serialize htree known
  | .missing, _, _ => by
    rw [Tree.serialize, Tree.serialize]
    exact mirrors_throw _ _

theorem Chain.mirrors_serialize {t : HostType} :
    (steps : Chain t) → steps.Equivariant c.rename → (known : Context) →
      Mirrors c (steps.serialize known) (steps.serialize (known.rename c.rename)) c.rename
  | .empty, _, _ => by
    rw [Chain.serialize, Chain.serialize]
    exact mirrors_throw _ _
  | .step before name op, hsteps, known => by
    rw [Chain.Equivariant, Chain.Respects] at hsteps
    rw [Chain.serialize, Chain.serialize]
    refine (before.mirrors_extend hsteps.1 known).bind fun known => ?_
    refine (mirrors_step known name t (op.mirrors_serialize hsteps.2 known)).bind fun r => ?_
    exact mirrors_pure rfl

theorem Chain.mirrors_extend {t : HostType} :
    (steps : Chain t) → steps.Equivariant c.rename → (known : Context) →
      Mirrors c (steps.extend known) (steps.extend (known.rename c.rename))
        (Context.rename c.rename)
  | .empty, _, _ => by
    rw [Chain.extend, Chain.extend]
    exact mirrors_pure rfl
  | .step before name op, hsteps, known => by
    rw [Chain.Equivariant, Chain.Respects] at hsteps
    rw [Chain.extend, Chain.extend]
    refine (before.mirrors_extend hsteps.1 known).bind fun known => ?_
    refine (mirrors_step known name t (op.mirrors_serialize hsteps.2 known)).bind fun r => ?_
    exact mirrors_pure rfl

end

end

/-! ### Ids of a block -/

theorem Function.mem_instructions_of_mem_block {f : Function} {b : Block} {inst : Instruction}
    (hb : b ∈ f.blocks) (hinst : inst ∈ b.instructions) : inst ∈ f.instructions := by
  refine List.mem_append_left _ (List.mem_append_right _ ?_)
  exact List.mem_flatMap.2 ⟨b, hb, hinst⟩

namespace Builder

theorem block_subset {b : Builder} {block : Block} (h : b.selected? = some block) :
    block.instructions ⊆ b.target.instructions := by
  obtain ⟨m, _ | f, _ | k⟩ := b
  · cases h
  · cases h
  · cases h
  change m.functions[f]?.bind (·.blocks[k]?) = some block at h
  obtain ⟨fn, hfn, hblock⟩ := Option.bind_eq_some_iff.1 h
  intro inst hinst
  exact Module.mem_instructions_of_mem_function (List.mem_of_getElem? hfn)
    (Function.mem_instructions_of_mem_block (List.mem_of_getElem? hblock) hinst)

variable {n limit : Nat} {b b' : Builder} {block block' : Block}

/-- A new instruction has the largest id so far. -/
theorem Step.ascending (h : Step n b b') (hlimit : limit + n ≤ UInt32.size)
    (hb : b.target.IdsBelow limit) (hsel : b.selected? = some block)
    (hsel' : b'.selected? = some block') (hblock : block.resultIds.Pairwise (· < ·)) :
    block'.resultIds.Pairwise (· < ·) := by
  cases h with
  | global | extInstImport | capability =>
    cases hsel.symm.trans hsel'
    exact hblock
  | spend hnone => cases hsel.symm.trans hnone
  | @emit _ _ inst _ hid hlayout _ hcall =>
    cases (selected?_appendTo hsel inst hlayout hcall).symm.trans hsel'
    have hids : Block.resultIds { block with body := block.body ++ [inst] } =
        block.resultIds ++ [inst.resultId] := by
      simp [Block.resultIds, Block.instructions]
    rw [hids]
    refine List.pairwise_append.2 ⟨hblock, List.pairwise_singleton .., fun id hmem last hlast => ?_⟩
    cases List.mem_singleton.1 hlast
    obtain ⟨other, hother, rfl⟩ := List.mem_map.1 hmem
    rw [hid, UInt32.lt_iff_toNat_lt, hb.toNat_bound (by omega)]
    exact hb.below other (block_subset hsel hother)

theorem Grows.ascending (h : Grows n b b') (hlimit : limit + n ≤ UInt32.size)
    (hb : b.target.IdsBelow limit) (hsel : b.selected? = some block)
    (hsel' : b'.selected? = some block') (hblock : block.resultIds.Pairwise (· < ·)) :
    block'.resultIds.Pairwise (· < ·) := by
  induction h generalizing block' with
  | refl =>
    cases hsel.symm.trans hsel'
    exact hblock
  | @tail n k b u u' hgrows hstep ih =>
    obtain ⟨a, rfl, -⟩ := hgrows.eq_grow
    have hselected := selected?_grow b n a
    rw [hsel] at hselected
    exact hstep.ascending (by omega) (hgrows.idsBelow (by omega) hb) hselected hsel'
      (ih (by omega) hb hsel hselected)

end Builder

/-- What a function can use everywhere is not what its blocks define. -/
theorem Module.IdsDistinct.not_defines_of_supplies {m : Module} {f : Function} {b : Block}
    {id : ResultId} (hm : m.IdsDistinct) (hf : f ∈ m.functions) (hb : b ∈ f.blocks)
    (h : m.Supplies f id) : ¬ b.Defines id := by
  intro hdefines
  obtain ⟨hne, inst, hinst, rfl⟩ : id ≠ 0 ∧ ∃ inst ∈ b.instructions, inst.resultId = id := by
    rcases hdefines with rfl | ⟨hne, inst, hinst, hid⟩
    · have hlabel := hm.outline f hf b.label (List.mem_append_right _ (List.mem_map_of_mem hb))
      exact ⟨hlabel, b.label, List.mem_cons_self .., rfl⟩
    · exact ⟨hne, inst, List.mem_cons_of_mem _ hinst, hid⟩
  have hmem : inst ∈ m.functions.flatMap Function.instructions :=
    List.mem_flatMap.2 ⟨f, hf, Function.mem_instructions_of_mem_block hb hinst⟩
  obtain ⟨-, hfunctions, hapart⟩ := List.pairwise_append.1 hm.distinct
  rcases h with ⟨-, other, hother, hid⟩ | ⟨-, other, hother, hid⟩ | ⟨other, hother, hid⟩
  · have happart := hapart other (List.mem_append_right _ hother) inst hmem hid
    exact hne (hid ▸ happart)
  · have hfunction : f.instructions.Pairwise Instruction.Apart :=
      hfunctions.sublist (List.sublist_flatten_of_mem (List.mem_map_of_mem hf))
    obtain ⟨-, -, hinside⟩ := List.pairwise_append.1 (List.pairwise_append.1 hfunction).1
    have happart := hinside other (List.mem_cons_of_mem _ hother) inst
      (List.mem_flatMap.2 ⟨b, hb, hinst⟩) hid
    exact hne (hid ▸ happart)
  · have happart := hapart other (by simp [declarations, hother]) inst hmem hid
    exact hne (hid ▸ happart)

/-! ### Injections -/

namespace Module

/-- Whether the names and annotations are about ids below the bound. -/
def TargetsBelow (m : Module) : Prop :=
  ∀ inst ∈ m.names ++ m.annotations, ∀ id ∈ inst.operands.head?, id < m.header.bound

instance (m : Module) : Decidable m.TargetsBelow :=
  decidable_of_iff ((m.names ++ m.annotations).all fun inst =>
    inst.operands.head?.all (· < m.header.bound)) (by
      simp only [TargetsBelow, List.all_eq_true, Option.all_eq_true, decide_eq_true_eq,
        Option.mem_def])

theorem checkReturnType_of_denotes {m : Module} {f : Function} {t : HostType} {type : ValueType}
    (ht : t.valueType = .ok type) (h : m.Denotes f.definition.resultType type) :
    m.checkReturnType f t = .ok () := by
  obtain ⟨decl, hdecl, htype⟩ := h
  simp only [checkReturnType, ht, hdecl, htype, HostType.same_self ht, if_true]
  rfl

/-- A tree that can be the body of a function can still be when there are more declarations. -/
theorem Keeps.checkReturnType {m m' : Module} (h : m.Keeps m') {f f' : Function} {t : HostType}
    (hf : f'.definition = f.definition) (hcheck : m.checkReturnType f t = .ok ()) :
    m'.checkReturnType f' t = .ok () := by
  cases ht : t.valueType with
  | error unsupported =>
    unfold Module.checkReturnType at hcheck
    rw [ht] at hcheck
    cases hcheck
  | ok type =>
    have hdenotes := h.denotes (checkReturnType_eq_ok hcheck ht)
    exact checkReturnType_of_denotes ht (hf ▸ hdenotes)

/-- The block of a compiled tree before it returns. -/
def compiledBlock (m : Module) (a : Additions) : Block where
  label := { opcode := .label, resultId := m.header.bound }
  body := a.body

theorem defines_graftedBlock {m : Module} {a : Additions} {result id : ResultId}
    (hbody : ∀ inst ∈ a.body, inst.resultId ≠ 0) :
    (m.graftedBlock a.body result).Defines id ↔ id ∈ (m.compiledBlock a).resultIds := by
  simp only [Block.Defines, graftedBlock, Block.resultIds, Block.instructions, compiledBlock,
    List.map_cons, List.mem_cons, List.mem_map, List.mem_append, List.not_mem_nil, or_false]
  constructor
  · rintro (rfl | ⟨hne, inst, hinst | rfl, rfl⟩)
    · exact .inl rfl
    · exact .inr ⟨inst, hinst, rfl⟩
    · exact absurd rfl hne
  · rintro (rfl | ⟨inst, hinst, rfl⟩)
    · exact .inl rfl
    · exact .inr ⟨hbody inst hinst, inst, .inl hinst, rfl⟩

/-- Nothing is about a block whose ids are new. -/
theorem filter_isAbout {insts : List Instruction} {f : Function}
    (h : ∀ inst ∈ insts, ∀ id ∈ inst.operands.head?, ∀ b ∈ f.blocks, ¬ b.Defines id) :
    insts.filter (! isAbout (definedIn f.blocks) ·) = insts := by
  refine List.filter_eq_self.2 fun inst hinst => ?_
  rw [isAbout_definedIn, Bool.not_eq_true', decide_eq_false_iff_not]
  rintro ⟨id, hid, b, hb, hdefines⟩
  exact h inst hinst id hid b hb hdefines

/-- What an injection that declares nothing and removes no names commits. -/
theorem graft_of_body {m : Module} {index n : Nat} {f : Function} {a : Additions}
    {result : ResultId}
    (hcapabilities : a.capabilities = []) (himports : a.imports = []) (hglobals : a.globals = [])
    (hn : n = a.imports.length + a.globals.length + a.body.length)
    (htargets : ∀ inst ∈ m.names ++ m.annotations, ∀ id ∈ inst.operands.head?, ∀ b ∈ f.blocks,
      ¬ b.Defines id) :
    m.graft index f n a result = { m with
      header.bound := m.header.bound + .ofNat (m.graftedBlock a.body result).body.length
      functions := m.functions.set index { f with blocks := [m.graftedBlock a.body result] } } := by
  have hnames := filter_isAbout fun inst hinst => htargets inst (List.mem_append_left _ hinst)
  have hannotations := filter_isAbout fun inst hinst =>
    htargets inst (List.mem_append_right _ hinst)
  have hlength : (m.graftedBlock a.body result).body.length = 1 + n := by
    simp [hn, himports, hglobals, graftedBlock, Nat.add_comm]
  have hbound : m.header.bound + 1 + .ofNat n = m.header.bound + .ofNat (1 + n) := by
    rw [UInt32.ofNat_add, UInt32.add_assoc]
    rfl
  rw [graft, hcapabilities, himports, hglobals, hnames, hannotations, hlength, hbound]
  simp only [List.append_nil]

end Module

namespace Injector

/-- An injection into a function of the right type is committed if the tree compiles. -/
theorem inject_of_run {inj : Injector} {index : Nat} {f : Function} {i : Input} {t : HostType}
    {tree : Tree i t} {x : i.Value} {result : ResultId} {s : Serializer}
    (hindex : inj.target.functionWithId? inj.functionId = some index)
    (hf : inj.target.functions[index]? = some f)
    (hcheck : inj.target.checkReturnType f t = .ok ())
    (hrun : (tree.serialize x).run (inj.opened index f) = .ok result s) :
    ∃ next, (inj.inject tree x).2 = .ok next := by
  obtain ⟨n, hn⟩ := ((tree.growing_serialize x).grows hrun).builder
  obtain ⟨a, ha, -⟩ := hn.eq_grow
  have hsel := selected?_opened_grow hf n a
  rw [← ha] at hsel
  have hcompile : ∃ s', (inj.compile index tree x).run { builder := { target := inj.target } } =
      .ok () s' := by
    simp only [compile, EStateM.run_bind, run_start hf, hrun, Emit.run_build, Build.returnValue,
      Build.run_insert hsel]
    exact ⟨_, rfl⟩
  obtain ⟨s', hcompile⟩ := hcompile
  obtain ⟨_, _, _, _, -, -, -, -, htarget⟩ := compile_eq_ok hf hcompile
  obtain ⟨hlt, -⟩ := List.getElem?_eq_some_iff.1 hf
  unfold inject
  simp only [hindex, hf, hcheck, hcompile, htarget, Module.functions_compiled,
    List.getElem?_set_self hlt]
  exact ⟨_, rfl⟩

theorem setName_opened_readable {inj : Injector} {index : Nat} {f : Function}
    (hset : 0 ∉ inj.instructionSet) : 0 ∉ (inj.opened index f).setName := by
  change 0 ∉ if inj.instructionSet.isEmpty then standardSet else inj.instructionSet
  split
  · decide +kernel
  · exact hset

/-- A committed injection that can be done again. `a` is what was compiled for it. -/
structure Repeatable (inj : Injector) (index : Nat) (f : Function) (n : Nat) (a : Additions)
    (result : ResultId) : Prop where
  function : inj.target.functions[index]? = some f
  parameters : ∀ p ∈ inj.interface.parameters, inj.target.Supplies f p.composite
  setName_readable : 0 ∉ inj.instructionSet
  idsDistinct : (inj.target.graft index f n a result).IdsDistinct
  ascending : (inj.target.compiledBlock a).resultIds.Pairwise (· < ·)

namespace Repeatable

variable {inj : Injector} {index n : Nat} {f : Function} {a : Additions} {result : ResultId}

section

variable (h : inj.Repeatable index f n a result)
include h

theorem function_injected : (inj.target.graft index f n a result).functions[index]? =
    some { f with blocks := [inj.target.graftedBlock a.body result] } :=
  Module.getElem?_functions_graft h.function n a result

theorem defines_iff (id : ResultId) : (inj.target.graftedBlock a.body result).Defines id ↔
    id ∈ (inj.target.compiledBlock a).resultIds := by
  refine Module.defines_graftedBlock fun inst hinst => ?_
  have hmem := List.mem_of_getElem? h.function_injected
  refine h.idsDistinct.ne_zero inst (Module.mem_instructions_of_mem_function hmem ?_)
    (by simp [a.typed inst hinst])
  exact Function.mem_instructions_of_mem_body (List.mem_singleton_self _)
    (List.mem_append_left _ hinst)

/-- The ids of a compiled tree are new. The first one is that of the label. -/
theorem not_defines_of_lt {id : ResultId} (hid : id < inj.target.header.bound) :
    ¬ (inj.target.graftedBlock a.body result).Defines id := by
  rw [h.defines_iff]
  intro hmem
  rcases List.mem_cons.1 hmem with rfl | hmem
  · exact UInt32.lt_irrefl _ hid
  · exact UInt32.lt_asymm hid ((List.pairwise_cons.1 h.ascending).1 id hmem)

theorem not_defines_of_supplies {id : ResultId}
    (hid : (inj.target.graft index f n a result).Supplies f id) :
    ¬ (inj.target.graftedBlock a.body result).Defines id :=
  h.idsDistinct.not_defines_of_supplies (List.mem_of_getElem? h.function_injected)
    (List.mem_singleton_self _) hid

end

/-- The second compilation of the tree, as one that follows the first. -/
def repetition (h : inj.Repeatable index f n a result) : Repetition where
  final := inj.target.graft index f n a result
  function := { f with blocks := [inj.target.graftedBlock a.body result] }
  block := inj.target.compiledBlock a
  interface := inj.interface
  setName := (inj.opened index f).setName
  idsDistinct := h.idsDistinct
  parameters := fun p hp =>
    (h.parameters p hp).mono (List.subset_append_left ..) (List.subset_append_left ..)
  setName_readable := setName_opened_readable h.setName_readable
  nodup := h.ascending.imp UInt32.ne_of_lt
  supplied := fun id hid hmem => h.not_defines_of_supplies hid ((h.defines_iff id).2 hmem)

section

variable (h : inj.Repeatable index f n a result)

/-- At the start of the second compilation everything is declared. -/
theorem follows_opened : h.repetition.Follows (inj.opened index f)
    ((inj.commit h.repetition.final).opened index h.repetition.function) where
  interface := rfl
  interface' := rfl
  setName := rfl
  setName' := rfl
  setImported := .inl rfl
  setId := rfl
  capabilities := rfl
  imports := rfl
  globals := rfl
  block := ⟨_, _, selected?_opened h.function, selected?_opened h.function_injected, rfl, rfl⟩

/-- The tree compiles again, to the same instructions with other ids and without any declaration. -/
theorem serialize {i : Input} {t : HostType} {tree : Tree i t} {x : i.Value} {s : Serializer}
    (htree : tree.Equivariant h.repetition.rename) (hx : i.rename h.repetition.rename x = x)
    (hrun : (tree.serialize x).run (inj.opened index f) = .ok result s)
    (ha : s.builder = (inj.opened index f).builder.grow n a) :
    ∃ s', (tree.serialize x).run
        ((inj.commit h.repetition.final).opened index h.repetition.function) =
          .ok (h.repetition.rename result) s' ∧
      ∀ n' a', s'.builder =
          ((inj.commit h.repetition.final).opened index h.repetition.function).builder.grow n' a' →
        a'.capabilities = [] ∧ a'.imports = [] ∧ a'.globals = [] ∧
          a'.body = a.body.map (Instruction.rename h.repetition.rename) := by
  have hsel := selected?_opened_grow h.function n a
  rw [← ha] at hsel
  have hwithin : h.repetition.Within s := by
    refine ⟨?_, fun block hblock => ?_⟩
    · rw [ha]
      exact ⟨List.prefix_rfl, List.prefix_rfl, List.prefix_rfl⟩
    · cases hsel.symm.trans hblock
      exact List.prefix_rfl
  obtain ⟨s', hrun', hs'⟩ :=
    (tree.mirrors_serialize htree x).run _ s result _ hrun h.follows_opened hwithin
  rw [hx] at hrun'
  refine ⟨s', hrun', fun n' a' ha' => ?_⟩
  obtain ⟨block, block', hblock, hblock', hbodies, -⟩ := hs'.block
  have hcapabilities := hs'.capabilities
  have himports := hs'.imports
  have hglobals := hs'.globals
  rw [ha'] at hcapabilities himports hglobals hblock'
  rw [selected?_opened_grow h.function_injected] at hblock'
  cases hsel.symm.trans hblock
  cases hblock'
  exact ⟨List.append_right_eq_self.1 hcapabilities, List.append_right_eq_self.1 himports,
    List.append_right_eq_self.1 hglobals, hbodies⟩

theorem rename_graftedBlock (hbound : inj.target.header.bound ≠ 0) :
    (inj.target.graftedBlock a.body result).rename h.repetition.rename =
      h.repetition.final.graftedBlock (a.body.map (Instruction.rename h.repetition.rename))
        (h.repetition.rename result) := by
  have hzero : h.repetition.rename 0 = 0 := by
    have hnew := h.not_defines_of_lt (UInt32.pos_iff_ne_zero.2 hbound)
    exact renumber_of_not_mem (mt (h.defines_iff 0).2 hnew)
  have hlabel : h.repetition.rename inj.target.header.bound = h.repetition.final.header.bound :=
    renumber_head
  generalize h.repetition.rename = ρ at hzero hlabel ⊢
  have hfirst : Instruction.rename ρ { opcode := .label, resultId := inj.target.header.bound } =
      { opcode := .label, resultId := ρ inj.target.header.bound } := rfl
  have hreturn : Instruction.rename ρ { opcode := .returnValue, operands := [result] } =
      { opcode := .returnValue, resultId := ρ 0, operands := [ρ result] } := rfl
  simp only [Module.graftedBlock, Block.rename, List.map_append, List.map_singleton, hreturn,
    hfirst, hlabel, hzero]

/-- There is nothing about the block that a second injection drops. -/
theorem not_about (htargets : inj.target.TargetsBelow) :
    ∀ inst ∈ h.repetition.final.names ++ h.repetition.final.annotations,
      ∀ id ∈ inst.operands.head?, ∀ b ∈ h.repetition.function.blocks, ¬ b.Defines id := by
  intro inst hinst id hid b hb
  cases List.mem_singleton.1 hb
  refine h.not_defines_of_lt (htargets inst ?_ id hid)
  exact List.mem_append.2 ((List.mem_append.1 hinst).imp (List.mem_of_mem_filter ·)
    (List.mem_of_mem_filter ·))

/-- What the injection commits when it is done again. -/
theorem inject {i : Input} {t : HostType} {tree : Tree i t} {x : i.Value} {s : Serializer}
    (hindex : h.repetition.final.functionWithId? inj.functionId = some index)
    (hbound : inj.target.header.bound ≠ 0) (htargets : inj.target.TargetsBelow)
    (hcheck : inj.target.checkReturnType f t = .ok ())
    (htree : tree.Equivariant h.repetition.rename) (hx : i.rename h.repetition.rename x = x)
    (hrun : (tree.serialize x).run (inj.opened index f) = .ok result s)
    (ha : s.builder = (inj.opened index f).builder.grow n a) :
    ∃ again, ((inj.commit h.repetition.final).inject tree x).2 = .ok again ∧
      again.target = { h.repetition.final with
        header.bound := h.repetition.final.header.bound +
          .ofNat (inj.target.graftedBlock a.body result).body.length
        functions := h.repetition.final.functions.set index { f with
          blocks := [(inj.target.graftedBlock a.body result).rename h.repetition.rename] } } := by
  obtain ⟨s', hrun', hadded⟩ := h.serialize htree hx hrun ha
  have hkeeps : inj.target.Keeps h.repetition.final := .of_globals (List.prefix_append ..)
  obtain ⟨again, hagain⟩ :=
    inject_of_run hindex h.function_injected (hkeeps.checkReturnType rfl hcheck) hrun'
  refine ⟨again, hagain, ?_⟩
  -- what it commits is what the second compilation added
  obtain ⟨_, _, _, _, n', a', hindex', hg, -, hrun'', -, ha', hn, rfl⟩ :=
    inject_eq_ok (Prod.ext rfl hagain)
  cases hindex.symm.trans hindex'
  cases h.function_injected.symm.trans hg
  cases hrun'.symm.trans hrun''
  obtain ⟨hcapabilities, himports, hglobals, hbody⟩ := hadded n' a' ha'
  have hlength :
      (h.repetition.final.graftedBlock a'.body (h.repetition.rename result)).body.length =
        (inj.target.graftedBlock a.body result).body.length := by
    simp [Module.graftedBlock, hbody]
  change h.repetition.final.graft _ h.repetition.function n' a' (h.repetition.rename result) = _
  rw [Module.graft_of_body hcapabilities himports hglobals hn (h.not_about htargets), hlength,
    hbody, h.rename_graftedBlock hbound]
  rfl

theorem renews (hlimit : h.repetition.final.header.bound.toNat +
      (inj.target.graftedBlock a.body result).body.length ≤ UInt32.size) :
    (inj.target.graftedBlock a.body result).Renews h.repetition.rename
      h.repetition.final.header.bound := by
  refine .of_renumber h.defines_iff h.ascending ?_
  simpa [repetition, Block.resultIds, Block.instructions, Module.compiledBlock,
    Module.graftedBlock] using hlimit

end

end Repeatable

/-- The first of two injections. -/
theorem Located.repeatable {inj next : Injector} {f : Function} {i : Input} {t : HostType}
    {tree : Tree i t} {x : i.Value} (h : inj.Located f)
    (hparameters : ∀ p ∈ inj.interface.parameters, inj.target.Supplies f p.composite)
    (hset : 0 ∉ inj.instructionSet) (hinject : (inj.inject tree x).2 = .ok next)
    (hlimit : inj.target.header.bound.toNat +
      inj.target.idsTaken next.target inj.interface.function < UInt32.size) :
    ∃ n a result s, next = inj.commit (inj.target.graft inj.interface.function f n a result) ∧
      inj.Repeatable inj.interface.function f n a result ∧
      inj.target.checkReturnType f t = .ok () ∧
      (tree.serialize x).run (inj.opened inj.interface.function f) = .ok result s ∧
      s.builder = (inj.opened inj.interface.function f).builder.grow n a := by
  obtain ⟨-, _, -, hnext⟩ := h.inject hinject hlimit
  obtain ⟨_, _, result, s, n, a, hindex, hg, hcheck, hrun, hgrows, ha, hn, rfl⟩ :=
    inject_eq_ok (Prod.ext rfl hinject)
  cases h.functionWithId?_eq.symm.trans hindex
  cases h.function.symm.trans hg
  have hf := h.function
  change _ + inj.target.idsTaken (inj.target.graft _ f n a result) _ < _ at hlimit
  rw [Module.idsTaken_graft n a result hf hn] at hlimit
  have hascending : (inj.target.compiledBlock a).resultIds.Pairwise (· < ·) := by
    refine hgrows.ascending (by omega) (h.idWellFormed.idsBelow.openBlock (by omega) hf)
      (selected?_opened hf) ?_ (List.pairwise_singleton ..)
    rw [ha]
    exact selected?_opened_grow hf n a
  exact ⟨n, a, result, s, rfl,
    ⟨hf, hparameters, hset, hnext.idWellFormed.toIdsDistinct, hascending⟩, hcheck, hrun, ha⟩

theorem Located.inject_twice {inj next : Injector} {f : Function} {block : Block} {i : Input}
    {t : HostType} {tree : Tree i t} {x : i.Value} (h : inj.Located f)
    (hparameters : ∀ p ∈ inj.interface.parameters, inj.target.Supplies f p.composite)
    (htargets : inj.target.TargetsBelow) (hset : 0 ∉ inj.instructionSet)
    (hinject : (inj.inject tree x).2 = .ok next)
    (hblock : next.target.functions[inj.interface.function]? = some { f with blocks := [block] })
    (hx : ∀ id ∈ i.ids x, ¬ block.Defines id)
    (htree : ∀ ρ, (∀ id, ¬ block.Defines id → ρ id = id) → tree.Equivariant ρ)
    (hfirst : inj.target.header.bound.toNat +
      inj.target.idsTaken next.target inj.interface.function < UInt32.size)
    (hsecond : next.target.header.bound.toNat + block.body.length ≤ UInt32.size) :
    ∃ again ρ, (next.inject tree x).2 = .ok again ∧ block.Renews ρ next.target.header.bound ∧
      (∀ id, next.target.Supplies f id → ρ id = id) ∧
      again.target = { next.target with
        header.bound := next.target.header.bound + .ofNat block.body.length
        functions := next.target.functions.set inj.interface.function
          { f with blocks := [block.rename ρ] } } := by
  obtain ⟨-, _, -, hnext⟩ := h.inject hinject hfirst
  obtain ⟨n, a, result, s, rfl, hrepeatable, hcheck, hrun, ha⟩ :=
    h.repeatable hparameters hset hinject hfirst
  have hblocks := hrepeatable.function_injected.symm.trans hblock
  obtain rfl : inj.target.graftedBlock a.body result = block :=
    List.head_eq_of_cons_eq (congrArg Function.blocks (Option.some.inj hblocks))
  have hrenews := hrepeatable.renews hsecond
  obtain ⟨again, hagain, htarget⟩ := hrepeatable.inject hnext.functionWithId?_eq
    h.idWellFormed.bound_ne_zero htargets hcheck (htree _ hrenews.fixed)
    (Input.rename_eq fun id hid => hrenews.fixed id (hx id hid)) hrun ha
  refine ⟨again, _, hagain, hrenews, fun id hid => hrenews.fixed id ?_, htarget⟩
  exact hrepeatable.not_defines_of_supplies hid

/-- **Injecting a tree again adds nothing but new ids.** The interface was reflected from a module
with well-formed ids, the names and annotations of the module are about ids below its bound, and the
name of the instruction set has no zero bytes. If a tree is injected, after any number of
injections, and neither its input nor the tree depends on the ids of the new block, then the same
injection is committed once more. All that it changes is the bound and the block, in which the label
and the results have new ids in the same order. -/
theorem inject_again {m : Module} {name : Bytes} {options : Options} {inj₀ inj next : Injector}
    {f : Function} {block : Block} {i : Input} {t : HostType} {tree : Tree i t} {x : i.Value}
    (hm : m.IdWellFormed) (hcreate : (create m name options).2 = .ok inj₀)
    (hreaches : inj₀.Reaches inj) (htargets : inj.target.TargetsBelow)
    (hset : 0 ∉ inj.instructionSet)
    (hf : inj.target.functions[inj.interface.function]? = some f)
    (hinject : (inj.inject tree x).2 = .ok next)
    (hblock : next.target.functions[inj.interface.function]? = some { f with blocks := [block] })
    (hx : ∀ id ∈ i.ids x, ¬ block.Defines id)
    (htree : ∀ ρ, (∀ id, ¬ block.Defines id → ρ id = id) → tree.Equivariant ρ)
    (hfirst : inj.target.header.bound.toNat +
      inj.target.idsTaken next.target inj.interface.function < UInt32.size)
    (hsecond : next.target.header.bound.toNat + block.body.length ≤ UInt32.size) :
    ∃ again ρ, (next.inject tree x).2 = .ok again ∧ block.Renews ρ next.target.header.bound ∧
      (∀ id, next.target.Supplies f id → ρ id = id) ∧
      again.target = { next.target with
        header.bound := next.target.header.bound + .ofNat block.body.length
        functions := next.target.functions.set inj.interface.function
          { f with blocks := [block.rename ρ] } } := by
  obtain ⟨hreflect, rfl, f₀, hlocated₀⟩ := create_eq_ok hcreate hm
  have htakes := Module.takes_of_reflect hreflect hlocated₀.function
  obtain ⟨hinterface, -, f', hlocated, hformals⟩ := hlocated₀.reaches hreaches
  cases hlocated.function.symm.trans hf
  refine hlocated.inject_twice (fun p hp => ?_) htargets hset hinject hblock hx htree hfirst hsecond
  rw [hinterface] at hp
  obtain ⟨formal, hformal, hid, -⟩ := htakes p hp
  rw [← hformals] at hformal
  have hne := hlocated.idWellFormed.toIdsDistinct.parameter_ne_zero (List.mem_of_getElem? hf)
    formal hformal
  exact .inr (.inl ⟨hid ▸ hne, formal, hformal, hid⟩)

end Injector

/-- The product of the input with `x`, but at least `1`. -/
def Tree.scaled : Tree (.data .f32) .f32 :=
  .extremum .max (.arithmetic .mul .input (.parameter (utf8 "x") (0 : UInt32)))
    (.constant (0x3f800000 : UInt32))

/-- What it compiles to for the input 5, when the constant and the instruction set have the ids 20
and 21. -/
def Block.scaled (label product result : ResultId) : Block where
  label := { opcode := .label, resultId := label }
  body := [
    { opcode := .compositeExtract, resultType := 1, resultId := label + 1, operands := [10, 1] },
    { opcode := .fMul, resultType := 1, resultId := product, operands := [5, label + 1] },
    { opcode := .extInst, resultType := 1, resultId := result, operands := [21, 40, product, 20] },
    { opcode := .returnValue, operands := [result] }]

namespace Injector

/-- After it was injected. -/
def builtScaled : Injector :=
  built.commit { Module.built with
    header.bound := 23
    imports := [
      { opcode := .extInstImport, resultId := 21, operands := Literal.encode standardSet }]
    globals := Module.built.globals ++ [
      { opcode := .constant, resultType := 1, resultId := 20, operands := [0x3f800000] }]
    functions := Module.built.functions.set 0
      { Function.built with blocks := [.scaled 17 19 22] } }

/-- The constant and the instruction set have ids between those of the block only the first time. -/
theorem inject_again_scaled : ∃ again ρ,
    (built.inject Tree.scaled (5 : UInt32)).2 = .ok builtScaled ∧
    (builtScaled.inject Tree.scaled (5 : UInt32)).2 = .ok again ∧
    (Block.scaled 17 19 22).Renews ρ 23 ∧
    again.target = { builtScaled.target with
      header.bound := 27
      functions := Module.built.functions.set 0
        { Function.built with blocks := [(Block.scaled 17 19 22).rename ρ] } } := by
  have hinject : (built.inject Tree.scaled (5 : UInt32)).2 = .ok builtScaled :=
    inject_eq_commit (by decide +kernel)
  have htree (ρ : ResultId → ResultId) : Tree.scaled.Equivariant ρ := by
    simp [Tree.scaled, Tree.Equivariant, Tree.Respects]
  have hcreate : (create .built (utf8 "f")).2 = .ok built := rfl
  obtain ⟨again, ρ, hagain, hrenews, -, htarget⟩ := inject_again (by decide +kernel) hcreate .refl
    (by decide +kernel) List.not_mem_nil rfl hinject rfl
    (List.forall_mem_singleton.2 (by decide +kernel)) (fun ρ _ => htree ρ) (by decide +kernel)
    (by decide +kernel)
  exact ⟨again, ρ, hinject, hagain, hrenews, htarget⟩

end Injector

/-- The input twice. -/
def Tree.doubled : Tree (.data .f32) .f32 :=
  .arithmetic .add .input .input

/-- What it compiles to for the input 18. -/
def Block.doubled (label result : ResultId) : Block where
  label := { opcode := .label, resultId := label }
  body := [
    { opcode := .fAdd, resultType := 1, resultId := result, operands := [18, 18] },
    { opcode := .returnValue, operands := [result] }]

/-- The module that has this for the body of its first function. -/
def Module.builtDoubled (bound label result : ResultId) : Module := { Module.built with
  header.bound := bound
  functions := Module.built.functions.set 0
    { Function.built with blocks := [.doubled label result] } }

namespace Injector

/-- If the input is the id of the result, the second block refers to the result of the first one. No
renaming of the first block gives the second one. -/
theorem inject_again_captured :
    Module.built.IdWellFormed ∧ Module.built.TargetsBelow ∧
      (create .built (utf8 "f")).2 = .ok built ∧
      (built.inject Tree.doubled (18 : UInt32)).2 = .ok (built.commit (.builtDoubled 19 17 18)) ∧
      ((built.commit (.builtDoubled 19 17 18)).inject Tree.doubled (18 : UInt32)).2 =
        .ok ((built.commit (.builtDoubled 19 17 18)).commit (.builtDoubled 21 19 20)) ∧
      ∀ ρ, (Block.doubled 17 18).rename ρ ≠ .doubled 19 20 := by
  refine ⟨by decide +kernel, by decide +kernel, rfl, inject_eq_commit (by decide +kernel),
    inject_eq_commit (by decide +kernel), fun ρ h => ?_⟩
  have hbody := congrArg (fun b => b.body.map Instruction.operands) h
  obtain ⟨hoperand, hresult⟩ : ρ 18 = 18 ∧ ρ 18 = 20 := by
    simpa [Block.rename, Instruction.rename, Block.doubled] using hbody
  exact absurd (hoperand.symm.trans hresult) (by decide)

end Injector

end ShaderGraft
