import ShaderGraft.Proofs.Freshness
import ShaderGraft.Proofs.Literals
import ShaderGraft.Proofs.TypeIdentity

/-!
# Declarations are shared

A type, a constant, an import or a capability that a module has is not added again. What was found
or added once is found again in every module that has at least the same declarations, in the same
order: a step that only declares gives the same result there and changes nothing
(`Declare.Recalls`, `Emit.Recalls`).

Nothing that can be done with a module takes a declaration away or moves it (`Evolves.widens`), not
even calls of a builder that put instructions with ids of the caller's choice into a block. Such ids
may clash with others, but not within the declarations, which are all that types and constants are
read from; so ids are kept apart in the `Module.heading` only. The main statement is
`ValueType.declare_canonical`: at any two points of a run, two types have the same id exactly if
they are the same.
-/

namespace ShaderGraft

namespace Module

/-- Whether one module begins with the capabilities, imports and declarations of another. -/
structure Widens (m m' : Module) : Prop where
  capabilities : m.capabilities <+: m'.capabilities
  imports : m.imports <+: m'.imports
  globals : m.globals <+: m'.globals

theorem Widens.refl (m : Module) : m.Widens m :=
  ⟨List.prefix_rfl, List.prefix_rfl, List.prefix_rfl⟩

theorem Widens.trans {m m' m'' : Module} (h : m.Widens m') (h' : m'.Widens m'') : m.Widens m'' :=
  ⟨h.capabilities.trans h'.capabilities, h.imports.trans h'.imports, h.globals.trans h'.globals⟩

theorem Widens.takeId (m : Module) : m.Widens m.takeId :=
  ⟨List.prefix_rfl, List.prefix_rfl, List.prefix_rfl⟩

theorem Widens.append (m : Module) (inst : Instruction) (s : Section) :
    m.Widens (m.append inst s) := by
  cases s with
  | capabilities => exact ⟨List.prefix_append .., List.prefix_rfl, List.prefix_rfl⟩
  | imports => exact ⟨List.prefix_rfl, List.prefix_append .., List.prefix_rfl⟩
  | globals => exact ⟨List.prefix_rfl, List.prefix_rfl, List.prefix_append ..⟩
  | _ => exact ⟨List.prefix_rfl, List.prefix_rfl, List.prefix_rfl⟩

/-- Whether all that happens between two modules is that something is declared. -/
structure Declares (m m' : Module) : Prop extends m.Widens m' where
  functions : m'.functions = m.functions

theorem Declares.refl (m : Module) : m.Declares m :=
  ⟨.refl m, rfl⟩

theorem Declares.trans {m m' m'' : Module} (h : m.Declares m') (h' : m'.Declares m'') :
    m.Declares m'' :=
  ⟨h.toWidens.trans h'.toWidens, h'.functions.trans h.functions⟩

theorem Declares.append (m : Module) (inst : Instruction) (s : Section) :
    m.Declares (m.append inst s) := by
  refine ⟨.append m inst s, ?_⟩
  cases s <;> rfl

theorem Declares.takeId_append (m : Module) (inst : Instruction) (s : Section) :
    m.Declares (m.takeId.append inst s) :=
  .trans ⟨.takeId m, rfl⟩ (.append m.takeId inst s)

theorem Adds.widens {inst : Instruction} {m m' : Module} (h : Adds inst m m') : m.Widens m' := by
  cases h with
  | within => exact .append ..
  | function | inside => exact ⟨List.prefix_rfl, List.prefix_rfl, List.prefix_rfl⟩

theorem Changes.widens {given : Instruction → Prop} {kind : Module → ResultId → Prop}
    {m m' : Module} {n : Nat} (h : Changes given kind m n m') : m.Widens m' := by
  induction h with
  | refl => exact .refl _
  | take _ ih => exact ih.trans (.takeId _)
  | memoryModel _ _ _ ih => exact ⟨ih.capabilities, ih.imports, ih.globals⟩
  | new _ _ _ hadds ih => exact (ih.trans (.takeId _)).trans hadds.widens
  | put _ _ hadds ih => exact ih.trans hadds.widens

end Module

/-! ### Steps that find what they declared -/

namespace Declare

variable {α β : Type}

/-- A step that only declares, and that does nothing where its declarations are. -/
structure Recalls (x : Declare α) : Prop where
  declares : ∀ m : Module, m.Declares (x.run m).2
  again : ∀ m m' : Module, (x.run m).2.Widens m' → x.run m' = ((x.run m).1, m')

theorem recalls_pure (a : α) : Recalls (pure a : Declare α) :=
  ⟨fun m => .refl m, fun _ _ _ => rfl⟩

theorem Recalls.bind {x : Declare α} {f : α → Declare β} (hx : x.Recalls)
    (hf : ∀ a, (f a).Recalls) : (x >>= f).Recalls := by
  have hnext (m : Module) := (hf (x.run m).1).declares (x.run m).2
  refine ⟨fun m => (hx.declares m).trans (hnext m), fun m m' h => ?_⟩
  have hfirst := hx.again m m' ((hnext m).toWidens.trans h)
  have hsecond := (hf (x.run m).1).again (x.run m).2 m' h
  change (f (x.run m').1).run (x.run m').2 = _
  rw [hfirst]
  exact hsecond

theorem Recalls.map {x : Declare α} (hx : x.Recalls) (f : α → β) : (f <$> x).Recalls := by
  rw [map_eq_pure_bind]
  exact hx.bind fun a => recalls_pure (f a)

theorem find?_extended {as bs : List α} {p : α → Bool} {a : α} (h : as <+: bs)
    (ha : as.find? p = some a) : bs.find? p = some a := by
  obtain ⟨rest, rfl⟩ := h
  rw [List.find?_append, ha, Option.some_or]

theorem find?_concat {as : List α} {p : α → Bool} {a : α} (hnone : as.find? p = none)
    (ha : p a = true) : (as ++ [a]).find? p = some a := by
  simp [List.find?_append, hnone, ha]

theorem recalls_global (op : Opcode) (type : ResultId) (operands : List Word) :
    (global op type operands).Recalls := by
  refine ⟨fun m => ?_, fun m m' h => ?_⟩
  · rw [run_global]
    cases m.globals.find? (declares op type operands) with
    | some inst => exact .refl m
    | none => exact Module.Declares.takeId_append m _ .globals
  · rw [run_global] at h
    rw [run_global op type operands m', run_global op type operands m]
    cases hfind : m.globals.find? (declares op type operands) with
    | some inst =>
      rw [hfind] at h
      rw [find?_extended h.globals hfind]
    | none =>
      rw [hfind] at h
      have hadded := find?_concat hfind
        (a := { opcode := op, resultType := type, resultId := m.header.bound, operands })
        (by simp [declares])
      rw [find?_extended h.globals hadded]

theorem recalls_capability (c : Word) : (capability c).Recalls := by
  refine ⟨fun m => ?_, fun m m' h => ?_⟩
  · rw [run_capability]
    split
    · exact .refl m
    · exact Module.Declares.append m _ .capabilities
  · rw [run_capability] at h
    rw [run_capability c m']
    refine Prod.ext rfl (if_pos ?_)
    split at h
    · rename_i hany
      rw [List.any_eq_true] at hany ⊢
      obtain ⟨inst, hinst, hc⟩ := hany
      exact ⟨inst, h.capabilities.subset hinst, hc⟩
    · rw [List.any_eq_true]
      exact ⟨_, h.capabilities.subset (List.mem_append_right _ (List.mem_singleton_self _)),
        by simp⟩

/-- An import is found by the name that is read from it. -/
theorem recalls_extInstImport {name : Bytes} (hname : 0 ∉ name) :
    (extInstImport name).Recalls := by
  refine ⟨fun m => ?_, fun m m' h => ?_⟩
  · rw [run_extInstImport]
    cases m.imports.find? _ with
    | some inst => exact .refl m
    | none => exact Module.Declares.takeId_append m _ .imports
  · rw [run_extInstImport] at h
    rw [run_extInstImport name m', run_extInstImport name m]
    cases hfind : m.imports.find? (fun inst => (Literal.decode inst.operands).1 == name) with
    | some inst =>
      rw [hfind] at h
      rw [find?_extended h.imports hfind]
    | none =>
      rw [hfind] at h
      have hadded := find?_concat hfind (a := {
          opcode := .extInstImport
          resultId := m.header.bound
          operands := Literal.encode name })
        (by simp [Literal.decode_encode hname])
      rw [find?_extended h.imports hadded]

/-- A type that needs a capability if it has 64 bits. -/
theorem recalls_sized (op : Opcode) (width c : Word) (operands : List Word) :
    Recalls (do
      if width = 64 then capability c
      global op 0 operands) := by
  by_cases hw : width = 64
  · simp only [if_pos hw]
    exact (recalls_capability c).bind fun _ => recalls_global ..
  · simp only [if_neg hw]
    exact recalls_global ..

end Declare

namespace ValueType

open Declare

mutual

theorem recalls_declare : (t : ValueType) → t.declare.Recalls
  | .void | .bool => by
    unfold declare
    exact (recalls_global ..).map some
  | .int _ width | .float width => by
    unfold declare
    exact (recalls_sized _ width _ _).map some
  | .vector elem count => by
    unfold declare
    refine (recalls_declare elem).bind fun component? => ?_
    cases component? with
    | none => exact recalls_pure none
    | some component => exact (recalls_global ..).bind fun id => recalls_pure (some id)
  | .matrix elem columns rows => by
    unfold declare
    refine (recalls_declare elem).bind fun component? => ?_
    cases component? with
    | none => exact recalls_pure none
    | some component =>
      exact (recalls_global ..).bind fun column =>
        (recalls_global ..).bind fun id => recalls_pure (some id)
  | .struct fields => by
    unfold declare
    refine (recalls_declareAll fields).bind fun members? => ?_
    cases members? with
    | none => exact recalls_pure none
    | some members => exact (recalls_global ..).bind fun id => recalls_pure (some id)
  | .array elem count => by
    unfold declare
    refine (recalls_declare elem).bind fun element? => ?_
    cases element? with
    | none => exact recalls_pure none
    | some element =>
      refine (recalls_sized _ 32 int64Capability _).bind fun type => ?_
      refine (recalls_global ..).bind fun length => ?_
      exact (recalls_global ..).bind fun id => recalls_pure (some id)
  | .missing | .literalFloat32 _ | .literalFloat64 _ | .literalInt32 _ | .literalInt64 _ => by
    unfold declare
    exact recalls_pure none

theorem recalls_declareAll : (ts : List ValueType) → (declareAll ts).Recalls
  | [] => by
    unfold declareAll
    exact recalls_pure _
  | t :: ts => by
    unfold declareAll
    refine (recalls_declare t).bind fun id? => ?_
    cases id? with
    | none => exact recalls_pure none
    | some id =>
      refine (recalls_declareAll ts).bind fun ids? => ?_
      cases ids? with
      | none => exact recalls_pure none
      | some ids => exact recalls_pure _

end

end ValueType

/-! ### Constants -/

namespace Emit

variable {α β : Type}

/-- A step of compiling that only declares, and that does nothing where its declarations are. -/
def Recalls (x : Emit α) : Prop :=
  ∀ s a t, x.run s = .ok a t → ∃ m, t = { s with builder := s.builder.withTarget m } ∧
    s.builder.target.Declares m ∧ ∀ s', m.Widens s'.builder.target → x.run s' = .ok a s'

theorem recalls_pure (a : α) : Recalls (pure a : Emit α) := by
  intro s b t hrun
  cases hrun
  exact ⟨_, rfl, .refl _, fun _ _ => rfl⟩

theorem recalls_throw (e : EmitError) : Recalls (throw e : Emit α) := by
  intro s a t hrun
  cases hrun

theorem Recalls.bind {x : Emit α} {f : α → Emit β} (hx : x.Recalls) (hf : ∀ a, (f a).Recalls) :
    (x >>= f).Recalls := by
  intro s b t hrun
  rw [EStateM.run_bind] at hrun
  cases hx' : x.run s with
  | error e u => simp [hx'] at hrun
  | ok a u =>
    simp only [hx'] at hrun
    obtain ⟨m, rfl, hdeclares, hagain⟩ := hx s a u hx'
    obtain ⟨m', rfl, hdeclares', hagain'⟩ := hf a _ b t hrun
    refine ⟨m', rfl, hdeclares.trans hdeclares', fun s' h => ?_⟩
    rw [EStateM.run_bind, hagain s' (hdeclares'.toWidens.trans h)]
    exact hagain' s' h

theorem Recalls.mapM {f : α → Emit β} (hf : ∀ a, (f a).Recalls) (as : List α) :
    (as.mapM f).Recalls := by
  induction as with
  | nil => exact recalls_pure []
  | cons a as ih =>
    rw [List.mapM_cons]
    exact (hf a).bind fun b => ih.bind fun bs => recalls_pure (b :: bs)

theorem recalls_declare {x : Declare α} (hx : x.Recalls) : (declare x).Recalls := by
  intro s a t hrun
  rw [run_declare] at hrun
  injection hrun with ha ht
  subst ha ht
  refine ⟨_, rfl, hx.declares _, fun s' h => ?_⟩
  rw [run_declare, hx.again _ _ h]
  rfl

theorem recalls_typeId (t : ValueType) : (typeId t).Recalls := by
  refine (recalls_declare t.recalls_declare).bind fun id? => ?_
  cases id? with
  | none => exact recalls_throw _
  | some id => exact recalls_pure id

theorem recalls_valueType (type : HostType) : (valueType type).Recalls := by
  unfold valueType
  split
  · exact recalls_pure _
  · exact recalls_throw _

theorem recalls_global (op : Opcode) (type : ResultId) (operands : List Word) :
    (declare (Declare.global op type operands)).Recalls :=
  recalls_declare (Declare.recalls_global op type operands)

end Emit

open Emit in
theorem Scalar.recalls_emit (s : Scalar) (v : s.Value) : (s.emit v).Recalls := by
  refine (recalls_typeId _).bind fun type => ?_
  cases s with
  | bool => cases v <;> exact recalls_global _ _ _
  | _ => exact recalls_global _ _ _

open Emit in
theorem Scalar.recalls_emitVector (s : Scalar) (vs : List s.Value) :
    (s.emitVector vs).Recalls := by
  refine (recalls_typeId _).bind fun type => ?_
  exact (Recalls.mapM s.recalls_emit vs).bind fun parts => recalls_global _ _ _

open Emit in
theorem recalls_emitMatrix (n : Nat) (elements : List UInt32) :
    (emitMatrix n elements).Recalls := by
  refine (recalls_typeId _).bind fun type => (recalls_typeId _).bind fun columnType => ?_
  refine (recalls_typeId _).bind fun elementType => ?_
  refine (Recalls.mapM (fun c => ?_) _).bind fun columns => recalls_global _ _ _
  exact (Recalls.mapM (fun _ => recalls_global _ _ _) _).bind fun parts => recalls_global _ _ _

open Emit in
/-- A constant is found with all its parts. -/
theorem HostType.recalls_emit (type : HostType) (v : type.Value) : (type.emit v).Recalls := by
  unfold HostType.emit
  split
  · exact Scalar.recalls_emit _ _
  · exact Scalar.recalls_emit _ _
  · exact Scalar.recalls_emitVector _ _
  · exact Scalar.recalls_emitVector _ _
  · exact Scalar.recalls_emitVector _ _
  · exact Scalar.recalls_emitVector _ _
  · exact recalls_emitMatrix _ _
  · exact recalls_emitMatrix _ _
  · exact recalls_emitMatrix _ _
  · exact (recalls_valueType _).bind fun _ => Scalar.recalls_emitVector _ _
  · exact (recalls_valueType _).bind fun _ => Scalar.recalls_emitVector _ _
  · split
    · exact recalls_throw _
    · exact recalls_throw _

/-! ### Runs -/

namespace Module

/-- The module less all that has nothing to do with declarations. -/
def heading (m : Module) : Module where
  header := m.header
  globals := m.globals

/-- What compiling can do to a module, and the number of ids that it takes. An injection that is not
committed does nothing. -/
inductive Compiles : Nat → Module → Module → Prop where
  | task (task : Task) (s : Serializer) : Compiles (task.idsTaken s) s.builder.target (task.after s)
  | inject {inj next : Injector} {index : Nat} {i : Input} {t : HostType} {tree : Tree i t}
      {input : i.Value} : (inj.inject tree input).2 = .ok next →
      inj.target.functionWithId? inj.functionId = some index →
      Compiles (inj.target.idsTaken next.target index) inj.target next.target
  | refuse {inj : Injector} {e : Halt InjectError} {i : Input} {t : HostType} {tree : Tree i t}
      {input : i.Value} : (inj.inject tree input).2 = .error e → Compiles 0 inj.target inj.target

/-- What can be done with a module, by compiling or by any call of a builder, and the number of ids
that it takes. -/
inductive Evolves : Nat → Module → Module → Prop where
  | compile {n : Nat} {m m' : Module} : Compiles n m m' → Evolves n m m'
  | call (c : Builder.Call) (b : Builder) : Evolves (c.idsTaken b) b.target (c.after b).target

/-- Any number of steps of a kind, and the number of ids that they take. -/
inductive Runs (step : Nat → Module → Module → Prop) (m : Module) : Nat → Module → Prop where
  | refl : Runs step m 0 m
  | tail {n k : Nat} {m' m'' : Module} : Runs step m n m' → step k m' m'' → Runs step m (n + k) m''

end Module

theorem Builder.Call.target_given {c : Call} {inst : Instruction} (h : c.given? = some inst)
    (b : Builder) : ∃ functions, (c.after b).target = { b.target with functions } := by
  cases c with
  | insert =>
    rw [after, run, Build.endState_map]
    cases hsel : b.selected? with
    | none =>
      obtain ⟨e, he⟩ := Build.run_insert_none hsel _
      exact ⟨_, by rw [endState, he]⟩
    | some block => exact ⟨_, by rw [endState, Build.run_insert hsel]; rfl⟩
  | beginBlockWithLabel label =>
    rw [after, run, Build.endState_map]
    by_cases hf : ∃ index f, b.selection.function = some index ∧
        b.target.functions[index]? = some f
    · obtain ⟨index, f, hindex, hf⟩ := hf
      exact ⟨_, by rw [endState, Build.run_beginBlockWithLabel hindex hf]⟩
    · have hgone (index : Nat) (hindex : b.selection.function = some index) :
          b.target.functions[index]? = none := by
        cases hget : b.target.functions[index]? with
        | none => rfl
        | some f => exact absurd ⟨index, f, hindex, hget⟩ hf
      obtain ⟨e, he⟩ := Build.run_beginBlockWithLabel_none hgone label
      exact ⟨_, by rw [endState, he]⟩
  | _ => cases h

namespace Module

variable {n : Nat} {m m' : Module}

theorem Compiles.changes (h : Compiles n m m') :
    ∃ kind c names annotations functions, m.Changes Instruction.Plain kind n c ∧
      m' = { c with names, annotations, functions } := by
  cases h with
  | task task s =>
    obtain ⟨kind, hchanges⟩ := task.changes s
    exact ⟨kind, _, _, _, _, hchanges, rfl⟩
  | @inject inj next index _ _ _ _ hinject hindex =>
    obtain ⟨index', f, n, a, result, hindex', hf, hchanges, -, hnext, htaken⟩ :=
      Injector.changes_inject (Prod.ext rfl hinject)
    cases hindex.symm.trans hindex'
    rw [htaken, hnext]
    exact ⟨_, _, _, _, _, hchanges, rfl⟩
  | refuse => exact ⟨fun _ _ => True, _, _, _, _, .refl, rfl⟩

/-- All that can happen besides changes is that functions, names and annotations are replaced. -/
theorem Evolves.changes (h : Evolves n m m') :
    ∃ kind c names annotations functions, m.Changes Instruction.Plain kind n c ∧
      m' = { c with names, annotations, functions } := by
  cases h with
  | compile h => exact h.changes
  | call c b =>
    cases hgiven : c.given? with
    | none => exact ⟨_, _, _, _, _, (c.changes hgiven b).1, rfl⟩
    | some inst =>
      obtain ⟨functions, htarget⟩ := Builder.Call.target_given hgiven b
      rw [Builder.Call.idsTaken_given hgiven, htarget]
      exact ⟨fun _ _ => True, _, _, _, _, .refl, rfl⟩

theorem Evolves.widens (h : Evolves n m m') : m.Widens m' := by
  obtain ⟨kind, c, names, annotations, functions, hchanges, rfl⟩ := h.changes
  have hwidens := hchanges.widens
  exact ⟨hwidens.capabilities, hwidens.imports, hwidens.globals⟩

theorem Runs.widens (h : Runs Evolves m n m') : m.Widens m' := by
  induction h with
  | refl => exact .refl m
  | tail _ hstep ih => exact ih.trans hstep.widens

/-! ### Ids within the declarations -/

@[simp] theorem instructions_heading (m : Module) : m.heading.instructions = m.globals := by
  simp [instructions, declarations, heading]

theorem IdsBelow.heading {limit : Nat} (hm : m.IdsBelow limit) : m.heading.IdsBelow limit := by
  refine hm.sublist ?_ rfl (by simp [Module.heading])
  rw [instructions_heading]
  exact m.sublist_globals

theorem Adds.heading {inst : Instruction} (h : Adds inst m m') :
    m'.heading = m.heading ∨ Adds inst m.heading m'.heading := by
  cases h with
  | @within s hs =>
    cases s with
    | globals => exact .inr (.within hs)
    | _ => exact .inl rfl
  | function | inside => exact .inl rfl

theorem Changes.heading {given : Instruction → Prop} {kind : Module → ResultId → Prop}
    (h : Changes given kind m n m') : m.heading.Changes given (fun _ _ => True) n m'.heading := by
  induction h with
  | refl => exact .refl
  | take _ ih => exact ih.take
  | memoryModel _ _ _ ih => exact ih
  | new _ hid htyped hadds ih =>
    rcases hadds.heading with hsame | hadds
    · -- the id is used outside of the declarations
      rw [hsame]
      exact ih.take
    · exact ih.new hid (htyped.imp_right fun h => ⟨h.1, trivial⟩) hadds
  | put _ hinst hadds ih =>
    rcases hadds.heading with hsame | hadds
    · rw [hsame]
      exact ih
    · exact ih.put hinst hadds

theorem Evolves.heading (h : Evolves n m m') :
    m.heading.Changes Instruction.Plain (fun _ _ => True) n m'.heading := by
  obtain ⟨kind, c, names, annotations, functions, hchanges, rfl⟩ := h.changes
  exact hchanges.heading

theorem Runs.heading (h : Runs Evolves m n m') :
    m.heading.Changes Instruction.Plain (fun _ _ => True) n m'.heading := by
  induction h with
  | refl => exact .refl
  | tail _ hstep ih => exact ih.trans hstep.heading

theorem Denotes.unique {id : ResultId} {t t' : ValueType} (h : m.Denotes id t)
    (h' : m.Denotes id t') : t = t' := by
  obtain ⟨decl, hdecl, htype⟩ := h
  obtain ⟨decl', hdecl', htype'⟩ := h'
  cases hdecl.symm.trans hdecl'
  exact Except.ok.inj (htype.symm.trans htype')

end Module

namespace ValueType

theorem changes_declare {m m' : Module} {t : ValueType} {id? : Option ResultId}
    (h : t.declare.run m = (id?, m')) :
    ∃ kind, m.Changes Instruction.Plain kind (m'.extent - m.extent) m' := by
  have hextending : t.declare.Extending [] [] (Declared []) := t.extending_declare
  obtain ⟨⟨⟨n, hchanges, hextent⟩, -⟩, -⟩ := hextending m (List.nil_subset _)
  rw [h] at hchanges hextent
  change m'.extent = m.extent + n at hextent
  rw [hextent, Nat.add_sub_cancel_left]
  exact ⟨_, hchanges⟩

/-- **Type ids are canonical.** Two types that can be declared are given the same id, whatever
happens between the two declarations, exactly if they are the same; and a type that was declared
before is found without any change to the module. -/
theorem declare_canonical {m m₁ m₂ m₃ : Module} {t₁ t₂ : ValueType} {id₁? id₂? : Option ResultId}
    {k : Nat} (hm : m.IdWellFormed) (ht₁ : t₁.Concrete) (ht₂ : t₂.Concrete)
    (h₁ : t₁.declare.run m = (id₁?, m₁)) (hruns : Module.Runs Module.Evolves m₁ k m₂)
    (h₂ : t₂.declare.run m₂ = (id₂?, m₃))
    (hlimit : m.header.bound.toNat + (m₁.extent - m.extent) + k + (m₃.extent - m₂.extent) ≤
      UInt32.size) :
    ∃ id₁ id₂, id₁? = some id₁ ∧ id₂? = some id₂ ∧ (id₁ = id₂ ↔ t₁.same t₂ = true) ∧
      (t₁.same t₂ = true → m₃ = m₂) := by
  have hanswers₁ := (t₁.answers_declare m).2 ht₁
  have hanswers₂ := (t₂.answers_declare m₂).2 ht₂
  rw [h₁] at hanswers₁
  rw [h₂] at hanswers₂
  obtain ⟨id₁, rfl⟩ := Option.isSome_iff_exists.1 hanswers₁
  obtain ⟨id₂, rfl⟩ := Option.isSome_iff_exists.1 hanswers₂
  -- both ids are read in the last module, in whose heading ids are distinct
  obtain ⟨kind₁, hchanges₁⟩ := changes_declare h₁
  obtain ⟨kind₂, hchanges₂⟩ := changes_declare h₂
  have hbelow := ((hchanges₁.heading.trans hruns.heading).trans hchanges₂.heading).idsBelow
    hm.idsBelow.heading (by omega) fun _ h => h
  have hdistinct := hbelow.toIdsDistinct
  have hwidens : m₁.Widens m₃ := hruns.widens.trans hchanges₂.widens
  have hdenotes₁ : m₃.heading.Denotes id₁ t₁ := by
    obtain ⟨-, -, hdenotes⟩ := t₁.settles_declare hdistinct m
    rw [h₁] at hdenotes
    exact hdenotes hwidens.globals id₁ rfl
  have hdenotes₂ : m₃.heading.Denotes id₂ t₂ := by
    obtain ⟨-, -, hdenotes⟩ := t₂.settles_declare hdistinct m₂
    rw [h₂] at hdenotes
    exact hdenotes List.prefix_rfl id₂ rfl
  have hagain (hsame : t₁.same t₂ = true) : (some id₂, m₃) = (some id₁, m₂) := by
    have hrun := t₁.recalls_declare.again m m₂ (by rw [h₁]; exact hruns.widens)
    rw [h₁] at hrun
    rw [← eq_of_same hsame] at h₂
    exact h₂.symm.trans hrun
  refine ⟨id₁, id₂, rfl, rfl, ⟨fun heq => ?_, fun hsame => ?_⟩, fun hsame => ?_⟩
  · subst heq
    rw [hdenotes₁.unique hdenotes₂]
    exact same_self ht₂.noMissing
  · cases hagain hsame
    rfl
  · cases hagain hsame
    rfl

/-- A vector type that is declared, and looked for again after a call that puts the id of its
component into a block a second time and after an injection. -/
theorem declare_canonical_built : ∃ m₁ m₂ k,
    (vector .f32 3).declare.run .built = (some 17, m₁) ∧ Module.Runs Module.Evolves m₁ k m₂ ∧
      m₂.header.bound ≠ m₁.header.bound ∧
      (vector .f32 3).declare.run m₂ = (some 17, m₂) ∧
      ((vector (.float 64) 3).declare.run m₂).1 ≠ some 17 := by
  let m₁ := ((vector .f32 3).declare.run .built).2
  let b : Builder := ⟨m₁, ⟨some 0, some 0⟩⟩
  let clash : Builder.Call :=
    .insert { opcode := .fAdd, resultType := 1, resultId := 1, operands := [5, 5] }
  let inj : Injector := { Injector.built with target := (clash.after b).target }
  let m₂ := inj.target.withSuccessor
  have h₁ : (vector .f32 3).declare.run .built = (some 17, m₁) := by
    have hid : ((vector .f32 3).declare.run .built).1 = some 17 := by decide +kernel
    rw [← hid, Prod.mk.eta]
  have hinject : (inj.inject Tree.successor ()).2 = .ok (inj.commit m₂) :=
    Injector.inject_eq_commit (by decide +kernel)
  have hindex : inj.target.functionWithId? inj.functionId = some 0 := rfl
  have hcall : Module.Runs Module.Evolves m₁ _ inj.target := .tail .refl (.call clash b)
  have hruns := hcall.tail (.compile (.inject hinject hindex))
  have hvector : (vector .f32 3).Concrete := by
    simp [concrete_iff, parts, isLiteral, isMissing]
  have hwide : (vector (.float 64) 3).Concrete := by
    simp [concrete_iff, parts, isLiteral, isMissing]
  obtain ⟨_, id₂, ⟨⟩, hid₂, heq₂, hsame₂⟩ := declare_canonical (by decide +kernel) hvector hvector
    h₁ hruns Prod.mk.eta.symm (by decide +kernel)
  obtain ⟨_, id₃, ⟨⟩, hid₃, heq₃, -⟩ := declare_canonical (by decide +kernel) hvector hwide h₁
    hruns Prod.mk.eta.symm (by decide +kernel)
  refine ⟨m₁, m₂, _, h₁, hruns, by decide +kernel, ?_, ?_⟩
  · have hrun : (vector .f32 3).declare.run m₂ = (some id₂, m₂) := Prod.ext hid₂ (hsame₂ rfl)
    rwa [← heq₂.2 rfl] at hrun
  · intro hid
    exact absurd (heq₃.1 (Option.some.inj (hid.symm.trans hid₃))) (by decide)

end ValueType

end ShaderGraft
