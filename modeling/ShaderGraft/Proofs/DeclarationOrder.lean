import ShaderGraft.Proofs.Precedence
import ShaderGraft.Proofs.Sharing

/-!
# The declarations of a module stay in order

A module is declaration well-formed if its ids are, if its types and constants are made of what was
declared before them, if nothing is declared twice, and if the types of 64 bits come with their
capabilities (`Module.DeclarationWellFormed`). The main statement is `Module.declarations_ordered`:
whatever is compiled, and wherever that fails, leaves such a module behind and keeps the
declarations that were there in front.

What compiling does to the declarations is said once, by `Module.Registers`. A capability is looked
for by its operand only, so a capability section that has the operand in something else than a
capability hides the need for it (`Module.masked_not_enabled`).
-/

namespace ShaderGraft

/-! ### Well-formed declarations -/

namespace Instruction

/-- The ids that a type or a constant is made of: its result type, the type of its components,
columns, elements or members, the length of an array, and the constituents of a composite. -/
def dependencies (inst : Instruction) : List ResultId :=
  match inst.opcode with
  | .typeVector | .typeMatrix | .typeRuntimeArray => inst.operands.take 1
  | .typeArray => inst.operands.take 2
  | .typeStruct => inst.operands
  | .constantTrue | .constantFalse | .constant | .constantNull | .specConstantTrue
  | .specConstantFalse | .specConstant | .specConstantOp => [inst.resultType]
  | .constantComposite | .specConstantComposite => inst.resultType :: inst.operands
  | _ => []

/-- The capability that a type of 64 bits needs. -/
def capability? (inst : Instruction) : Option Word :=
  match inst.opcode, inst.operands with
  | .typeInt, 64 :: _ => some Declare.int64Capability
  | .typeFloat, 64 :: _ => some Declare.float64Capability
  | _, _ => none

theorem capability?_cases {inst : Instruction} {c : Word} (h : inst.capability? = some c) :
    c = Declare.int64Capability ∨ c = Declare.float64Capability := by
  unfold capability? at h
  split at h
  · exact .inl (Option.some.inj h).symm
  · exact .inr (Option.some.inj h).symm
  · cases h

/-- Whether two instructions declare the same. -/
def Repeats (a b : Instruction) : Prop :=
  a.opcode = b.opcode ∧ a.resultType = b.resultType ∧ a.operands = b.operands

instance (a b : Instruction) : Decidable (a.Repeats b) :=
  inferInstanceAs (Decidable (_ ∧ _ ∧ _))

end Instruction

/-- Every declaration is made of earlier ones. -/
def InOrder (globals : List Instruction) : Prop :=
  ∀ before inst after, globals = before ++ inst :: after →
    ∀ id ∈ inst.dependencies, Defines before id

theorem inOrder_iff {globals : List Instruction} : InOrder globals ↔
    ∀ k, ∀ hk : k < globals.length,
      globals[k].dependencies.all fun id => Defines (globals.take k) id := by
  constructor
  · intro h k hk
    rw [List.all_eq_true]
    refine fun id hid => decide_eq_true ?_
    refine h (globals.take k) globals[k] (globals.drop (k + 1)) ?_ id hid
    rw [List.getElem_cons_drop, List.take_append_drop]
  · rintro h before inst after rfl
    have hk := h before.length (by simp)
    simpa using hk

instance (globals : List Instruction) : Decidable (InOrder globals) :=
  decidable_of_iff' _ inOrder_iff

theorem InOrder.concat {globals : List Instruction} {inst : Instruction} (h : InOrder globals)
    (hinst : ∀ id ∈ inst.dependencies, Defines globals id) : InOrder (globals ++ [inst]) :=
  forall_split_concat h hinst

namespace Module

/-- Whether the capability that a declaration needs is asked for. -/
def Enables (m : Module) (inst : Instruction) : Prop :=
  ∀ c ∈ inst.capability?, ∃ cap ∈ m.capabilities, cap.opcode = .capability ∧ cap.operands = [c]

instance (m : Module) (inst : Instruction) : Decidable (m.Enables inst) :=
  decidable_of_iff (inst.capability?.all fun c =>
    m.capabilities.any fun cap => cap.opcode = .capability ∧ cap.operands = [c])
    (by simp [Enables, Option.all_eq_true])

/-- Ids are well-formed, types and constants are made of earlier ones, no two declarations are the
same, and types of 64 bits come with their capabilities. -/
@[mk_iff]
structure DeclarationWellFormed (m : Module) : Prop extends m.IdWellFormed where
  inOrder : InOrder m.globals
  unrepeated : m.globals.Pairwise fun a b => ¬ a.Repeats b
  enabled : ∀ inst ∈ m.globals, m.Enables inst

instance (m : Module) : Decidable m.DeclarationWellFormed :=
  decidable_of_iff' _ m.declarationWellFormed_iff

/-- Whether nothing but a capability looks like one for 64 bits. -/
def Unmasked (m : Module) : Prop :=
  ∀ inst ∈ m.capabilities, inst.operands = [Declare.int64Capability] ∨
    inst.operands = [Declare.float64Capability] → inst.opcode = .capability

instance (m : Module) : Decidable m.Unmasked :=
  inferInstanceAs (Decidable (∀ inst ∈ _, _))

/-! ### What compiling does to declarations -/

/-- Whether an id is that of a declaration that has a result. -/
def Listed (globals : List Instruction) (id : ResultId) : Prop :=
  ∃ inst ∈ globals, inst.opcode.layout ≠ .none ∧ inst.resultId = id

theorem Listed.mono {globals globals' : List Instruction} {id : ResultId} (h : Listed globals id)
    (hsub : globals ⊆ globals') : Listed globals' id := by
  obtain ⟨inst, hinst, h⟩ := h
  exact ⟨inst, hsub hinst, h⟩

/-- Any number of declarations of what the module does not have, made of what it has, and of
capabilities, with anything else between them. -/
inductive Registers (m : Module) : Module → Prop where
  | refl : Registers m m
  | global {m' : Module} {inst : Instruction} : Registers m m' →
      m'.globals.find? (Declare.declares inst.opcode inst.resultType inst.operands) = none →
      (∀ id ∈ inst.dependencies, Listed m'.globals id) →
      (∀ c ∈ inst.capability?, ∃ cap ∈ m'.capabilities, cap.operands = [c]) →
      Registers m (m'.takeId.append inst .globals)
  | capability {m' : Module} (c : Word) : Registers m m' →
      Registers m (m'.append { opcode := .capability, operands := [c] } .capabilities)
  | other {m' m'' : Module} : Registers m m' → m''.globals = m'.globals →
      m''.capabilities = m'.capabilities → Registers m m''

namespace Registers

variable {m m' m'' : Module}

theorem trans (h : m.Registers m') (h' : m'.Registers m'') : m.Registers m'' := by
  induction h' with
  | refl => exact h
  | global _ hnew hdeps hcap ih => exact ih.global hnew hdeps hcap
  | capability c _ ih => exact ih.capability c
  | other _ hglobals hcapabilities ih => exact ih.other hglobals hcapabilities

theorem of_eq (hglobals : m'.globals = m.globals)
    (hcapabilities : m'.capabilities = m.capabilities) : m.Registers m' :=
  .other .refl hglobals hcapabilities

theorem globals_prefixed (h : m.Registers m') : m.globals <+: m'.globals := by
  induction h with
  | refl => exact List.prefix_rfl
  | global _ _ _ _ ih => exact ih.trans (List.prefix_append ..)
  | capability _ _ ih => exact ih
  | other _ hglobals _ ih => rwa [hglobals]

/-- What is not a capability for 64 bits does not become one. -/
theorem unmasked (h : m.Registers m') (hm : m.Unmasked) : m'.Unmasked := by
  induction h with
  | refl => exact hm
  | global _ _ _ _ ih => exact ih
  | capability c _ ih => exact forall_mem_concat ih fun _ => rfl
  | other _ _ hcapabilities ih =>
    unfold Unmasked
    rwa [hcapabilities]

theorem inOrder (h : m.Registers m') (hm : InOrder m.globals)
    (hids : ∀ inst ∈ m'.globals, inst.opcode.layout ≠ .none → inst.resultId ≠ 0) :
    InOrder m'.globals := by
  -- a declaration is known to have an id only from the module at the end
  induction h with
  | refl => exact hm
  | global _ _ hdeps _ ih =>
    have hids' := fun other hother => hids other (List.mem_append_left _ hother)
    refine (ih hids').concat fun id hid => ?_
    obtain ⟨other, hother, hlayout, rfl⟩ := hdeps id hid
    exact ⟨hids' other hother hlayout, other, hother, rfl⟩
  | capability _ _ ih => exact ih hids
  | other _ hglobals _ ih =>
    rw [hglobals] at hids ⊢
    exact ih hids

theorem unrepeated (h : m.Registers m') (hm : m.globals.Pairwise fun a b => ¬ a.Repeats b) :
    m'.globals.Pairwise fun a b => ¬ a.Repeats b := by
  induction h with
  | refl => exact hm
  | global _ hnew _ _ ih =>
    refine List.pairwise_append.2 ⟨ih, List.pairwise_singleton .., fun a ha b hb => ?_⟩
    cases List.mem_singleton.1 hb
    rintro ⟨hop, htype, hoperands⟩
    refine List.find?_eq_none.1 hnew a ha ?_
    simp [Declare.declares, hop, htype, hoperands]
  | capability _ _ ih => exact ih
  | other _ hglobals _ ih => rwa [hglobals]

theorem enabled (h : m.Registers m') (hunmasked : m.Unmasked)
    (hm : ∀ inst ∈ m.globals, m.Enables inst) : ∀ inst ∈ m'.globals, m'.Enables inst := by
  induction h with
  | refl => exact hm
  | @global m' inst h _ _ hcap ih =>
    refine forall_mem_concat ih fun c hc => ?_
    obtain ⟨cap, hmem, hoperands⟩ := hcap c hc
    refine ⟨cap, hmem, h.unmasked hunmasked cap hmem ?_, hoperands⟩
    rcases Instruction.capability?_cases hc with rfl | rfl
    · exact .inl hoperands
    · exact .inr hoperands
  | capability _ _ ih =>
    intro inst hinst c hc
    obtain ⟨cap, hmem, hcap⟩ := ih inst hinst c hc
    exact ⟨cap, List.mem_append_left _ hmem, hcap⟩
  | other _ hglobals hcapabilities ih =>
    unfold Enables
    rwa [hglobals, hcapabilities]

end Registers

end Module

namespace Declare

open ShaderGraft.Module

variable {α β : Type} {known : List Instruction}

/-- What a step does that only declares, and what it gives back, if the module has the known
declarations. -/
def Registering (known : List Instruction) (x : Declare α) (post : α → List Instruction → Prop) :
    Prop :=
  ∀ m : Module, known ⊆ m.globals →
    m.Registers (x.run m).2 ∧ post (x.run m).1 (x.run m).2.globals

theorem registering_pure {a : α} {post : α → List Instruction → Prop}
    (h : ∀ globals, known ⊆ globals → post a globals) : Registering known (pure a) post :=
  fun m hm => ⟨.refl, h m.globals hm⟩

theorem Registering.bind {x : Declare α} {f : α → Declare β} {mid : α → List Instruction → Prop}
    {post : β → List Instruction → Prop} (hx : Registering known x mid)
    (hf : ∀ a known', known ⊆ known' → mid a known' → Registering known' (f a) post) :
    Registering known (x >>= f) post := by
  intro m hm
  obtain ⟨hregisters, hmid⟩ := hx m hm
  have hsub := List.Subset.trans hm hregisters.globals_prefixed.subset
  obtain ⟨hregisters', hpost⟩ := hf _ _ hsub hmid (x.run m).2 (List.Subset.refl _)
  exact ⟨hregisters.trans hregisters', hpost⟩

theorem registers_global {op : Opcode} {type : ResultId} {operands : List Word} {m : Module}
    (hlayout : op.layout ≠ .none)
    (hdeps : ∀ r, ∀ id ∈ Instruction.dependencies ⟨op, type, r, operands⟩, Listed m.globals id)
    (hcap : ∀ r, ∀ c ∈ Instruction.capability? ⟨op, type, r, operands⟩,
      ∃ cap ∈ m.capabilities, cap.operands = [c]) :
    m.Registers ((global op type operands).run m).2 ∧
      Listed ((global op type operands).run m).2.globals ((global op type operands).run m).1 := by
  rw [run_global]
  cases hfind : m.globals.find? (declares op type operands) with
  | some inst =>
    have hsame := List.find?_some hfind
    simp only [declares, Bool.and_eq_true, beq_iff_eq] at hsame
    refine ⟨.refl, inst, List.mem_of_find?_eq_some hfind, ?_, rfl⟩
    rwa [hsame.1.1]
  | none =>
    exact ⟨Registers.global .refl hfind (hdeps _) (hcap _), _,
      List.mem_append_right _ (List.mem_singleton_self _), hlayout, rfl⟩

theorem registering_global {op : Opcode} {type : ResultId} {operands : List Word}
    (hlayout : op.layout ≠ .none)
    (hdeps : ∀ r, ∀ id ∈ Instruction.dependencies ⟨op, type, r, operands⟩, Listed known id)
    (hcap : ∀ r, Instruction.capability? ⟨op, type, r, operands⟩ = none) :
    Registering known (global op type operands) fun id globals => Listed globals id := by
  intro m hm
  refine registers_global hlayout (fun r id hid => (hdeps r id hid).mono hm) fun r c hc => ?_
  rw [hcap r] at hc
  cases hc

theorem registers_capability (c : Word) (m : Module) :
    m.Registers ((capability c).run m).2 ∧
      ∃ cap ∈ ((capability c).run m).2.capabilities, cap.operands = [c] := by
  rw [run_capability]
  split
  · rename_i hany
    obtain ⟨cap, hmem, hoperands⟩ := List.any_eq_true.1 hany
    exact ⟨.refl, cap, hmem, by simpa using hoperands⟩
  · exact ⟨Registers.capability c .refl, _,
      List.mem_append_right _ (List.mem_singleton_self _), rfl⟩

/-- A type that is made of nothing and that needs a capability if it has 64 bits. -/
theorem registering_sized {op : Opcode} {width c : Word} {operands : List Word}
    (hlayout : op.layout ≠ .none)
    (hdeps : ∀ r, Instruction.dependencies ⟨op, 0, r, operands⟩ = [])
    (hcap : ∀ r, ∀ c' ∈ Instruction.capability? ⟨op, 0, r, operands⟩, width = 64 ∧ c' = c) :
    Registering known (do
      if width = 64 then capability c
      global op 0 operands) fun id globals => Listed globals id := by
  by_cases hw : width = 64
  · simp only [if_pos hw]
    intro m hm
    obtain ⟨hregisters, cap, hmem, hoperands⟩ := registers_capability c m
    have hglobal := registers_global (m := ((capability c).run m).2) hlayout
      (fun r id hid => by simp [hdeps r] at hid)
      fun r c' hc => ⟨cap, hmem, (hcap r c' hc).2 ▸ hoperands⟩
    exact ⟨hregisters.trans hglobal.1, hglobal.2⟩
  · simp only [if_neg hw]
    refine registering_global hlayout (fun r id hid => by simp [hdeps r] at hid) fun r => ?_
    cases h : Instruction.capability? ⟨op, 0, r, operands⟩ with
    | none => rfl
    | some c' => exact absurd (hcap r c' h).1 hw

end Declare

namespace ValueType

open Declare ShaderGraft.Module

theorem registering_int {known : List Instruction} (width : Word) (signed : Bool) :
    Registering known (typeInt width signed) fun id globals => Listed globals id := by
  refine registering_sized (by decide) (fun _ => rfl) fun r c hc => ?_
  simp only [Instruction.capability?] at hc
  split at hc
  · rename_i heq
    cases heq
    exact ⟨rfl, (Option.some.inj hc).symm⟩
  · rename_i hop _
    cases hop
  · cases hc

theorem registering_float {known : List Instruction} (width : Word) :
    Registering known (typeFloat width) fun id globals => Listed globals id := by
  refine registering_sized (by decide) (fun _ => rfl) fun r c hc => ?_
  simp only [Instruction.capability?] at hc
  split at hc
  · rename_i hop _
    cases hop
  · rename_i heq
    cases heq
    exact ⟨rfl, (Option.some.inj hc).symm⟩
  · cases hc

/-- What is given back for a type or for nothing. -/
def AllListed (id? : Option ResultId) (globals : List Instruction) : Prop :=
  ∀ id ∈ id?, Listed globals id

theorem registering_none {known : List Instruction} : Registering known (pure none) AllListed :=
  registering_pure fun _ _ _ hid => nomatch hid

theorem registering_some {known : List Instruction} {x : Declare ResultId}
    (hx : Registering known x fun id globals => Listed globals id) :
    Registering known (do return some (← x)) AllListed := by
  refine hx.bind fun id known' _ hid => registering_pure fun globals hsub => ?_
  rintro _ ⟨⟩
  exact hid.mono hsub

mutual

theorem registering_declare {known : List Instruction} :
    (t : ValueType) → Registering known t.declare AllListed
  | .void | .bool => by
    unfold declare
    rw [map_eq_pure_bind]
    exact registering_some (registering_global (by decide) (fun _ => List.forall_mem_nil _)
      fun _ => rfl)
  | .int signed width => by
    unfold declare
    rw [map_eq_pure_bind]
    exact registering_some (registering_int width signed)
  | .float width => by
    unfold declare
    rw [map_eq_pure_bind]
    exact registering_some (registering_float width)
  | .vector elem count => by
    unfold declare
    refine (registering_declare elem).bind fun component? known' _ hcomponent => ?_
    cases component? with
    | none => exact registering_none
    | some component =>
      refine registering_some (registering_global (by decide) (fun r id hid => ?_) fun _ => rfl)
      cases List.mem_singleton.1 hid
      exact hcomponent component rfl
  | .matrix elem columns rows => by
    unfold declare
    refine (registering_declare elem).bind fun component? known' _ hcomponent => ?_
    cases component? with
    | none => exact registering_none
    | some component =>
      refine (registering_global (by decide) (fun r id hid => ?_) fun _ => rfl).bind
        fun column known'' _ hcolumn => ?_
      · cases List.mem_singleton.1 hid
        exact hcomponent component rfl
      · refine registering_some (registering_global (by decide) (fun r id hid => ?_) fun _ => rfl)
        cases List.mem_singleton.1 hid
        exact hcolumn
  | .struct fields => by
    unfold declare
    refine (registering_declareAll fields).bind fun members? known' _ hmembers => ?_
    cases members? with
    | none => exact registering_none
    | some members =>
      exact registering_some (registering_global (by decide) (fun _ => hmembers members rfl)
        fun _ => rfl)
  | .array elem count => by
    unfold declare
    refine (registering_declare elem).bind fun element? known₁ _ helement => ?_
    cases element? with
    | none => exact registering_none
    | some element =>
      refine (registering_int 32 false).bind fun type known₂ hsub₂ htype => ?_
      refine (registering_global (by decide) (fun r id hid => ?_) fun _ => rfl).bind
        fun length known₃ hsub₃ hlength => ?_
      · cases List.mem_singleton.1 hid
        exact htype
      · refine registering_some (registering_global (by decide) (fun r id hid => ?_) fun _ => rfl)
        rcases List.mem_cons.1 hid with rfl | hid
        · exact ((helement _ rfl).mono hsub₂).mono hsub₃
        · cases List.mem_singleton.1 hid
          exact hlength
  | .missing | .literalFloat32 _ | .literalFloat64 _ | .literalInt32 _ | .literalInt64 _ => by
    unfold declare
    exact registering_none

theorem registering_declareAll {known : List Instruction} :
    (ts : List ValueType) → Registering known (declareAll ts) fun ids? globals =>
      ∀ ids ∈ ids?, ∀ id ∈ ids, Listed globals id
  | [] => by
    unfold declareAll
    refine registering_pure fun globals _ => ?_
    rintro _ ⟨⟩
    simp
  | t :: ts => by
    unfold declareAll
    refine (registering_declare t).bind fun id? known₁ _ hid => ?_
    cases id? with
    | none => exact registering_pure fun _ _ _ hids => nomatch hids
    | some id =>
      refine (registering_declareAll ts).bind fun ids? known₂ hsub hids => ?_
      cases ids? with
      | none => exact registering_pure fun _ _ _ hids => nomatch hids
      | some ids =>
        refine registering_pure fun globals hglobals => ?_
        rintro _ ⟨⟩
        rw [List.forall_mem_cons]
        exact ⟨((hid id rfl).mono hsub).mono hglobals,
          fun other hother => (hids ids rfl other hother).mono hglobals⟩

end

end ValueType

/-! ### Constants -/

namespace Emit

open ShaderGraft.Module

variable {α β : Type} {known : List Instruction}

/-- What a step of compiling does to the declarations, whether it fails or not, and what it gives
back, if the module has the known declarations. -/
def Registering (known : List Instruction) (x : Emit α) (post : α → List Instruction → Prop) :
    Prop :=
  ∀ s, known ⊆ s.builder.target.globals →
    s.builder.target.Registers (endState x s).builder.target ∧
      ∀ a t, x.run s = .ok a t → post a t.builder.target.globals

/-- A step of compiling whose result does not matter for the declarations. -/
abbrev Registers (x : Emit α) : Prop :=
  Registering [] x fun _ _ => True

theorem registering_pure {a : α} {post : α → List Instruction → Prop}
    (h : ∀ globals, known ⊆ globals → post a globals) : Registering known (pure a) post := by
  refine fun s hs => ⟨.refl, fun b t hrun => ?_⟩
  cases hrun
  exact h _ hs

theorem registering_throw (e : EmitError) {post : α → List Instruction → Prop} :
    Registering known (throw e) post := by
  refine fun s _ => ⟨.refl, fun a t hrun => ?_⟩
  cases hrun

theorem Registering.bind {x : Emit α} {f : α → Emit β} {mid : α → List Instruction → Prop}
    {post : β → List Instruction → Prop} (hx : Registering known x mid)
    (hf : ∀ a known', known ⊆ known' → mid a known' → Registering known' (f a) post) :
    Registering known (x >>= f) post := by
  intro s hs
  obtain ⟨hregisters, hmid⟩ := hx s hs
  simp only [endState, EStateM.run_bind] at hregisters ⊢
  cases hrun : x.run s with
  | error e u =>
    rw [hrun] at hregisters
    refine ⟨hregisters, fun b t hok => ?_⟩
    cases hok
  | ok a u =>
    rw [hrun] at hregisters
    have hsub := List.Subset.trans hs hregisters.globals_prefixed.subset
    obtain ⟨hregisters', hpost⟩ := hf a _ hsub (hmid a u hrun) u (List.Subset.refl _)
    exact ⟨hregisters.trans hregisters', hpost⟩

theorem Registering.weaken {x : Emit α} {post : α → List Instruction → Prop}
    (hx : Registering [] x post) {post' : α → List Instruction → Prop}
    (h : ∀ a globals, post a globals → post' a globals) : Registering known x post' := by
  intro s _
  obtain ⟨hregisters, hpost⟩ := hx s (List.nil_subset _)
  exact ⟨hregisters, fun a t hrun => h a _ (hpost a t hrun)⟩

/-- Steps in a row whose results do not matter. -/
theorem Registers.seq {x : Emit α} {f : α → Emit β} (hx : x.Registers) (hf : ∀ a, (f a).Registers) :
    (x >>= f).Registers :=
  Registering.bind hx fun a _ _ _ => (hf a).weaken fun _ _ h => h

theorem Registering.mapM {f : α → Emit ResultId} (hf : ∀ a known', known ⊆ known' →
      Registering known' (f a) fun id globals => Listed globals id) (as : List α) :
    Registering known (as.mapM f) fun ids globals => ∀ id ∈ ids, Listed globals id := by
  induction as generalizing known with
  | nil => exact registering_pure (by simp)
  | cons a as ih =>
    rw [List.mapM_cons]
    refine (hf a known (List.Subset.refl _)).bind fun id known₁ hsub₁ hid => ?_
    have hrest := ih fun a known' hsub => hf a known' (List.Subset.trans hsub₁ hsub)
    refine hrest.bind fun ids known₂ hsub₂ hids => registering_pure fun globals hsub₃ => ?_
    rw [List.forall_mem_cons]
    exact ⟨(hid.mono hsub₂).mono hsub₃, fun other hother => (hids other hother).mono hsub₃⟩

theorem registering_declare {x : Declare α} {post : α → List Instruction → Prop}
    (hx : x.Registering known post) : Registering known (declare x) post := by
  intro s hs
  obtain ⟨hregisters, hpost⟩ := hx s.builder.target hs
  refine ⟨hregisters, fun a t hrun => ?_⟩
  rw [run_declare] at hrun
  injection hrun with ha ht
  subst ha ht
  exact hpost

theorem registering_typeId (t : ValueType) :
    Registering known (typeId t) fun id globals => Listed globals id := by
  refine (registering_declare t.registering_declare).bind fun id? known' _ hid => ?_
  cases id? with
  | none => exact registering_throw _
  | some id => exact registering_pure fun _ hsub => (hid id rfl).mono hsub

theorem registering_constant {op : Opcode} {type : ResultId} {operands : List Word}
    (hlayout : op.layout ≠ .none)
    (hdeps : ∀ r, ∀ id ∈ Instruction.dependencies ⟨op, type, r, operands⟩, Listed known id)
    (hcap : ∀ r, Instruction.capability? ⟨op, type, r, operands⟩ = none) :
    Registering known (declare (Declare.global op type operands))
      fun id globals => Listed globals id :=
  registering_declare (Declare.registering_global hlayout hdeps hcap)

/-- A composite is made of its type and its constituents. -/
theorem registering_composite {type : ResultId} {parts : List ResultId}
    (htype : Listed known type) (hparts : ∀ id ∈ parts, Listed known id) :
    Registering known (declare (Declare.constantComposite type parts))
      fun id globals => Listed globals id :=
  registering_constant (by decide) (fun _ => List.forall_mem_cons.2 ⟨htype, hparts⟩) fun _ => rfl

theorem registering_scalar {type : ResultId} (literal : List Word) (htype : Listed known type) :
    Registering known (declare (Declare.constant type literal))
      fun id globals => Listed globals id :=
  registering_constant (by decide) (fun _ => List.forall_mem_singleton.2 htype) fun _ => rfl

theorem registers_pure (a : α) : Registers (pure a : Emit α) :=
  registering_pure fun _ _ => trivial

theorem registers_throw (e : EmitError) : Registers (throw e : Emit α) :=
  registering_throw e

theorem registers_typeId (t : ValueType) : (typeId t).Registers :=
  (registering_typeId t).weaken fun _ _ _ => trivial

theorem registering_valueType (type : HostType) :
    Registering known (valueType type) fun _ _ => True := by
  unfold valueType
  split
  · exact registering_pure fun _ _ => trivial
  · exact registering_throw _

theorem registers_tell (r : Record) : (tell r).Registers :=
  fun _ _ => ⟨.refl, fun _ _ _ => trivial⟩

theorem registers_emit (op : Opcode) (type : ResultId) (operands : List Word) :
    (build (Build.emit op type operands)).Registers := by
  intro s _
  refine ⟨?_, fun _ _ _ => trivial⟩
  rw [endState, run_build]
  cases hsel : s.builder.selected? with
  | some block =>
    rw [Build.run_emit hsel]
    exact .of_eq rfl rfl
  | none =>
    obtain ⟨e, he⟩ := Build.run_emit_none hsel op type operands
    rw [he]
    exact .of_eq rfl rfl

theorem registers_instructionSet : instructionSet.Registers := by
  intro s _
  refine ⟨?_, fun _ _ _ => trivial⟩
  rw [endState, run_instructionSet]
  by_cases hset : s.setId = 0
  · rw [if_pos hset, Declare.run_extInstImport]
    cases s.builder.target.imports.find? _ with
    | some inst => exact .refl
    | none => exact .of_eq rfl rfl
  · rw [if_neg hset]
    exact .refl

end Emit

section

open Emit ShaderGraft.Module

variable {known : List Instruction}

theorem Scalar.registering_emit (s : Scalar) (v : s.Value) :
    Registering known (s.emit v) fun id globals => Listed globals id := by
  refine (registering_typeId _).bind fun type known' _ htype => ?_
  cases s with
  | bool =>
    cases v
    · exact registering_constant (by decide) (fun _ => List.forall_mem_singleton.2 htype)
        fun _ => rfl
    · exact registering_constant (by decide) (fun _ => List.forall_mem_singleton.2 htype)
        fun _ => rfl
  | _ => exact registering_scalar _ htype

theorem Scalar.registering_emitVector (s : Scalar) (vs : List s.Value) :
    Registering known (s.emitVector vs) fun id globals => Listed globals id := by
  refine (registering_typeId _).bind fun type known₁ _ htype => ?_
  refine (Registering.mapM (fun v _ _ => s.registering_emit v) vs).bind
    fun parts known₂ hsub hparts => ?_
  exact registering_composite (htype.mono hsub) hparts

theorem registering_emitMatrix (n : Nat) (elements : List UInt32) :
    Registering known (emitMatrix n elements) fun id globals => Listed globals id := by
  refine (registering_typeId _).bind fun type known₁ _ htype => ?_
  refine (registering_typeId _).bind fun columnType known₂ hsub₂ hcolumn => ?_
  refine (registering_typeId _).bind fun elementType known₃ hsub₃ helement => ?_
  refine (Registering.mapM (fun c known₄ hsub₄ => ?_) _).bind
    fun columns known₅ hsub₅ hcolumns => ?_
  · refine (Registering.mapM (fun bits known₆ hsub₆ => ?_) _).bind
      fun parts known₇ hsub₇ hparts => ?_
    · exact registering_scalar _ ((helement.mono hsub₄).mono hsub₆)
    · exact registering_composite (((hcolumn.mono hsub₃).mono hsub₄).mono hsub₇) hparts
  · exact registering_composite (((htype.mono hsub₂).mono hsub₃).mono hsub₅) hcolumns

/-- A constant is a declaration, whatever its type is. -/
theorem HostType.registering_emit (type : HostType) (v : type.Value) :
    Registering known (type.emit v) fun id globals => Listed globals id := by
  unfold HostType.emit
  split
  · exact Scalar.registering_emit _ _
  · exact Scalar.registering_emit _ _
  · exact Scalar.registering_emitVector _ _
  · exact Scalar.registering_emitVector _ _
  · exact Scalar.registering_emitVector _ _
  · exact Scalar.registering_emitVector _ _
  · exact registering_emitMatrix _ _
  · exact registering_emitMatrix _ _
  · exact registering_emitMatrix _ _
  · exact (registering_valueType _).bind fun _ _ _ _ => Scalar.registering_emitVector _ _
  · exact (registering_valueType _).bind fun _ _ _ _ => Scalar.registering_emitVector _ _
  · split
    · exact registering_throw _
    · exact registering_throw _

theorem HostType.registers_emit (type : HostType) (v : type.Value) : (type.emit v).Registers :=
  (type.registering_emit v).weaken fun _ _ _ => trivial

end

/-! ### Trees -/

theorem Emit.compositional_registers : Compositional Emit.Registers where
  pure := registers_pure
  throw := registers_throw
  bind := Registers.seq
  get := fun _ _ => ⟨.refl, fun _ _ _ => trivial⟩
  tell := registers_tell
  typeId := registers_typeId
  constant := HostType.registers_emit
  instructionSet := registers_instructionSet
  emit := fun type operands _ _ _ => registers_emit _ type operands

/-- Compiling a tree registers what it declares, whether it fails or not. -/
theorem Tree.registers_serialize {i : Input} {t : HostType} (tree : Tree i t) (x : i.Value) :
    (tree.serialize x).Registers :=
  tree.compositional_serialize Emit.compositional_registers x

/-! ### Runs -/

theorem Task.registers (task : Task) (s : Serializer) :
    s.builder.target.Registers (task.after s) := by
  cases task with
  | typeId t => exact (Emit.registers_typeId t s (List.nil_subset _)).1
  | constant type value => exact (type.registers_emit value s (List.nil_subset _)).1
  | tree root input => exact (root.registers_serialize input s (List.nil_subset _)).1

namespace Module

variable {n : Nat} {m m' : Module}

theorem Compiles.registers (h : Compiles n m m') : m.Registers m' := by
  cases h with
  | task task s => exact task.registers s
  | @inject inj next index _ _ tree input hinject _ =>
    obtain ⟨index', f, result, s, k, a, -, -, -, hrun, -, ha, -, rfl⟩ :=
      Injector.inject_eq_ok (Prod.ext rfl hinject)
    have hserialize := (tree.registers_serialize input (inj.opened index' f) (List.nil_subset _)).1
    rw [endState, hrun] at hserialize
    have hopened : inj.target.Registers (inj.opened index' f).builder.target := .of_eq rfl rfl
    refine (hopened.trans hserialize).other ?_ ?_
    · rw [ha]
      rfl
    · rw [ha]
      rfl
  | refuse => exact .refl

theorem Runs.registers (h : Runs Compiles m n m') : m.Registers m' := by
  induction h with
  | refl => exact .refl
  | tail _ hstep ih => exact ih.trans hstep.registers

/-- Compiling is one of the things that can be done with a ledger, in which no id is set aside. -/
theorem Runs.ledger (h : Runs Compiles m n m') :
    Ledger.Runs { target := m } n { target := m' } := by
  induction h with
  | refl => exact .refl
  | tail _ hstep ih =>
    cases hstep with
    | task task s => exact ih.tail (.compile task rfl)
    | inject hinject hindex => exact ih.tail (.inject rfl hinject hindex)
    | refuse => exact ih

/-- **Declarations stay well-formed.** If nothing but a capability looks like one, whatever is
compiled into a module with well-formed declarations leaves such a module, and what was declared
stays in front. -/
theorem declarations_ordered (hm : m.DeclarationWellFormed) (hunmasked : m.Unmasked)
    (hruns : Runs Compiles m n m') (hlimit : m.header.bound.toNat + n < UInt32.size) :
    m'.DeclarationWellFormed ∧ m.globals <+: m'.globals := by
  -- the ids are kept by any run, the rest by what compiling does to declarations
  have hids : m'.IdWellFormed :=
    (hruns.ledger.reserves hm.toIdWellFormed hlimit).toIdsBelow.idWellFormed hlimit
  have hregisters := hruns.registers
  refine ⟨{ hids with
    inOrder := hregisters.inOrder hm.inOrder fun inst hinst =>
      hids.ne_zero inst (m'.sublist_globals.subset hinst)
    unrepeated := hregisters.unrepeated hm.unrepeated
    enabled := hregisters.enabled hunmasked hm.enabled }, hregisters.globals_prefixed⟩

/-- The module in which the square of a vector of 64 bit floats could not be compiled. -/
def builtWide : Module := { built with
  header.bound := 23
  capabilities := [{ opcode := .capability, operands := [Declare.float64Capability] }]
  globals := built.globals ++ [
    { opcode := .typeFloat, resultId := 17, operands := [64] },
    { opcode := .typeVector, resultId := 18, operands := [17, 2] },
    { opcode := .constant, resultType := 17, resultId := 19, operands := [1, 0] },
    { opcode := .constant, resultType := 17, resultId := 20, operands := [2, 0] },
    { opcode := .constantComposite, resultType := 18, resultId := 21, operands := [19, 20] }] }

theorem compiles_builtWide : Compiles 6 built builtWide := by
  let square : Task := .tree (i := .none) (t := .dvec2) (.square (.constant #v[1, 2])) ()
  have hstep := Compiles.task square { builder := { target := built } }
  have hafter : square.after { builder := { target := built } } = builtWide := by decide +kernel
  have htaken : square.idsTaken { builder := { target := built } } = 6 := by decide +kernel
  rwa [hafter, htaken] at hstep

theorem compiles_withSuccessor : Compiles 4 builtWide builtWide.withSuccessor := by
  let inj : Injector := { Injector.built with target := builtWide }
  have hinject : (inj.inject Tree.successor ()).2 = .ok (inj.commit builtWide.withSuccessor) :=
    Injector.inject_eq_commit (by decide +kernel)
  have hindex : inj.target.functionWithId? inj.functionId = some 0 := by decide +kernel
  have hstep : Compiles (builtWide.idsTaken builtWide.withSuccessor 0) builtWide
      builtWide.withSuccessor := .inject hinject hindex
  have htaken : builtWide.idsTaken builtWide.withSuccessor 0 = 4 := by decide +kernel
  rwa [htaken] at hstep

/-- A tree that has no block to go to, and one for the body of a function. -/
theorem declarations_ordered_built : built.DeclarationWellFormed ∧ built.Unmasked ∧
    Runs Compiles built 10 builtWide.withSuccessor ∧
    builtWide.withSuccessor.DeclarationWellFormed ∧
    built.globals <+: builtWide.withSuccessor.globals := by
  have hm : built.DeclarationWellFormed := by decide +kernel
  have hunmasked : built.Unmasked := by decide +kernel
  have hruns : Runs Compiles built 10 builtWide.withSuccessor :=
    (Runs.refl.tail compiles_builtWide).tail compiles_withSuccessor
  exact ⟨hm, hunmasked, hruns, declarations_ordered hm hunmasked hruns (by decide)⟩

/-- In a module without declarations, an instruction that is no capability keeps the one for 64 bit
integers out. -/
theorem masked_not_enabled :
    let m : Module := { empty ⟨1, 3⟩ with capabilities := [{ opcode := .nop, operands := [11] }] }
    let m' := (Task.typeId (.int true 64)).after { builder := { target := m } }
    m.DeclarationWellFormed ∧ ¬ m'.DeclarationWellFormed := by
  decide +kernel

end Module

end ShaderGraft
