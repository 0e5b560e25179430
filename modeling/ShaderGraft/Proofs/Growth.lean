import Mathlib.Data.List.Basic
import ShaderGraft.Ledger
import ShaderGraft.Proofs.CompileLogic

/-!
# What compiling does to a module

`Builder.Step` lists what one action of a compilation can do: declare a type or a constant that is
not there yet, import an instruction set, ask for a capability, or append an instruction to the
selected block. Whatever a tree compiles to, and wherever it fails, is a sequence of such actions
(`Builder.Grows`, `Tree.growing_serialize`), so what every action keeps, every compilation keeps.

All that a sequence of actions does is to append to three sections and to the selected block
(`Builder.Grows.eq_grow`).
-/

namespace ShaderGraft

namespace Module

/-- The module after an id was given out. -/
def takeId (m : Module) : Module :=
  { m with header.bound := m.header.bound + 1 }

/-- Whether `id` is that of an import that was found or made for an instruction set. -/
def HasImport (m : Module) (name : Bytes) (id : ResultId) : Prop :=
  ∃ inst ∈ m.imports, inst.resultId = id ∧ ((Literal.decode inst.operands).1 = name ∨
    inst.opcode = .extInstImport ∧ inst.operands = Literal.encode name)

/-- The functions with instructions added to the selected block, if there is one. -/
def appendIn (sel : Selection) (insts : List Instruction) (fs : List Function) : List Function :=
  match sel.function, sel.block with
  | some f, some k => fs.modify f fun fn =>
    { fn with blocks := fn.blocks.modify k fun b => { b with body := b.body ++ insts } }
  | _, _ => fs

@[simp] theorem appendIn_nil (sel : Selection) (fs : List Function) : appendIn sel [] fs = fs := by
  rcases sel with ⟨_ | f, _ | k⟩
  · rfl
  · rfl
  · rfl
  · have hblock (fn : Function) : fn.blocks.modify k (fun b => { b with body := b.body ++ [] }) =
        fn.blocks := by simp [← Function.id_def, List.modify_id]
    simp only [appendIn, hblock]
    exact List.modify_id ..

theorem appendIn_appendIn (sel : Selection) (xs ys : List Instruction) (fs : List Function) :
    appendIn sel ys (appendIn sel xs fs) = appendIn sel (xs ++ ys) fs := by
  rcases sel with ⟨_ | f, _ | k⟩
  · rfl
  · rfl
  · rfl
  · simp [appendIn, List.modify_modify_eq, Function.comp_def]

/-- The module with an instruction added to the selected block. -/
def appendTo (m : Module) (sel : Selection) (inst : Instruction) : Module :=
  { m with functions := appendIn sel [inst] m.functions }

end Module

namespace Builder

/-- The builder with another module under the same selection. -/
def withTarget (b : Builder) (m : Module) : Builder :=
  { b with target := m }

/-- The block that new instructions go to. -/
def selected? (b : Builder) : Option Block :=
  b.selection.function.bind fun f => b.selection.block.bind fun k => b.target.block? f k

/-- What one action can do, with the number of ids it gives out. -/
inductive Step : Nat → Builder → Builder → Prop where
  | global {b : Builder} {inst : Instruction} :
    b.target.globals.find? (Declare.declares inst.opcode inst.resultType inst.operands) = none →
      inst.resultId = b.target.header.bound → inst.opcode.placement = .within .globals →
      inst.opcode.layout ≠ .none → inst.opcode ≠ .functionCall →
      Step 1 b (b.withTarget (b.target.takeId.append inst .globals))
  | extInstImport {b : Builder} {inst : Instruction} {name : Bytes} :
    b.target.imports.find? (fun inst => (Literal.decode inst.operands).1 == name) = none →
      inst = { opcode := .extInstImport, resultId := b.target.header.bound
               operands := Literal.encode name } →
      Step 1 b (b.withTarget (b.target.takeId.append inst .imports))
  | capability {b : Builder} {c : Word} :
    b.target.capabilities.any (·.operands == [c]) = false →
      Step 0 b (b.withTarget
        (b.target.append { opcode := .capability, operands := [c] } .capabilities))
  | emit {b : Builder} {block : Block} {inst : Instruction} :
    b.selected? = some block → inst.resultId = b.target.header.bound →
      inst.opcode.layout = .typed → inst.opcode.IsBody → inst.opcode ≠ .functionCall →
      Step 1 b (b.withTarget (b.target.takeId.appendTo b.selection inst))
  /-- An id is lost when there is no block to use it in. -/
  | spend {b : Builder} : b.selected? = none → Step 1 b (b.withTarget b.target.takeId)

/-- Any number of actions, with the number of ids they give out. -/
inductive Grows : Nat → Builder → Builder → Prop where
  | refl {b : Builder} : Grows 0 b b
  | tail {n k : Nat} {a b c : Builder} : Grows n a b → Step k b c → Grows (n + k) a c

namespace Grows

theorem single {n : Nat} {a b : Builder} (h : Step n a b) : Grows n a b := by
  have := Grows.refl.tail h
  rwa [Nat.zero_add] at this

theorem trans {n k : Nat} {a b c : Builder} (h : Grows n a b) (h' : Grows k b c) :
    Grows (n + k) a c := by
  induction h' with
  | refl => exact h
  | tail _ hstep ih =>
    rw [← Nat.add_assoc]
    exact (ih h).tail hstep

end Grows

end Builder

/-- What a compilation adds to a module. -/
structure Additions where
  capabilities : List Instruction := []
  imports : List Instruction := []
  globals : List Instruction := []
  body : List Instruction := []
  imported : ∀ inst ∈ imports, inst.opcode = .extInstImport := by simp
  typed : ∀ inst ∈ body, inst.opcode.layout = .typed := by simp
  /-- Nothing that is added calls a function. -/
  noCalls : ∀ inst ∈ capabilities ++ globals ++ body, inst.opcode ≠ .functionCall := by simp

theorem forall_mem_concat {α : Type} {p : α → Prop} {xs : List α} {x : α} (h : ∀ y ∈ xs, p y)
    (hx : p x) : ∀ y ∈ xs ++ [x], p y := by
  simpa [or_imp, forall_and] using ⟨h, hx⟩

/-- The module with additions, after `n` ids were given out. -/
def Module.grow (m : Module) (sel : Selection) (n : Nat) (a : Additions) : Module :=
  { m with
    header.bound := m.header.bound + .ofNat n
    capabilities := m.capabilities ++ a.capabilities
    imports := m.imports ++ a.imports
    globals := m.globals ++ a.globals
    functions := appendIn sel a.body m.functions }

theorem toNat_add_ofNat {a : Word} {n : Nat} (h : a.toNat + n < UInt32.size) :
    (a + .ofNat n).toNat = a.toNat + n := by
  rw [UInt32.toNat_add, UInt32.toNat_ofNat', Nat.mod_eq_of_lt (by omega : n < UInt32.size),
    Nat.mod_eq_of_lt h]

namespace Builder

/-- The builder with additions, after `n` ids were given out. -/
def grow (b : Builder) (n : Nat) (a : Additions) : Builder :=
  b.withTarget (b.target.grow b.selection n a)

theorem selected?_grow (b : Builder) (n : Nat) (a : Additions) :
    (b.grow n a).selected? =
      b.selected?.map fun block => { block with body := block.body ++ a.body } := by
  rcases b with ⟨m, _ | f, _ | k⟩
  · rfl
  · rfl
  · rfl
  · simp only [selected?, grow, withTarget, Module.grow, Module.block?, Module.appendIn,
      Option.bind_some, List.getElem?_modify_eq]
    cases m.functions[f]? <;> simp

namespace Grows

/-- All that actions do is to add to three sections and to the selected block. With a block selected
no id is lost. -/
theorem eq_grow {n : Nat} {b c : Builder} (h : Grows n b c) :
    ∃ a : Additions, c = b.grow n a ∧
      (b.selected?.isSome → n = a.imports.length + a.globals.length + a.body.length) := by
  induction h with
  | refl => exact ⟨{}, by simp [grow, Module.grow, withTarget], fun _ => rfl⟩
  | @tail n _ b _ _ _ hstep ih =>
    obtain ⟨a, rfl, hcount⟩ := ih
    have hbound : b.target.header.bound + .ofNat n + 1 =
        b.target.header.bound + .ofNat (n + 1) := by
      rw [UInt32.ofNat_add, UInt32.add_assoc]
      rfl
    cases hstep with
    | @global _ inst _ _ _ _ hcall =>
      have hcalls : ∀ i ∈ a.capabilities ++ (a.globals ++ [inst]) ++ a.body,
          i.opcode ≠ .functionCall := by
        simpa [or_imp, forall_and, hcall] using a.noCalls
      refine ⟨{ a with globals := a.globals ++ [inst], noCalls := hcalls }, ?_, fun hsel => ?_⟩
      · simp [grow, Module.grow, withTarget, Module.takeId, Module.append, hbound]
      · simp only [hcount hsel, List.length_append, List.length_singleton]
        omega
    | @extInstImport _ inst _ _ hinst =>
      have himported := forall_mem_concat a.imported (hinst ▸ rfl : inst.opcode = .extInstImport)
      refine ⟨{ a with imports := a.imports ++ [inst], imported := himported }, ?_, fun hsel => ?_⟩
      · simp [grow, Module.grow, withTarget, Module.takeId, Module.append, hbound]
      · simp only [hcount hsel, List.length_append, List.length_singleton]
        omega
    | @capability _ c =>
      let inst : Instruction := { opcode := .capability, operands := [c] }
      have hcalls : ∀ i ∈ a.capabilities ++ [inst] ++ a.globals ++ a.body,
          i.opcode ≠ .functionCall := by
        simpa [or_imp, forall_and, inst] using a.noCalls
      refine ⟨{ a with capabilities := a.capabilities ++ [inst], noCalls := hcalls }, ?_, hcount⟩
      simp [grow, Module.grow, withTarget, Module.append, inst]
    | @emit _ _ inst _ _ hlayout _ hcall =>
      have htyped := forall_mem_concat a.typed hlayout
      have hcalls : ∀ i ∈ a.capabilities ++ a.globals ++ (a.body ++ [inst]),
          i.opcode ≠ .functionCall := by
        simpa [or_imp, forall_and, hcall] using a.noCalls
      refine ⟨{ a with body := a.body ++ [inst], typed := htyped, noCalls := hcalls }, ?_,
        fun hsel => ?_⟩
      · simp [grow, Module.grow, withTarget, Module.takeId, Module.appendTo, hbound,
          Module.appendIn_appendIn]
      · simp only [hcount hsel, List.length_append, List.length_singleton]
        omega
    | spend hnone =>
      refine ⟨a, by simp [grow, Module.grow, withTarget, Module.takeId, hbound], fun hsel => ?_⟩
      -- the block that was selected at the start is still there
      rw [selected?_grow, Option.map_eq_none_iff] at hnone
      simp [hnone] at hsel

end Grows

end Builder

/-! ### Declarations -/

namespace Declare

/-- A step that only declares. -/
def Growing {α : Type} (x : Declare α) : Prop :=
  ∀ b : Builder, ∃ n, Builder.Grows n b (b.withTarget (x.run b.target).2)

theorem growing_pure {α : Type} (a : α) : Growing (pure a : Declare α) :=
  fun _ => ⟨0, .refl⟩

theorem Growing.bind {α β : Type} {x : Declare α} {f : α → Declare β} (hx : x.Growing)
    (hf : ∀ a, (f a).Growing) : (x >>= f).Growing := by
  intro b
  obtain ⟨n, hn⟩ := hx b
  obtain ⟨k, hk⟩ := hf (x.run b.target).1 (b.withTarget (x.run b.target).2)
  exact ⟨n + k, hn.trans hk⟩

theorem Growing.map {α β : Type} {x : Declare α} (hx : x.Growing) (f : α → β) :
    (f <$> x).Growing :=
  hx

theorem run_global (op : Opcode) (type : ResultId) (operands : List Word) (m : Module) :
    (global op type operands).run m =
      match m.globals.find? (declares op type operands) with
      | some inst => (inst.resultId, m)
      | none => (m.header.bound, m.takeId.append
          { opcode := op, resultType := type, resultId := m.header.bound, operands } .globals) := by
  simp only [global, StateT.run_bind, StateT.run_get, pure_bind]
  cases m.globals.find? (declares op type operands) <;> rfl

theorem run_capability (c : Word) (m : Module) :
    (capability c).run m =
      ((), if m.capabilities.any (·.operands == [c]) then m
        else m.append { opcode := .capability, operands := [c] } .capabilities) := by
  simp only [capability, StateT.run_bind, StateT.run_get, pure_bind]
  split <;> rfl

theorem run_extInstImport (name : Bytes) (m : Module) :
    (extInstImport name).run m =
      match m.imports.find? (fun inst => (Literal.decode inst.operands).1 == name) with
      | some inst => (inst.resultId, m)
      | none => (m.header.bound, m.takeId.append
          { opcode := .extInstImport, resultId := m.header.bound, operands := Literal.encode name }
          .imports) := by
  simp only [extInstImport, StateT.run_bind, StateT.run_get, pure_bind]
  cases m.imports.find? _ <;> rfl

theorem extInstImport_hasImport (name : Bytes) (m : Module) :
    ((extInstImport name).run m).2.HasImport name ((extInstImport name).run m).1 := by
  rw [run_extInstImport]
  cases hfind : m.imports.find? (fun inst => (Literal.decode inst.operands).1 == name) with
  | some inst =>
    exact ⟨inst, List.mem_of_find?_eq_some hfind, rfl, .inl (by simpa using List.find?_some hfind)⟩
  | none =>
    exact ⟨_, List.mem_append_right _ (List.mem_singleton_self _), rfl, .inr ⟨rfl, rfl⟩⟩

theorem growing_global (op : Opcode) (type : ResultId) (operands : List Word)
    (hop : op.placement = .within .globals) (hlayout : op.layout ≠ .none)
    (hcall : op ≠ .functionCall := by decide) : (global op type operands).Growing := by
  intro b
  rw [run_global]
  cases hfind : b.target.globals.find? (declares op type operands) with
  | some inst => exact ⟨0, .refl⟩
  | none => exact ⟨1, .single (.global hfind rfl hop hlayout hcall)⟩

theorem growing_capability (c : Word) : (capability c).Growing := by
  intro b
  rw [run_capability]
  cases hany : b.target.capabilities.any (·.operands == [c]) with
  | true => exact ⟨0, .refl⟩
  | false => exact ⟨0, .single (.capability hany)⟩

theorem growing_extInstImport (name : Bytes) : (extInstImport name).Growing := by
  intro b
  rw [run_extInstImport]
  cases hfind : b.target.imports.find? (fun inst => (Literal.decode inst.operands).1 == name) with
  | some inst => exact ⟨0, .refl⟩
  | none => exact ⟨1, .single (.extInstImport hfind rfl)⟩

/-- A declaration that needs a capability if it is of 64 bits. -/
theorem growing_wide {α : Type} (width c : Word) {x : Declare α} (hx : x.Growing) :
    Growing (do
      if width = 64 then capability c
      x) := by
  split
  · exact (growing_capability c).bind fun _ => hx
  · exact hx

theorem growing_typeInt (width : Word) (signed : Bool) : (typeInt width signed).Growing :=
  growing_wide width int64Capability (growing_global _ _ _ rfl (by decide))

theorem growing_typeFloat (width : Word) : (typeFloat width).Growing :=
  growing_wide width float64Capability (growing_global _ _ _ rfl (by decide))

theorem growing_typeVector (component count : Word) : (typeVector component count).Growing :=
  growing_global _ _ _ rfl (by decide)

theorem growing_constant (type : ResultId) (literal : List Word) :
    (constant type literal).Growing :=
  growing_global _ _ _ rfl (by decide)

theorem growing_constantBool (type : ResultId) (value : Bool) :
    (constantBool type value).Growing := by
  cases value
  · exact growing_global _ _ _ rfl (by decide)
  · exact growing_global _ _ _ rfl (by decide)

theorem growing_constantComposite (type : ResultId) (constituents : List ResultId) :
    (constantComposite type constituents).Growing :=
  growing_global _ _ _ rfl (by decide)

end Declare

namespace ValueType

open Declare

mutual

theorem growing_declare : (t : ValueType) → (declare t).Growing
  | .void | .bool => by
    unfold declare
    exact (growing_global _ _ _ rfl (by decide)).map _
  | .int signed width => by
    unfold declare
    exact (growing_typeInt width signed).map _
  | .float width => by
    unfold declare
    exact (growing_typeFloat width).map _
  | .vector elem count => by
    unfold declare
    refine (growing_declare elem).bind fun component => ?_
    cases component with
    | none => exact growing_pure _
    | some id => exact (growing_typeVector id count).bind fun _ => growing_pure _
  | .matrix elem columns rows => by
    unfold declare
    refine (growing_declare elem).bind fun component => ?_
    cases component with
    | none => exact growing_pure _
    | some id =>
      exact (growing_typeVector id rows).bind fun _ =>
        (growing_global _ _ _ rfl (by decide)).bind fun _ => growing_pure _
  | .struct fields => by
    unfold declare
    refine (growing_declareAll fields).bind fun members => ?_
    cases members with
    | none => exact growing_pure _
    | some ids => exact (growing_global _ _ _ rfl (by decide)).bind fun _ => growing_pure _
  | .array elem count => by
    unfold declare
    refine (growing_declare elem).bind fun element => ?_
    cases element with
    | none => exact growing_pure _
    | some id =>
      exact (growing_typeInt 32 false).bind fun type => (growing_constant type [count]).bind
        fun _ => (growing_global _ _ _ rfl (by decide)).bind fun _ => growing_pure _
  | .missing | .literalFloat32 _ | .literalFloat64 _ | .literalInt32 _ | .literalInt64 _ => by
    unfold declare
    exact growing_pure _

theorem growing_declareAll : (ts : List ValueType) → (declareAll ts).Growing
  | [] => growing_pure _
  | t :: ts => by
    unfold declareAll
    refine (growing_declare t).bind fun id => ?_
    cases id with
    | none => exact growing_pure _
    | some id =>
      refine (growing_declareAll ts).bind fun ids => ?_
      cases ids with
      | none => exact growing_pure _
      | some ids => exact growing_pure _

end

end ValueType

/-! ### Instructions -/

/-- Writing back a changed entry changes it in place. -/
theorem set_eq_modify {α : Type} {l : List α} {i : Nat} {a : α} (h : l[i]? = some a) (f : α → α) :
    l.set i (f a) = l.modify i f := by
  apply List.ext_getElem?
  intro j
  grind

namespace Build

/-- With a block selected, an instruction is appended to it. -/
theorem run_insert {b : Builder} {block : Block} (hsel : b.selected? = some block)
    (inst : Instruction) :
    (insert inst).run b = .ok () (b.withTarget (b.target.appendTo b.selection inst)) := by
  obtain ⟨m, _ | f, _ | k⟩ := b
  · cases hsel
  · cases hsel
  · cases hsel
  · change m.functions[f]?.bind (·.blocks[k]?) = some block at hsel
    obtain ⟨fn, hfn, hblock⟩ := Option.bind_eq_some_iff.1 hsel
    have hblocks := set_eq_modify hblock fun b => { b with body := b.body ++ [inst] }
    have hfunctions := set_eq_modify hfn fun fn =>
      { fn with blocks := fn.blocks.modify k fun b => { b with body := b.body ++ [inst] } }
    simp only [insert, EStateM.run_bind, EStateM.run_get, hfn, hblock, hblocks, hfunctions]
    rfl

/-- Without one, nothing happens. -/
theorem run_insert_none {b : Builder} (hsel : b.selected? = none) (inst : Instruction) :
    ∃ e, (insert inst).run b = .error e b := by
  obtain ⟨m, _ | f, _ | k⟩ := b
  · exact ⟨_, rfl⟩
  · exact ⟨_, rfl⟩
  · exact ⟨_, rfl⟩
  · change m.functions[f]?.bind (·.blocks[k]?) = none at hsel
    simp only [insert, EStateM.run_bind, EStateM.run_get]
    cases hfn : m.functions[f]? with
    | none => exact ⟨_, rfl⟩
    | some fn =>
      rw [hfn, Option.bind_some] at hsel
      simp only [hsel]
      exact ⟨_, rfl⟩

theorem run_fresh (b : Builder) :
    fresh.run b = .ok b.target.header.bound (b.withTarget b.target.takeId) :=
  rfl

/-- With a block selected, a new instruction takes the next id. -/
theorem run_emit {b : Builder} {block : Block} (hsel : b.selected? = some block) (op : Opcode)
    (type : ResultId) (operands : List Word) :
    (emit op type operands).run b = .ok b.target.header.bound
      (b.withTarget (b.target.takeId.appendTo b.selection
        { opcode := op, resultType := type, resultId := b.target.header.bound, operands })) := by
  have hinsert := run_insert (b := b.withTarget b.target.takeId) hsel
  simp only [emit, EStateM.run_bind, run_fresh, hinsert]
  rfl

/-- Without one, the id is lost. -/
theorem run_emit_none {b : Builder} (hsel : b.selected? = none) (op : Opcode) (type : ResultId)
    (operands : List Word) :
    ∃ e, (emit op type operands).run b = .error e (b.withTarget b.target.takeId) := by
  obtain ⟨e, hinsert⟩ := run_insert_none (b := b.withTarget b.target.takeId) hsel
    { opcode := op, resultType := type, resultId := b.target.header.bound, operands }
  simp only [emit, EStateM.run_bind, run_fresh, hinsert]
  exact ⟨e, rfl⟩

end Build

theorem Build.grows_emit (op : Opcode) (type : ResultId) (operands : List Word)
    (hlayout : op.layout = .typed) (hbody : op.IsBody) (hcall : op ≠ .functionCall) (b : Builder) :
    ∃ n, Builder.Grows n b (endState (emit op type operands) b) := by
  cases hsel : b.selected? with
  | some block =>
    rw [endState, run_emit hsel]
    exact ⟨1, .single (.emit hsel rfl hlayout hbody hcall)⟩
  | none =>
    obtain ⟨e, he⟩ := run_emit_none hsel op type operands
    rw [endState, he]
    exact ⟨1, .single (.spend hsel)⟩

namespace Serializer

/-- Whether the instruction set in use, if there is one yet, is among the imports. -/
def SetImported (s : Serializer) : Prop :=
  s.setId = 0 ∨ s.builder.target.HasImport s.setName s.setId

/-- What compiling does to a serializer. -/
structure Grows (s t : Serializer) : Prop where
  builder : ∃ n, s.builder.Grows n t.builder
  interface : t.interface = s.interface
  setName : t.setName = s.setName
  setImported : s.SetImported → t.SetImported

namespace Grows

theorem refl (s : Serializer) : s.Grows s :=
  ⟨⟨0, .refl⟩, rfl, rfl, id⟩

theorem trans {s t u : Serializer} (h : s.Grows t) (h' : t.Grows u) : s.Grows u := by
  obtain ⟨n, hn⟩ := h.builder
  obtain ⟨k, hk⟩ := h'.builder
  exact ⟨⟨n + k, hn.trans hk⟩, h'.interface.trans h.interface, h'.setName.trans h.setName,
    h'.setImported ∘ h.setImported⟩

/-- The imports stay, so only the builder has to be looked at where nothing else changes. -/
theorem of_builder {s : Serializer} {n : Nat} {b : Builder} (h : s.builder.Grows n b) :
    s.Grows { s with builder := b } := by
  refine ⟨⟨n, h⟩, rfl, rfl, ?_⟩
  obtain ⟨a, rfl, -⟩ := h.eq_grow
  rintro (hzero | ⟨inst, hmem, hinst⟩)
  · exact .inl hzero
  · exact .inr ⟨inst, List.mem_append_left _ hmem, hinst⟩

end Grows

end Serializer

namespace Emit

/-- A step that only compiles. -/
def Growing {α : Type} (x : Emit α) : Prop :=
  ∀ s : Serializer, s.Grows (endState x s)

theorem Growing.grows {α : Type} {x : Emit α} (hx : x.Growing) {s t : Serializer} {a : α}
    (hrun : x.run s = .ok a t) : s.Grows t := by
  have hs := hx s
  rwa [endState, hrun] at hs

theorem growing_pure {α : Type} (a : α) : Growing (pure a : Emit α) :=
  fun s => .refl s

theorem growing_throw {α : Type} (e : EmitError) : Growing (throw e : Emit α) :=
  fun s => .refl s

theorem Growing.bind {α β : Type} {x : Emit α} {f : α → Emit β} (hx : x.Growing)
    (hf : ∀ a, (f a).Growing) : (x >>= f).Growing := by
  intro s
  have hs := hx s
  simp only [endState, EStateM.run_bind] at hs ⊢
  cases hrun : x.run s with
  | ok a t =>
    rw [hrun] at hs
    exact hs.trans (hf a t)
  | error e t =>
    rw [hrun] at hs
    exact hs

theorem growing_tell (r : Record) : (tell r).Growing :=
  fun _ => ⟨⟨0, .refl⟩, rfl, rfl, id⟩

theorem growing_build {α : Type} {x : Build α}
    (hx : ∀ b, ∃ n, Builder.Grows n b (endState x b)) : (build x).Growing := by
  intro s
  obtain ⟨n, hn⟩ := hx s.builder
  simp only [endState, build, EStateM.run] at hn ⊢
  cases hrun : x s.builder with
  | ok a b =>
    rw [hrun] at hn
    exact .of_builder hn
  | error e b =>
    rw [hrun] at hn
    exact .of_builder hn

theorem growing_declare {α : Type} {x : Declare α} (hx : x.Growing) : (declare x).Growing :=
  growing_build hx

end Emit

namespace Emit

theorem growing_typeId (t : ValueType) : (typeId t).Growing := by
  refine (growing_declare t.growing_declare).bind fun id => ?_
  cases id with
  | none => exact growing_throw _
  | some id => exact growing_pure _

theorem growing_valueType (type : HostType) : (valueType type).Growing := by
  unfold valueType
  split
  · exact growing_pure _
  · exact growing_throw _

theorem run_instructionSet (s : Serializer) :
    instructionSet.run s =
      if s.setId = 0 then
        .ok ((Declare.extInstImport s.setName).run s.builder.target).1 { s with
          builder := s.builder.withTarget ((Declare.extInstImport s.setName).run s.builder.target).2
          setId := ((Declare.extInstImport s.setName).run s.builder.target).1 }
      else .ok s.setId s := by
  simp only [instructionSet, EStateM.run_bind, EStateM.run_get]
  split <;> rfl

/-- Importing makes the set of the serializer one of the imports. -/
theorem growing_instructionSet : instructionSet.Growing := by
  intro s
  by_cases hset : s.setId = 0
  · rw [endState, run_instructionSet, if_pos hset]
    obtain ⟨n, hn⟩ := Declare.growing_extInstImport s.setName s.builder
    exact ⟨⟨n, hn⟩, rfl, rfl, fun _ =>
      .inr (Declare.extInstImport_hasImport s.setName s.builder.target)⟩
  · rw [endState, run_instructionSet, if_neg hset]
    exact .refl s

theorem growing_emit (op : Opcode) (type : ResultId) (operands : List Word)
    (hlayout : op.layout = .typed) (hbody : op.IsBody) (hcall : op ≠ .functionCall := by decide) :
    (build (Build.emit op type operands)).Growing :=
  growing_build (Build.grows_emit op type operands hlayout hbody hcall)

theorem Growing.mapM {α β : Type} {f : α → Emit β} (hf : ∀ a, (f a).Growing) (as : List α) :
    (as.mapM f).Growing := by
  induction as with
  | nil => exact growing_pure _
  | cons a as ih =>
    rw [List.mapM_cons]
    exact (hf a).bind fun _ => ih.bind fun _ => growing_pure _

end Emit

/-! ### Constants -/

open Emit

theorem Scalar.growing_constant (s : Scalar) (type : ResultId) (v : s.Value) :
    (s.constant type v).Growing := by
  cases s with
  | bool => exact Declare.growing_constantBool type v
  | int32 | uint32 | float32 | int64 | uint64 | float64 => exact Declare.growing_constant type _

theorem Scalar.growing_emit (s : Scalar) (v : s.Value) : (s.emit v).Growing :=
  (growing_typeId _).bind fun _ => growing_declare (s.growing_constant _ v)

theorem Scalar.growing_emitVector (s : Scalar) (vs : List s.Value) : (s.emitVector vs).Growing :=
  (growing_typeId _).bind fun _ => (Growing.mapM s.growing_emit vs).bind fun _ =>
    growing_declare (Declare.growing_constantComposite _ _)

theorem growing_emitMatrix (n : Nat) (elements : List UInt32) :
    (emitMatrix n elements).Growing := by
  refine (growing_typeId _).bind fun _ => (growing_typeId _).bind fun _ =>
    (growing_typeId _).bind fun _ => (Growing.mapM (fun c => ?_) _).bind fun _ =>
      growing_declare (Declare.growing_constantComposite _ _)
  exact (Growing.mapM (fun _ => growing_declare (Declare.growing_constant _ _)) _).bind fun _ =>
    growing_declare (Declare.growing_constantComposite _ _)

theorem HostType.growing_emit (type : HostType) (v : type.Value) : (type.emit v).Growing := by
  unfold HostType.emit
  split
  · exact Scalar.growing_emit _ _
  · exact Scalar.growing_emit _ _
  · exact Scalar.growing_emitVector _ _
  · exact Scalar.growing_emitVector _ _
  · exact Scalar.growing_emitVector _ _
  · exact Scalar.growing_emitVector _ _
  · exact growing_emitMatrix _ _
  · exact growing_emitMatrix _ _
  · exact growing_emitMatrix _ _
  · exact (growing_valueType _).bind fun _ => Scalar.growing_emitVector _ _
  · exact (growing_valueType _).bind fun _ => Scalar.growing_emitVector _ _
  · split
    · exact growing_throw _
    · exact growing_throw _

/-! ### Trees -/

theorem Emit.compositional_growing : Compositional Emit.Growing where
  pure := growing_pure
  throw := growing_throw
  bind := Growing.bind
  get := fun s => .refl s
  tell := growing_tell
  typeId := growing_typeId
  constant := HostType.growing_emit
  instructionSet := growing_instructionSet
  emit := fun type operands hlayout hbody hcall =>
    growing_emit _ type operands hlayout hbody hcall

/-- Compiling a tree is a sequence of actions, whether it fails or not. -/
theorem Tree.growing_serialize {i : Input} {t : HostType} (tree : Tree i t) (x : i.Value) :
    (tree.serialize x).Growing :=
  tree.compositional_serialize compositional_growing x

end ShaderGraft
