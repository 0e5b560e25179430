import Mathlib.Data.List.Perm.Basic
import ShaderGraft.Module.Lookup
import ShaderGraft.Proofs.Injection

/-!
# Well-formed ids

In a module with well-formed ids every result has an id of its own below the bound, so looking an id
up gives the one instruction that defines it. Compiling keeps this: every action gives its
instruction the next id (`Builder.Step.idsBelow`), and what an injection drops can only make ids
disappear (`Module.IdsBelow.graft`).

The bound is a word and wraps around after the last id. `Module.IdsBelow` counts in natural numbers
instead, so that the last id can still be given out; the ids are well-formed as long as the number
is one that the bound can hold.
-/

namespace ShaderGraft

namespace Instruction

/-- Whether two instructions have different results, or none. -/
def Apart (a b : Instruction) : Prop :=
  a.resultId = b.resultId → a.resultId = 0

instance (a b : Instruction) : Decidable (a.Apart b) :=
  inferInstanceAs (Decidable (_ → _))

theorem Apart.symm {a b : Instruction} (h : a.Apart b) : b.Apart a :=
  fun heq => heq.trans (h heq.symm)

end Instruction

/-- The instructions of a function that must have a result: its definition, its parameters and the
labels of its blocks. -/
def Function.outline (f : Function) : List Instruction :=
  f.definition :: f.parameters ++ f.blocks.map Block.label

theorem Function.mem_instructions_of_mem_body {f : Function} {b : Block} {inst : Instruction}
    (hb : b ∈ f.blocks) (hinst : inst ∈ b.body) : inst ∈ f.instructions := by
  refine List.mem_append_left _ (List.mem_append_right _ ?_)
  exact List.mem_flatMap.2 ⟨b, hb, List.mem_cons_of_mem _ hinst⟩

namespace Module

/-- Whether all results have ids that are not zero and different from each other. -/
@[mk_iff]
structure IdsDistinct (m : Module) : Prop where
  distinct : m.instructions.Pairwise Instruction.Apart
  ne_zero : ∀ inst ∈ m.instructions, inst.opcode.layout ≠ .none → inst.resultId ≠ 0
  outline : ∀ f ∈ m.functions, ∀ inst ∈ f.outline, inst.resultId ≠ 0

instance (m : Module) : Decidable m.IdsDistinct :=
  decidable_of_iff' _ m.idsDistinct_iff

/-- Whether these ids are also below the bound. -/
@[mk_iff]
structure IdWellFormed (m : Module) : Prop extends m.IdsDistinct where
  bound_ne_zero : m.header.bound ≠ 0
  below : ∀ inst ∈ m.instructions, inst.resultId < m.header.bound

instance (m : Module) : Decidable m.IdWellFormed :=
  decidable_of_iff' _ m.idWellFormed_iff

/-- Whether these ids are below a number, of which the bound may have only the lower bits. -/
structure IdsBelow (m : Module) (limit : Nat) : Prop extends m.IdsDistinct where
  pos : 0 < limit
  below : ∀ inst ∈ m.instructions, inst.resultId.toNat < limit
  bound_eq : m.header.bound = .ofNat limit

theorem IdWellFormed.idsBelow {m : Module} (hm : m.IdWellFormed) :
    m.IdsBelow m.header.bound.toNat where
  toIdsDistinct := hm.toIdsDistinct
  pos := Nat.pos_of_ne_zero fun h => hm.bound_ne_zero (UInt32.toNat_inj.1 h)
  below := fun inst hinst => UInt32.lt_iff_toNat_lt.1 (hm.below inst hinst)
  bound_eq := UInt32.ofNat_toNat.symm

theorem IdsBelow.toNat_bound {m : Module} {limit : Nat} (hm : m.IdsBelow limit)
    (hlimit : limit < UInt32.size) : m.header.bound.toNat = limit := by
  rw [hm.bound_eq, UInt32.toNat_ofNat_of_lt' hlimit]

theorem IdsBelow.idWellFormed {m : Module} {limit : Nat} (hm : m.IdsBelow limit)
    (hlimit : limit < UInt32.size) : m.IdWellFormed where
  toIdsDistinct := hm.toIdsDistinct
  bound_ne_zero := fun h => by
    have hbound := hm.toNat_bound hlimit
    have hpos := hm.pos
    rw [h] at hbound
    exact absurd hbound.symm (Nat.ne_of_gt hpos)
  below := fun inst hinst => by
    rw [UInt32.lt_iff_toNat_lt, hm.toNat_bound hlimit]
    exact hm.below inst hinst

/-! ### Looking ids up -/

/-- In a list without common ids, an instruction with a result is found by it. -/
theorem find?_resultId {insts : List Instruction} {inst : Instruction}
    (h : insts.Pairwise Instruction.Apart) (hmem : inst ∈ insts) (hid : inst.resultId ≠ 0) :
    insts.find? (·.resultId == inst.resultId) = some inst := by
  induction insts with
  | nil => cases hmem
  | cons other rest ih =>
    rw [List.pairwise_cons] at h
    rcases List.mem_cons.1 hmem with rfl | hmem
    · simp
    · have hne : other.resultId ≠ inst.resultId := fun heq => hid (heq ▸ h.1 inst hmem heq)
      rw [List.find?_cons_of_neg (by simpa using hne)]
      exact ih h.2 hmem

theorem mem_of_global? {m : Module} {id : ResultId} {inst : Instruction}
    (h : m.global? id = some inst) : inst ∈ m.globals ∧ inst.resultId = id := by
  rw [global?] at h
  split at h
  · cases h
  · exact ⟨List.mem_of_find?_eq_some h, by simpa using List.find?_some h⟩

theorem sublist_globals (m : Module) : m.globals.Sublist m.instructions :=
  (List.sublist_append_right _ _).trans (List.sublist_append_left _ _)

theorem mem_instructions_of_mem_function {m : Module} {f : Function} {inst : Instruction}
    (hf : f ∈ m.functions) (hinst : inst ∈ f.instructions) : inst ∈ m.instructions :=
  List.mem_append_right _ (List.mem_flatMap.2 ⟨f, hf, hinst⟩)

namespace IdsDistinct

variable {m : Module}

theorem definition?_eq (hm : m.IdsDistinct) {inst : Instruction} (hmem : inst ∈ m.instructions)
    (hid : inst.resultId ≠ 0) : m.definition? inst.resultId = some inst := by
  rw [definition?, if_neg hid]
  exact find?_resultId hm.distinct hmem hid

theorem global?_eq (hm : m.IdsDistinct) {inst : Instruction} (hmem : inst ∈ m.globals)
    (hid : inst.resultId ≠ 0) : m.global? inst.resultId = some inst := by
  rw [global?, if_neg hid]
  exact find?_resultId (hm.distinct.sublist m.sublist_globals) hmem hid

theorem functions_pairwise (hm : m.IdsDistinct) :
    m.functions.Pairwise fun f g => f.id ≠ g.id := by
  have hfunctions : (m.functions.flatMap Function.instructions).Pairwise Instruction.Apart :=
    hm.distinct.sublist (List.sublist_append_right ..)
  rw [List.pairwise_flatMap] at hfunctions
  refine hfunctions.2.imp_of_mem fun hf _ hapart heq => ?_
  have hdefinition (f : Function) : f.definition ∈ f.instructions := by
    simp [Function.instructions]
  exact hm.outline _ hf _ (List.mem_cons_self ..)
    (hapart _ (hdefinition _) _ (hdefinition _) heq)

/-- A function is found by its id. -/
theorem functionWithId?_eq (hm : m.IdsDistinct) {index : Nat} {f : Function}
    (hf : m.functions[index]? = some f) : m.functionWithId? f.id = some index := by
  obtain ⟨hlt, rfl⟩ := List.getElem?_eq_some_iff.1 hf
  rw [functionWithId?, List.findIdx?_eq_some_iff_getElem]
  refine ⟨hlt, by simp, fun j hj => ?_⟩
  have hne := List.pairwise_iff_getElem.1 hm.functions_pairwise j index (by omega) hlt hj
  simpa using hne

end IdsDistinct

/-! ### New ids -/

namespace IdsBelow

variable {m m' : Module} {limit : Nat}

/-- Instructions can be left out. -/
theorem sublist (hm : m.IdsBelow limit) (hsub : m'.instructions.Sublist m.instructions)
    (hbound : m'.header.bound = m.header.bound)
    (houtline : ∀ f ∈ m'.functions, ∀ inst ∈ f.outline, inst.resultId ≠ 0) :
    m'.IdsBelow limit where
  distinct := hm.distinct.sublist hsub
  ne_zero := fun inst hinst => hm.ne_zero inst (hsub.subset hinst)
  outline := houtline
  pos := hm.pos
  below := fun inst hinst => hm.below inst (hsub.subset hinst)
  bound_eq := hbound.trans hm.bound_eq

/-- An id can be skipped. -/
theorem takeId (hm : m.IdsBelow limit) : m.takeId.IdsBelow (limit + 1) where
  toIdsDistinct := ⟨hm.distinct, hm.ne_zero, hm.outline⟩
  pos := Nat.succ_pos limit
  below := fun inst hinst => Nat.lt_succ_of_lt (hm.below inst hinst)
  bound_eq := by
    change m.header.bound + 1 = _
    rw [hm.bound_eq, UInt32.ofNat_add]
    rfl

end IdsBelow

/-- What an additional instruction changes, wherever it is put: with the definition of a function
comes its end, and only what must have a result becomes part of an outline. -/
structure Gains (inst : Instruction) (m m' : Module) : Prop where
  header : m'.header = m.header
  perm : ∃ ends, (∀ e ∈ ends, e = { opcode := .functionEnd }) ∧
    m'.instructions.Perm (inst :: (ends ++ m.instructions))
  outline : ∀ f ∈ m'.functions, ∀ other ∈ f.outline,
    other = inst ∧ inst.opcode.layout ≠ .none ∨ ∃ g ∈ m.functions, other ∈ g.outline

namespace Gains

variable {inst : Instruction} {m m' : Module}

/-- What holds of the instructions before and of the new one holds of all. -/
theorem forall_mem (h : Gains inst m m') {p : Instruction → Prop}
    (hm : ∀ other ∈ m.instructions, p other) (hinst : p inst)
    (hend : p { opcode := .functionEnd }) : ∀ other ∈ m'.instructions, p other := by
  intro other hother
  obtain ⟨ends, hends, hperm⟩ := h.perm
  rcases List.mem_cons.1 (hperm.mem_iff.1 hother) with rfl | hother
  · exact hinst
  · rcases List.mem_append.1 hother with hother | hother
    · exact hends other hother ▸ hend
    · exact hm other hother

theorem distinct (h : Gains inst m m') (hm : m.instructions.Pairwise Instruction.Apart)
    (hinst : ∀ other ∈ m.instructions, inst.Apart other) :
    m'.instructions.Pairwise Instruction.Apart := by
  obtain ⟨ends, hends, hperm⟩ := h.perm
  have hend {e : Instruction} (he : e ∈ ends) : e.resultId = 0 := by rw [hends e he]
  rw [hperm.pairwise_iff fun h => h.symm, List.pairwise_cons, List.pairwise_append]
  refine ⟨fun other hother => ?_, ?_, hm, fun e he _ _ _ => hend he⟩
  · rcases List.mem_append.1 hother with hother | hother
    · exact fun heq => heq.trans (hend hother)
    · exact hinst other hother
  · exact List.pairwise_of_forall_mem_list fun e he _ _ _ => hend he

/-- An instruction can have any id below the limit that no other instruction has. -/
theorem idsBelow (h : Gains inst m m') {limit : Nat} (hm : m.IdsBelow limit)
    (hbelow : inst.resultId.toNat < limit) (hinst : ∀ other ∈ m.instructions, inst.Apart other)
    (hne : inst.opcode.layout ≠ .none → inst.resultId ≠ 0) : m'.IdsBelow limit where
  distinct := h.distinct hm.distinct hinst
  ne_zero := h.forall_mem hm.ne_zero hne (absurd (by decide))
  outline := fun f hf other hother => by
    rcases h.outline f hf other hother with ⟨rfl, hlayout⟩ | ⟨g, hg, hother⟩
    · exact hne hlayout
    · exact hm.outline g hg other hother
  pos := hm.pos
  below := h.forall_mem hm.below hbelow hm.pos
  bound_eq := by rw [h.header, hm.bound_eq]

/-- A new instruction can have the next id if there is one left. -/
theorem idsBelow_new (h : Gains inst m.takeId m') {limit : Nat} (hm : m.IdsBelow limit)
    (hlimit : limit < UInt32.size) (hid : inst.resultId = m.header.bound) :
    m'.IdsBelow (limit + 1) := by
  have htoNat : inst.resultId.toNat = limit := hid ▸ hm.toNat_bound hlimit
  refine h.idsBelow hm.takeId (by omega) (fun other hother heq => ?_) fun _ => ?_
  · have hlt := hm.below other hother
    rw [← heq, htoNat] at hlt
    exact absurd hlt (Nat.lt_irrefl _)
  · exact hid ▸ (hm.idWellFormed hlimit).bound_ne_zero

/-- An instruction without a result needs no id. -/
theorem idsBelow_plain (h : Gains inst m m') {limit : Nat} (hm : m.IdsBelow limit)
    (hid : inst.resultId = 0) (hlayout : inst.opcode.layout = .none) : m'.IdsBelow limit :=
  h.idsBelow hm (hid ▸ hm.pos) (fun _ _ _ => hid) (absurd hlayout)

end Gains

/-- What appending to a section does to the instructions of the module. -/
theorem instructions_append_perm (m : Module) (inst : Instruction) (s : Section) :
    (m.append inst s).instructions.Perm (inst :: m.instructions) := by
  rw [List.perm_iff_count]
  intro other
  cases s <;> simp only [append, instructions, declarations, List.count_append, List.count_cons,
    List.count_nil] <;> omega

theorem gains_append (m : Module) (inst : Instruction) (s : Section) :
    Gains inst m (m.append inst s) where
  header := by cases s <;> rfl
  perm := ⟨[], by simp, m.instructions_append_perm inst s⟩
  outline := by cases s <;> exact fun f hf other hother => .inr ⟨f, hf, hother⟩

/-- Changing one entry of a list so that it has one element more. -/
theorem flatMap_modify_perm {α β : Type} (g : α → List β) (change : α → α) {x : β} :
    {as : List α} → {i : Nat} → {a : α} → as[i]? = some a → (g (change a)).Perm (x :: g a) →
      ((as.modify i change).flatMap g).Perm (x :: as.flatMap g)
  | a :: as, 0, _, h, hperm => by
    cases h
    exact hperm.append_right _
  | a :: as, i + 1, _, h, hperm => by
    have hrest : ((as.modify i change).flatMap g).Perm (x :: as.flatMap g) :=
      flatMap_modify_perm g change h hperm
    simp only [List.modify_succ_cons, List.flatMap_cons]
    exact (hrest.append_left _).trans List.perm_middle

/-- What appending to the selected block does to the instructions of the functions. -/
theorem flatMap_appendIn_perm {fs : List Function} {f k : Nat} {fn : Function} {block : Block}
    (hfn : fs[f]? = some fn) (hblock : fn.blocks[k]? = some block) (inst : Instruction) :
    ((appendIn ⟨some f, some k⟩ [inst] fs).flatMap Function.instructions).Perm
      (inst :: fs.flatMap Function.instructions) := by
  have hbody : ({ block with body := block.body ++ [inst] } : Block).instructions.Perm
      (inst :: block.instructions) :=
    List.perm_append_singleton inst block.instructions
  have hblocks := flatMap_modify_perm Block.instructions
    (fun b => { b with body := b.body ++ [inst] }) hblock hbody
  refine flatMap_modify_perm Function.instructions _ hfn ?_
  exact ((hblocks.append_left _).append_right _).trans (List.perm_middle.append_right _)

theorem instructions_appendTo_perm {b : Builder} {block : Block} (hsel : b.selected? = some block)
    (inst : Instruction) :
    (b.target.takeId.appendTo b.selection inst).instructions.Perm
      (inst :: b.target.instructions) := by
  obtain ⟨m, _ | f, _ | k⟩ := b
  · cases hsel
  · cases hsel
  · cases hsel
  · change m.functions[f]?.bind (·.blocks[k]?) = some block at hsel
    obtain ⟨fn, hfn, hblock⟩ := Option.bind_eq_some_iff.1 hsel
    exact ((flatMap_appendIn_perm hfn hblock inst).append_left _).trans List.perm_middle

theorem map_label_modify (bs : List Block) (k : Nat) (insts : List Instruction) :
    (bs.modify k fun b => { b with body := b.body ++ insts }).map Block.label =
      bs.map Block.label := by
  apply List.ext_getElem?
  intro j
  simp only [List.getElem?_map, List.getElem?_modify]
  cases bs[j]? with
  | none => rfl
  | some b => simp only [Option.map_eq_map, Option.map_some]; split <;> rfl

/-- Appending to a block leaves the outlines of the functions as they are. -/
theorem map_outline_appendIn (sel : Selection) (insts : List Instruction) (fs : List Function) :
    (appendIn sel insts fs).map Function.outline = fs.map Function.outline := by
  rcases sel with ⟨_ | f, _ | k⟩
  · rfl
  · rfl
  · rfl
  · apply List.ext_getElem?
    intro j
    simp only [appendIn, List.getElem?_map, List.getElem?_modify]
    cases fs[j]? with
    | none => rfl
    | some fn =>
      simp only [Option.map_eq_map, Option.map_some]
      split
      · simp [Function.outline, map_label_modify]
      · rfl

theorem outline_appendIn (sel : Selection) (insts : List Instruction) {fs : List Function}
    {p : Instruction → Prop} (h : ∀ f ∈ fs, ∀ inst ∈ f.outline, p inst) :
    ∀ f ∈ appendIn sel insts fs, ∀ inst ∈ f.outline, p inst := by
  intro f hf inst hinst
  have hmem : f.outline ∈ fs.map Function.outline := by
    rw [← map_outline_appendIn sel insts]
    exact List.mem_map_of_mem hf
  obtain ⟨g, hg, heq⟩ := List.mem_map.1 hmem
  exact h g hg inst (heq ▸ hinst)

/-- A block takes any instruction. -/
theorem gains_appendTo {b : Builder} {block : Block} (hsel : b.selected? = some block)
    (inst : Instruction) : Gains inst b.target (b.target.appendTo b.selection inst) where
  header := rfl
  perm := ⟨[], by simp, instructions_appendTo_perm hsel inst⟩
  outline := outline_appendIn b.selection [inst] fun g hg _ hother => .inr ⟨g, hg, hother⟩

/-- An instruction without a result at the end of the selected block. -/
theorem IdsBelow.appendTo_plain {b : Builder} {block : Block} {inst : Instruction} {limit : Nat}
    (hb : b.target.IdsBelow limit) (hsel : b.selected? = some block) (hid : inst.resultId = 0)
    (hlayout : inst.opcode.layout = .none) :
    (b.target.appendTo b.selection inst).IdsBelow limit :=
  (gains_appendTo hsel inst).idsBelow_plain hb hid hlayout

end Module

namespace Builder

/-- Every action gives its instruction the next id. -/
theorem Step.idsBelow {n limit : Nat} {b c : Builder} (h : Step n b c)
    (hlimit : limit + n ≤ UInt32.size) (hb : b.target.IdsBelow limit) :
    c.target.IdsBelow (limit + n) := by
  cases h with
  | global _ hid _ _ => exact (b.target.takeId.gains_append _ .globals).idsBelow_new hb hlimit hid
  | extInstImport _ hinst =>
    exact (b.target.takeId.gains_append _ .imports).idsBelow_new hb hlimit (hinst ▸ rfl)
  | capability _ =>
    exact (b.target.gains_append _ .capabilities).idsBelow_plain hb rfl
      (show Opcode.capability.layout = .none by decide)
  | @emit _ _ inst hsel hid =>
    have hgains := Module.gains_appendTo (b := b.withTarget b.target.takeId) hsel inst
    exact hgains.idsBelow_new hb hlimit hid
  | spend _ => exact hb.takeId

theorem Grows.idsBelow {n limit : Nat} {b c : Builder} (h : Grows n b c)
    (hlimit : limit + n ≤ UInt32.size) (hb : b.target.IdsBelow limit) :
    c.target.IdsBelow (limit + n) := by
  induction h with
  | refl => exact hb
  | @tail n k _ _ _ _ hstep ih =>
    rw [← Nat.add_assoc]
    exact hstep.idsBelow (by omega) (ih (by omega) hb)

end Builder

/-! ### Injections -/

namespace Module

theorem flatMap_set_sublist {α β : Type} (g : α → List β) {x y : α} (h : (g x).Sublist (g y)) :
    (as : List α) → (i : Nat) → ((as.set i x).flatMap g).Sublist ((as.set i y).flatMap g)
  | [], _ => .slnil
  | _ :: as, 0 => h.append (.refl (as.flatMap g))
  | a :: as, i + 1 => (List.Sublist.refl (g a)).append (flatMap_set_sublist g h as i)

theorem instructions_openBlock_perm {m : Module} {index : Nat} {f : Function}
    (hf : m.functions[index]? = some f) :
    (m.openBlock index f).instructions.Perm
      ({ opcode := .label, resultId := m.header.bound } :: m.instructions) := by
  let block : Block := { label := { opcode := .label, resultId := m.header.bound } }
  have hblocks : ((f.blocks ++ [block]).flatMap Block.instructions).Perm
      (block.label :: f.blocks.flatMap Block.instructions) := by
    rw [List.flatMap_append]
    exact List.perm_append_singleton block.label _
  have hfunctions := flatMap_modify_perm Function.instructions
    (fun f => { f with blocks := f.blocks ++ [block] }) hf
    (((hblocks.append_left (f.definition :: f.parameters)).append_right [f.ending]).trans
      (List.perm_middle.append_right _))
  rw [← set_eq_modify hf] at hfunctions
  exact (hfunctions.append_left _).trans List.perm_middle

theorem gains_openBlock {m : Module} {index : Nat} {f : Function}
    (hf : m.functions[index]? = some f) :
    Gains { opcode := .label, resultId := m.header.bound } m.takeId (m.openBlock index f) where
  header := rfl
  perm := ⟨[], by simp, instructions_openBlock_perm hf⟩
  outline := by
    intro g hg other hother
    rcases List.mem_or_eq_of_mem_set hg with hg | rfl
    · exact .inr ⟨g, hg, hother⟩
    · simp only [Function.outline, List.map_append, ← List.append_assoc, List.map_cons,
        List.map_nil] at hother
      rcases List.mem_append.1 hother with hother | hother
      · exact .inr ⟨f, List.mem_of_getElem? hf, hother⟩
      · exact .inl ⟨List.mem_singleton.1 hother, (by decide : Opcode.label.layout ≠ .none)⟩

/-- Dropping the old blocks only leaves instructions out. -/
theorem instructions_graft_sublist (m : Module) (index : Nat) (f : Function) (n : Nat)
    (a : Additions) (result : ResultId) :
    (m.graft index f n a result).instructions.Sublist
      (m.compiled index f n a result).instructions := by
  have hfunctions : ((m.graft index f n a result).functions.flatMap Function.instructions).Sublist
      ((m.compiled index f n a result).functions.flatMap Function.instructions) := by
    rw [functions_compiled]
    refine flatMap_set_sublist Function.instructions ?_ m.functions index
    refine ((List.Sublist.refl _).append ?_).append (.refl _)
    simp only [List.flatMap_append]
    exact List.sublist_append_right ..
  have hdeclarations : (m.graft index f n a result).declarations.Sublist
      (m.compiled index f n a result).declarations := by
    have hnames := List.filter_sublist (p := (! isAbout (definedIn f.blocks) ·)) (l := m.names)
    have hannotations :=
      List.filter_sublist (p := (! isAbout (definedIn f.blocks) ·)) (l := m.annotations)
    exact ((((List.Sublist.refl _).append hnames).append (.refl _)).append hannotations).append
      (.refl _)
  exact hdeclarations.append hfunctions

namespace IdsBelow

variable {m : Module} {index limit : Nat} {f : Function}

/-- Another list of blocks for a function, one of which takes the next id for its label. -/
theorem outline_set (hm : m.IdsBelow limit) (hlimit : limit < UInt32.size)
    (hf : m.functions[index]? = some f) {blocks : List Block}
    (hblocks : ∀ b ∈ blocks, b ∈ f.blocks ∨ b.label.resultId = m.header.bound) :
    ∀ g ∈ m.functions.set index { f with blocks }, ∀ inst ∈ g.outline, inst.resultId ≠ 0 := by
  intro g hg inst hinst
  have houtline := hm.outline f (List.mem_of_getElem? hf)
  rcases List.mem_or_eq_of_mem_set hg with hg | rfl
  · exact hm.outline g hg inst hinst
  · rcases List.mem_append.1 hinst with hinst | hinst
    · exact houtline inst (List.mem_append_left _ hinst)
    · obtain ⟨b, hb, rfl⟩ := List.mem_map.1 hinst
      rcases hblocks b hb with hb | hb
      · exact houtline _ (List.mem_append_right _ (List.mem_map_of_mem hb))
      · exact hb ▸ (hm.idWellFormed hlimit).bound_ne_zero

theorem openBlock (hm : m.IdsBelow limit) (hlimit : limit < UInt32.size)
    (hf : m.functions[index]? = some f) : (m.openBlock index f).IdsBelow (limit + 1) :=
  (gains_openBlock hf).idsBelow_new hm hlimit rfl

/-- A graft has the ids of what was compiled. -/
theorem graft (hm : m.IdsBelow limit) (hlimit : limit < UInt32.size)
    (hf : m.functions[index]? = some f) {n limit' : Nat} {a : Additions} {result : ResultId}
    (h : (m.compiled index f n a result).IdsBelow limit') :
    (m.graft index f n a result).IdsBelow limit' := by
  refine h.sublist (instructions_graft_sublist ..) rfl (hm.outline_set hlimit hf ?_)
  intro b hb
  exact .inr (by rw [List.mem_singleton.1 hb]; rfl)

end IdsBelow

end Module

theorem Injector.idsBelow_compiled {inj : Injector} {index n : Nat} {f : Function} {s : Serializer}
    {a : Additions} (hinj : inj.target.IdWellFormed) (hf : inj.target.functions[index]? = some f)
    (hgrows : (inj.opened index f).builder.Grows n s.builder)
    (ha : s.builder = (inj.opened index f).builder.grow n a)
    (hlimit : inj.target.header.bound.toNat + (n + 1) ≤ UInt32.size) (result : ResultId) :
    (inj.target.compiled index f n a result).IdsBelow
      (inj.target.header.bound.toNat + (n + 1)) := by
  have hserialized : ((inj.opened index f).builder.grow n a).target.IdsBelow
      (inj.target.header.bound.toNat + 1 + n) := by
    rw [← ha]
    exact hgrows.idsBelow (by omega) (hinj.idsBelow.openBlock (by omega) hf)
  rw [Nat.add_comm n 1, ← Nat.add_assoc]
  exact hserialized.appendTo_plain (selected?_opened_grow hf n a) rfl
    (show Opcode.returnValue.layout = .none by decide)

/-- A committed injection keeps ids distinct as long as there are enough of them. -/
theorem Injector.idsBelow_inject {inj next : Injector} {i : Input} {t : HostType}
    {tree : Tree i t} {input : i.Value} {log : List Record} {index : Nat}
    (h : inj.inject tree input = (log, .ok next)) (hinj : inj.target.IdWellFormed)
    (hindex : inj.target.functionWithId? inj.functionId = some index)
    (hlimit : inj.target.header.bound.toNat + inj.target.idsTaken next.target index ≤ UInt32.size) :
    next.target.IdsBelow
      (inj.target.header.bound.toNat + inj.target.idsTaken next.target index) := by
  obtain ⟨index', f, result, s, n, a, hindex', hf, -, -, hgrows, ha, hn, rfl⟩ := inject_eq_ok h
  cases hindex.symm.trans hindex'
  have htaken : inj.target.idsTaken (inj.target.graft index f n a result) index = n + 1 :=
    Module.idsTaken_graft n a result hf hn
  change _ + inj.target.idsTaken (inj.target.graft index f n a result) index ≤ _ at hlimit
  change (inj.target.graft index f n a result).IdsBelow
    (_ + inj.target.idsTaken (inj.target.graft index f n a result) index)
  rw [htaken] at hlimit ⊢
  exact hinj.idsBelow.graft (by omega) hf (idsBelow_compiled hinj hf hgrows ha hlimit result)

end ShaderGraft
