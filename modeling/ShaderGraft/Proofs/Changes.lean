import ShaderGraft.Proofs.Ids
import ShaderGraft.Proofs.RoundTrip

/-!
# How modules are changed

Whatever works on a module takes ids and puts instructions in their places. `Module.Adds` says where
an instruction can go, and `Module.Changes` is any number of such changes with the number of ids
they take. An instruction either gets an id that is taken for it, and then its result type is of a
known kind, or it is given as it is.

What follows for a module is shown once for all changes: it stays routed (`Changes.routed`), the
result slots of its instructions stay filled (`Changes.filled`), its ids stay distinct
(`Changes.idsBelow`), and the ids of new instructions are new (`Changes.newAbove`), all of it as
long as the bound does not wrap around.
-/

namespace ShaderGraft

namespace Instruction

/-- Whether the instruction has neither a result nor an opcode that would have one. -/
structure Plain (inst : Instruction) : Prop where
  id : inst.resultId = 0
  type : inst.resultType = 0
  layout : inst.opcode.layout = .none

/-- Whether the opcode has a result, with a type of the given kind if there is one. -/
def Typed (kind : ResultId → Prop) (inst : Instruction) : Prop :=
  inst.opcode.layout = .id ∧ inst.resultType = 0 ∨
    inst.opcode.layout = .typed ∧ kind inst.resultType

theorem Plain.slotsFilled {inst : Instruction} (h : inst.Plain) : inst.SlotsFilled :=
  ⟨by simp [h.id, h.layout], by simp [h.type, h.layout]⟩

theorem Typed.slotsFilled {kind : ResultId → Prop} {inst : Instruction} (h : inst.Typed kind)
    (hkind : ∀ id, kind id → id ≠ 0) (hid : inst.resultId ≠ 0) : inst.SlotsFilled := by
  rcases h with ⟨hlayout, htype⟩ | ⟨hlayout, htype⟩
  · exact ⟨by simp [hid, hlayout], by simp [htype, hlayout]⟩
  · exact ⟨by simp [hid, hlayout], by simp [hkind _ htype, hlayout]⟩

theorem plain_functionEnd : Plain { opcode := .functionEnd } :=
  ⟨rfl, rfl, by decide⟩

end Instruction

/-! ### Places in a function -/

namespace Function

/-- What putting an instruction in its place can do to a function. -/
inductive Adds (inst : Instruction) (f : Function) : Function → Prop where
  | parameter : inst.opcode = .functionParameter →
      Adds inst f { f with parameters := f.parameters ++ [inst] }
  | label : inst.opcode = .label → Adds inst f { f with blocks := f.blocks ++ [{ label := inst }] }
  | body {k : Nat} {block : Block} : f.blocks[k]? = some block → inst.opcode.IsBody →
      Adds inst f { f with blocks := f.blocks.set k { block with body := block.body ++ [inst] } }

end Function

theorem flatMap_set_perm {α β : Type} (g : α → List β) {as : List α} {i : Nat} {a a' : α} {x : β}
    (h : as[i]? = some a) (hperm : (g a').Perm (x :: g a)) :
    ((as.set i a').flatMap g).Perm (x :: as.flatMap g) := by
  rw [set_eq_modify h fun _ => a']
  exact Module.flatMap_modify_perm g (fun _ => a') h hperm

namespace Function.Adds

variable {inst : Instruction} {f g : Function}

theorem perm (h : Adds inst f g) : g.instructions.Perm (inst :: f.instructions) := by
  have hblocks {bs : List Block}
      (hperm : (bs.flatMap Block.instructions).Perm (inst :: f.blocks.flatMap Block.instructions)) :
      ({ f with blocks := bs } : Function).instructions.Perm (inst :: f.instructions) :=
    ((hperm.append_left _).append_right _).trans (List.perm_middle.append_right _)
  cases h with
  | parameter =>
    have hparameters : (f.definition :: (f.parameters ++ [inst])).Perm
        (inst :: f.definition :: f.parameters) := by
      rw [← List.cons_append]
      exact List.perm_append_singleton ..
    exact (hparameters.append_right _).append_right _
  | label =>
    refine hblocks ?_
    rw [List.flatMap_append]
    exact List.perm_append_singleton ..
  | @body _ block hblock _ =>
    refine hblocks (flatMap_set_perm _ hblock ?_)
    exact List.perm_append_singleton inst block.instructions

/-- Only what must have a result becomes part of the outline. -/
theorem mem_outline (h : Adds inst f g) {other : Instruction} (hother : other ∈ g.outline) :
    other ∈ f.outline ∨ other = inst ∧ inst.opcode.layout ≠ .none := by
  cases h with
  | parameter hop =>
    have hlayout : inst.opcode.layout ≠ .none := by
      rw [hop]
      decide
    simp only [outline, List.cons_append, List.mem_cons, List.mem_append, List.not_mem_nil,
      or_false] at hother ⊢
    tauto
  | label hop =>
    have hlayout : inst.opcode.layout ≠ .none := by
      rw [hop]
      decide
    simp only [outline, List.map_append, List.map_cons, List.map_nil, List.mem_append,
      List.mem_singleton] at hother ⊢
    tauto
  | @body k block hblock _ =>
    have hlabels : (f.blocks.set k { block with body := block.body ++ [inst] }).map Block.label =
        f.blocks.map Block.label := by
      rw [set_eq_modify hblock fun b => { b with body := b.body ++ [inst] }]
      exact Module.map_label_modify ..
    simp only [outline, hlabels] at hother
    exact .inl hother

theorem formed (h : Adds inst f g) (hf : f.Formed) : g.Formed := by
  obtain ⟨⟨hdefinition, hparameters, hlabels, hbodies⟩, hending⟩ := hf
  cases h with
  | parameter hop =>
    exact ⟨⟨hdefinition, forall_mem_concat hparameters hop, hlabels, hbodies⟩, hending⟩
  | label hop =>
    refine ⟨⟨hdefinition, hparameters, forall_mem_concat hlabels hop, ?_⟩, hending⟩
    exact forall_mem_concat hbodies (by simp)
  | @body k block hblock hop =>
    have hmem := List.mem_of_getElem? hblock
    refine ⟨⟨hdefinition, hparameters, fun b hb => ?_, fun b hb => ?_⟩, hending⟩
    · rcases List.mem_or_eq_of_mem_set hb with hb | rfl
      · exact hlabels b hb
      · exact hlabels block hmem
    · rcases List.mem_or_eq_of_mem_set hb with hb | rfl
      · exact hbodies b hb
      · exact forall_mem_concat (hbodies block hmem) hop

end Function.Adds

/-! ### Places in a module -/

namespace Module

/-- What putting an instruction in its place can do to a module. -/
inductive Adds (inst : Instruction) (m : Module) : Module → Prop where
  | within {s : Section} : inst.opcode.placement = .within s → Adds inst m (m.append inst s)
  /-- The end of a new function comes with its definition. -/
  | function : inst.opcode = .function →
      Adds inst m { m with functions := m.functions ++ [{ definition := inst }] }
  | inside {index : Nat} {f g : Function} : m.functions[index]? = some f → f.Adds inst g →
      Adds inst m { m with functions := m.functions.set index g }

/-- Appending to a selected block. -/
theorem adds_appendTo {b : Builder} {block : Block} {m : Module} {inst : Instruction}
    (hsel : b.selected? = some block) (hm : m.functions = b.target.functions)
    (hop : inst.opcode.IsBody) : Adds inst m (m.appendTo b.selection inst) := by
  obtain ⟨target, _ | index, _ | k⟩ := b
  · cases hsel
  · cases hsel
  · cases hsel
  change target.functions[index]?.bind (·.blocks[k]?) = some block at hsel
  change m.functions = target.functions at hm
  obtain ⟨f, hf, hblock⟩ := Option.bind_eq_some_iff.1 hsel
  rw [← hm] at hf
  have hadds := Adds.inside hf (.body hblock hop)
  have hblocks := set_eq_modify hblock fun b => { b with body := b.body ++ [inst] }
  have hfunctions := set_eq_modify hf fun f =>
    { f with blocks := f.blocks.modify k fun b => { b with body := b.body ++ [inst] } }
  rw [hblocks, hfunctions] at hadds
  exact hadds

theorem Adds.gains {inst : Instruction} {m m' : Module} (h : Adds inst m m') :
    Gains inst m m' := by
  cases h with
  | within _ => exact m.gains_append inst _
  | function hop =>
    refine ⟨rfl, ⟨[{ opcode := .functionEnd }], by simp, ?_⟩, fun f hf other hother => ?_⟩
    · have hinstructions : ({ m with functions := m.functions ++ [{ definition := inst }] } :
          Module).instructions = m.instructions ++ [inst, { opcode := .functionEnd }] := by
        simp [instructions, declarations, Function.instructions]
      rw [hinstructions]
      exact List.perm_append_comm
    · rcases List.mem_append.1 hf with hf | hf
      · exact .inr ⟨f, hf, hother⟩
      · cases List.mem_singleton.1 hf
        refine .inl ⟨by simpa [Function.outline] using hother, ?_⟩
        rw [hop]
        decide
  | @inside index f g hf hg =>
    refine ⟨rfl, ⟨[], by simp, ?_⟩, fun f' hf' other hother => ?_⟩
    · exact ((flatMap_set_perm _ hf hg.perm).append_left _).trans List.perm_middle
    · rcases List.mem_or_eq_of_mem_set hf' with hf' | rfl
      · exact .inr ⟨f', hf', hother⟩
      · rcases hg.mem_outline hother with hother | hother
        · exact .inr ⟨f, List.mem_of_getElem? hf, hother⟩
        · exact .inl hother

theorem Routed.withFunctions {m : Module} (h : m.Routed) {fs : List Function}
    (hfs : ∀ f ∈ fs, f.Formed) : Routed { m with functions := fs } := by
  refine ⟨fun s => ?_, h.memoryModel, hfs⟩
  have hs := h.sections s
  cases s <;> exact hs

theorem Routed.takeId {m : Module} (h : m.Routed) : m.takeId.Routed := by
  refine ⟨fun s => ?_, h.memoryModel, h.functions⟩
  have hs := h.sections s
  cases s <;> exact hs

theorem Adds.routed {inst : Instruction} {m m' : Module} (h : Adds inst m m') (hm : m.Routed) :
    m'.Routed := by
  cases h with
  | within hs => exact (Draft.Places.routed (.within hs) ⟨hm, by simp⟩).complete
  | function hop =>
    refine hm.withFunctions (forall_mem_concat hm.functions ?_)
    exact ⟨⟨hop, by simp, by simp, by simp⟩, rfl⟩
  | inside hf hg =>
    refine hm.withFunctions fun g hmem => ?_
    rcases List.mem_or_eq_of_mem_set hmem with hmem | rfl
    · exact hm.functions g hmem
    · exact hg.formed (hm.functions _ (List.mem_of_getElem? hf))

/-- Another memory model takes the place of the old one, if there was one. -/
theorem instructions_memoryModel (m : Module) (inst : Instruction) :
    ∃ rest, rest.Sublist m.instructions ∧
      ({ m with memoryModel := some inst } : Module).instructions.Perm (inst :: rest) := by
  refine ⟨({ m with memoryModel := none } : Module).instructions, ?_, ?_⟩
  · simp only [instructions, declarations, Option.toList_none, List.append_nil]
    simp only [List.append_assoc, List.append_sublist_append_left]
    exact List.sublist_append_right ..
  · rw [List.perm_iff_count]
    intro other
    simp only [instructions, declarations, Option.toList_none, Option.toList_some,
      List.count_append, List.count_cons, List.count_nil]
    omega

theorem mem_instructions_memoryModel {m : Module} {inst other : Instruction}
    (h : other ∈ ({ m with memoryModel := some inst } : Module).instructions) :
    other = inst ∨ other ∈ m.instructions := by
  obtain ⟨rest, hrest, hperm⟩ := m.instructions_memoryModel inst
  rcases List.mem_cons.1 (hperm.mem_iff.1 h) with h | h
  · exact .inl h
  · exact .inr (hrest.subset h)

theorem IdsBelow.memoryModel {m : Module} {inst : Instruction} {limit : Nat}
    (hm : m.IdsBelow limit) (hinst : inst.Plain) :
    IdsBelow { m with memoryModel := some inst } limit := by
  obtain ⟨rest, hrest, hperm⟩ := m.instructions_memoryModel inst
  refine ⟨⟨?_, fun other hother hlayout => ?_, hm.outline⟩, hm.pos, fun other hother => ?_,
    hm.bound_eq⟩
  · rw [hperm.pairwise_iff fun h => h.symm, List.pairwise_cons]
    exact ⟨fun _ _ _ => hinst.id, hm.distinct.sublist hrest⟩
  · rcases mem_instructions_memoryModel hother with rfl | hother
    · exact absurd hinst.layout hlayout
    · exact hm.ne_zero other hother hlayout
  · rcases mem_instructions_memoryModel hother with rfl | hother
    · exact hinst.id ▸ hm.pos
    · exact hm.below other hother

/-! ### Changes -/

/-- Any number of changes to a module, with the number of ids they take. The instructions that are
put in as they are satisfy `given`, and the result types of those that get an id are of a kind. -/
inductive Changes (given : Instruction → Prop) (kind : Module → ResultId → Prop) (m : Module) :
    Nat → Module → Prop where
  | refl : Changes given kind m 0 m
  | take {n : Nat} {m' : Module} : Changes given kind m n m' →
      Changes given kind m (n + 1) m'.takeId
  | new {n : Nat} {m' m'' : Module} {inst : Instruction} : Changes given kind m n m' →
      inst.resultId = m'.header.bound → inst.Typed (kind m') → Adds inst m'.takeId m'' →
      Changes given kind m (n + 1) m''
  | put {n : Nat} {m' m'' : Module} {inst : Instruction} : Changes given kind m n m' →
      given inst → Adds inst m' m'' → Changes given kind m n m''
  | memoryModel {n : Nat} {m' : Module} {inst : Instruction} : Changes given kind m n m' →
      inst.opcode = .memoryModel → inst.Plain →
      Changes given kind m n { m' with memoryModel := some inst }

namespace Changes

variable {given : Instruction → Prop} {kind : Module → ResultId → Prop} {m m' : Module} {n : Nat}

theorem trans {m'' : Module} {k : Nat} (h : Changes given kind m n m')
    (h' : Changes given kind m' k m'') : Changes given kind m (n + k) m'' := by
  induction h' with
  | refl => exact h
  | take _ ih => exact ih.take
  | new _ hid htyped hadds ih => exact ih.new hid htyped hadds
  | put _ hinst hadds ih => exact ih.put hinst hadds
  | memoryModel _ hop hplain ih => exact ih.memoryModel hop hplain

theorem mono {given' : Instruction → Prop} {kind' : Module → ResultId → Prop}
    (h : Changes given kind m n m') (hgiven : ∀ inst, given inst → given' inst)
    (hkind : ∀ m id, kind m id → kind' m id) : Changes given' kind' m n m' := by
  induction h with
  | refl => exact .refl
  | take _ ih => exact ih.take
  | new _ hid htyped hadds ih =>
    exact ih.new hid (htyped.imp_right fun ⟨hlayout, htype⟩ => ⟨hlayout, hkind _ _ htype⟩) hadds
  | put _ hinst hadds ih => exact ih.put (hgiven _ hinst) hadds
  | memoryModel _ hop hplain ih => exact ih.memoryModel hop hplain

theorem bound (h : Changes given kind m n m') :
    m'.header.bound = m.header.bound + .ofNat n := by
  have hsucc (k : Nat) : m.header.bound + .ofNat k + 1 = m.header.bound + .ofNat (k + 1) := by
    rw [UInt32.ofNat_add, UInt32.add_assoc]
    rfl
  induction h with
  | refl => exact (UInt32.add_zero _).symm
  | take _ ih =>
    rw [← hsucc, ← ih]
    rfl
  | new _ _ _ hadds ih =>
    rw [hadds.gains.header, ← hsucc, ← ih]
    rfl
  | put _ _ hadds ih => rw [hadds.gains.header, ih]
  | memoryModel _ _ _ ih => exact ih

theorem routed (h : Changes given kind m n m') (hm : m.Routed) : m'.Routed := by
  induction h with
  | refl => exact hm
  | take _ ih => exact ih.takeId
  | new _ _ _ hadds ih => exact hadds.routed ih.takeId
  | put _ _ hadds ih => exact hadds.routed ih
  | memoryModel _ hop _ ih =>
    refine ⟨fun s => ?_, by simpa using hop, ih.functions⟩
    have hs := ih.sections s
    cases s <;> exact hs

/-- Before the last id is taken the bound is not zero. -/
theorem bound_ne_zero (h : Changes given kind m n m') (hbound : m.header.bound ≠ 0)
    (hlimit : m.header.bound.toNat + n < UInt32.size) : m'.header.bound ≠ 0 := by
  intro hzero
  have hsum := toNat_add_ofNat hlimit
  rw [← h.bound, hzero] at hsum
  have hpos : m.header.bound.toNat ≠ 0 := fun heq => hbound (UInt32.toNat_inj.1 heq)
  change 0 = _ at hsum
  omega

theorem filled (h : Changes given kind m n m') (hm : ∀ inst ∈ m.instructions, inst.SlotsFilled)
    (hbound : m.header.bound ≠ 0) (hlimit : m.header.bound.toNat + n ≤ UInt32.size)
    (hgiven : ∀ inst, given inst → inst.SlotsFilled)
    (hkind : ∀ m' id, (∀ inst ∈ m'.instructions, inst.SlotsFilled) → kind m' id → id ≠ 0) :
    ∀ inst ∈ m'.instructions, inst.SlotsFilled := by
  have hend := Instruction.plain_functionEnd.slotsFilled
  induction h with
  | refl => exact hm
  | take _ ih => exact ih (by omega)
  | @new n _ _ inst h hid htyped hadds ih =>
    -- the slots filled so far are what the kind of the type may rest on
    have hm' := ih (by omega)
    have hne : inst.resultId ≠ 0 := by
      rw [hid]
      exact h.bound_ne_zero hbound (by omega)
    exact hadds.gains.forall_mem hm' (htyped.slotsFilled (fun id => hkind _ id hm') hne) hend
  | put _ hinst hadds ih => exact hadds.gains.forall_mem (ih hlimit) (hgiven _ hinst) hend
  | @memoryModel _ m' inst _ _ hplain ih =>
    intro other hother
    rcases mem_instructions_memoryModel hother with rfl | hother
    · exact hplain.slotsFilled
    · exact ih hlimit other hother

theorem idsBelow (h : Changes given kind m n m') {limit : Nat} (hm : m.IdsBelow limit)
    (hlimit : limit + n ≤ UInt32.size) (hgiven : ∀ inst, given inst → inst.Plain) :
    m'.IdsBelow (limit + n) := by
  induction h with
  | refl => exact hm
  | take _ ih => exact (ih (by omega)).takeId
  | new _ hid _ hadds ih =>
    have hbelow := ih (by omega)
    rw [← Nat.add_assoc]
    exact hadds.gains.idsBelow_new hbelow (by omega) hid
  | put _ hinst hadds ih =>
    have hplain := hgiven _ hinst
    exact hadds.gains.idsBelow_plain (ih hlimit) hplain.id hplain.layout
  | memoryModel _ _ hplain ih => exact (ih hlimit).memoryModel hplain

/-- No new instruction has an id that was there to be used before. -/
theorem newAbove (h : Changes given kind m n m') {limit : Nat} (hm : m.IdsBelow limit)
    (hlimit : limit + n ≤ UInt32.size) (hgiven : ∀ inst, given inst → inst.Plain) :
    ∀ inst ∈ m'.instructions, inst ∈ m.instructions ∨ inst.resultId = 0 ∨
      limit ≤ inst.resultId.toNat := by
  have hend {p : Prop} : p ∨ ({ opcode := .functionEnd } : Instruction).resultId = 0 ∨
      limit ≤ ({ opcode := .functionEnd } : Instruction).resultId.toNat := .inr (.inl rfl)
  induction h with
  | refl => exact fun inst hinst => .inl hinst
  | take _ ih => exact ih (by omega)
  | @new n _ _ inst h hid _ hadds ih =>
    refine hadds.gains.forall_mem (ih (by omega)) (.inr (.inr ?_)) hend
    rw [hid, (h.idsBelow hm (by omega) hgiven).toNat_bound (by omega)]
    omega
  | put _ hinst hadds ih =>
    exact hadds.gains.forall_mem (ih hlimit) (.inr (.inl (hgiven _ hinst).id)) hend
  | memoryModel _ _ hplain ih =>
    intro other hother
    rcases mem_instructions_memoryModel hother with rfl | hother
    · exact .inr (.inl hplain.id)
    · exact ih hlimit other hother

end Changes

end Module

end ShaderGraft
