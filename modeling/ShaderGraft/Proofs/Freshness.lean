import ShaderGraft.Proofs.Survival

/-!
# Ids are fresh

A caller can get ids from a builder and put them into the module later. A `Ledger` is a module with
the ids that are still to be used, and `Ledger.Step` is what can be done with one: a call of a
builder, with an id of the ledger where the caller makes a result; compiling a type, a constant or a
tree; and a committed injection. Every step has its number of ids, also if it fails on the way.

`Module.Reserves` is the invariant: the ids in the module are well-formed, and those that are still
to be used are different from them and from each other. The main statement is `Ledger.Runs.ids_fresh`:
as long as the ids do not run out, every module that is reached has well-formed ids again, and every
id that is given out was not in use.
-/

namespace ShaderGraft

/-! ### Reserved ids -/

namespace Module

/-- Whether the ids in a module are below a limit, and others below it are free to be used. -/
structure Reserves (m : Module) (limit : Nat) (unused : List ResultId) : Prop
    extends m.IdsBelow limit where
  nodup : unused.Nodup
  unused_ne_zero : ∀ id ∈ unused, id ≠ 0
  unused_below : ∀ id ∈ unused, id.toNat < limit
  undefined : ∀ id ∈ unused, ∀ inst ∈ m.instructions, inst.resultId ≠ id

/-- Whether the results that one module has more than another had no id that was in use. -/
def DefinesNew (m m' : Module) : Prop :=
  ∀ inst ∈ m'.instructions, inst ∈ m.instructions ∨ inst.resultId = 0 ∨
    ∀ other ∈ m.instructions, other.resultId ≠ inst.resultId

theorem DefinesNew.refl (m : Module) : m.DefinesNew m :=
  fun _ hinst => .inl hinst

variable {m m' : Module} {limit : Nat} {unused : List ResultId}

theorem IdWellFormed.reserves (hm : m.IdWellFormed) : m.Reserves m.header.bound.toNat [] where
  toIdsBelow := hm.idsBelow
  nodup := .nil
  unused_ne_zero := by simp
  unused_below := by simp
  undefined := by simp

/-- A smaller module leaves the same ids free. -/
theorem Reserves.sublist (hm : m.Reserves limit unused) (hm' : m'.IdsBelow limit)
    (hsub : m'.instructions.Sublist m.instructions) : m'.Reserves limit unused where
  toIdsBelow := hm'
  nodup := hm.nodup
  unused_ne_zero := hm.unused_ne_zero
  unused_below := hm.unused_below
  undefined := fun id hid inst hinst => hm.undefined id hid inst (hsub.subset hinst)

theorem Reserves.takeId (hm : m.Reserves limit unused) (hlimit : limit < UInt32.size) :
    m.takeId.Reserves (limit + 1) (m.header.bound :: unused) := by
  have hbound : m.header.bound.toNat = limit := hm.toNat_bound hlimit
  have hbelow {id : ResultId} (hid : id.toNat < limit) : id ≠ m.header.bound := by
    rintro rfl
    omega
  refine ⟨hm.toIdsBelow.takeId, ?_, ?_, ?_, ?_⟩
  · refine List.nodup_cons.2 ⟨fun hmem => ?_, hm.nodup⟩
    exact hbelow (hm.unused_below _ hmem) rfl
  · rw [List.forall_mem_cons]
    exact ⟨(hm.toIdsBelow.idWellFormed hlimit).bound_ne_zero, hm.unused_ne_zero⟩
  · rw [List.forall_mem_cons]
    exact ⟨by omega, fun id hid => Nat.lt_succ_of_lt (hm.unused_below id hid)⟩
  · rw [List.forall_mem_cons]
    exact ⟨fun inst hinst => hbelow (hm.below inst hinst), hm.undefined⟩

namespace Changes

variable {kind : Module → ResultId → Prop} {n : Nat}

theorem reserves (h : m.Changes Instruction.Plain kind n m') (hm : m.Reserves limit unused)
    (hlimit : limit + n ≤ UInt32.size) : m'.Reserves (limit + n) unused where
  toIdsBelow := h.idsBelow hm.toIdsBelow hlimit fun _ hplain => hplain
  nodup := hm.nodup
  unused_ne_zero := hm.unused_ne_zero
  unused_below := fun id hid => Nat.lt_add_right n (hm.unused_below id hid)
  undefined := fun id hid inst hinst => by
    rcases h.newAbove hm.toIdsBelow hlimit (fun _ hplain => hplain) inst hinst with
      hinst | hzero | habove
    · exact hm.undefined id hid inst hinst
    · rw [hzero]
      exact (hm.unused_ne_zero id hid).symm
    · rintro rfl
      have := hm.unused_below _ hid
      omega

theorem definesNew (h : m.Changes Instruction.Plain kind n m') (hm : m.IdsBelow limit)
    (hlimit : limit + n ≤ UInt32.size) : m.DefinesNew m' := by
  intro inst hinst
  refine (h.newAbove hm hlimit (fun _ hplain => hplain) inst hinst).imp_right (Or.imp_right ?_)
  intro habove other hother heq
  have := hm.below other hother
  rw [heq] at this
  omega

end Changes

/-- An instruction of the caller uses its id up. -/
theorem Gains.reserves {inst : Instruction} (h : Gains inst m m') (hm : m.Reserves limit unused)
    (hinst : inst.resultId ∈ unused ∨ inst.resultId = 0 ∧ inst.opcode.layout = .none) :
    m'.Reserves limit (unused.erase inst.resultId) ∧ m.DefinesNew m' := by
  have hnew (other : Instruction) (hother : other ∈ m.instructions) :
      inst.resultId = 0 ∨ other.resultId ≠ inst.resultId := by
    rcases hinst with hid | ⟨hzero, -⟩
    · exact .inr (hm.undefined _ hid other hother)
    · exact .inl hzero
  have hbelow : inst.resultId.toNat < limit := by
    rcases hinst with hid | ⟨hzero, -⟩
    · exact hm.unused_below _ hid
    · rw [hzero]
      exact hm.pos
  have hne (hlayout : inst.opcode.layout ≠ .none) : inst.resultId ≠ 0 := by
    rcases hinst with hid | ⟨-, hnone⟩
    · exact hm.unused_ne_zero _ hid
    · exact absurd hnone hlayout
  have hsub := List.erase_subset (a := inst.resultId) (l := unused)
  refine ⟨⟨h.idsBelow hm.toIdsBelow hbelow ?_ hne, hm.nodup.erase _, ?_, ?_, ?_⟩, ?_⟩
  · exact fun other hother heq => (hnew other hother).resolve_right fun hother => hother heq.symm
  · exact fun id hid => hm.unused_ne_zero id (hsub hid)
  · exact fun id hid => hm.unused_below id (hsub hid)
  · intro id hid
    have hid' := hm.nodup.mem_erase_iff.1 hid
    exact h.forall_mem (hm.undefined id hid'.2) hid'.1.symm (hm.unused_ne_zero id hid'.2).symm
  · refine h.forall_mem (fun other hother => .inl hother) (.inr ?_) (.inr (.inl rfl))
    by_cases hzero : inst.resultId = 0
    · exact .inl hzero
    · exact .inr fun other hother => (hnew other hother).resolve_left hzero

end Module

/-! ### Steps keep ids reserved -/

namespace Builder.Call

theorem idsTaken_given {c : Call} {inst : Instruction} (h : c.given? = some inst) (b : Builder) :
    c.idsTaken b = 0 := by
  rcases run_given h b with ⟨e, hrun⟩ | ⟨b', hrun, hgains, -⟩
  · rw [idsTaken, after, endState, hrun]
    exact if_pos rfl
  · rw [idsTaken, after, endState, hrun]
    exact if_pos (congrArg Header.bound hgains.header)

theorem unusedAfter_given {c : Call} {inst : Instruction} (h : c.given? = some inst) {b b' : Builder}
    {id? : Option ResultId} (hrun : c.run.run b = .ok id? b') (unused : List ResultId) :
    c.unusedAfter b unused = unused.erase inst.resultId := by
  simp only [unusedAfter, hrun]
  cases c with
  | insert | beginBlockWithLabel =>
    cases h
    rfl
  | _ => cases h

theorem unusedAfter_none {c : Call} (h : c.given? = none) (hc : c ≠ fresh) (b : Builder)
    (unused : List ResultId) : c.unusedAfter b unused = unused := by
  unfold unusedAfter
  cases c.run.run b with
  | error => rfl
  | ok =>
    cases c with
    | fresh => exact absurd rfl hc
    | insert | beginBlockWithLabel => cases h
    | _ => rfl

theorem reserves {c : Call} {b : Builder} {limit : Nat} {unused : List ResultId}
    (hb : b.target.Reserves limit unused) (hc : c.DrawsFrom unused)
    (hlimit : limit + c.idsTaken b < UInt32.size) :
    (c.after b).target.Reserves (limit + c.idsTaken b) (c.unusedAfter b unused) ∧
      b.target.DefinesNew (c.after b).target := by
  cases hgiven : c.given? with
  | some inst =>
    rw [idsTaken_given hgiven b, Nat.add_zero]
    rcases run_given hgiven b with ⟨e, hrun⟩ | ⟨b', hrun, hgains, -⟩
    · have hafter : c.after b = b := by rw [after, endState, hrun]
      have hunused : c.unusedAfter b unused = unused := by simp only [unusedAfter, hrun]
      rw [hafter, hunused]
      exact ⟨hb, .refl _⟩
    · have hafter : c.after b = b' := by rw [after, endState, hrun]
      rw [hafter, unusedAfter_given hgiven hrun]
      exact hgains.reserves hb (hc inst hgiven)
  | none =>
    obtain ⟨hchanges, -⟩ := c.changes hgiven b
    refine ⟨?_, hchanges.definesNew hb.toIdsBelow (by omega)⟩
    by_cases hfresh : c = fresh
    · subst hfresh
      have htaken : fresh.idsTaken b = 1 := by
        refine if_neg fun heq => ?_
        exact absurd (UInt32.add_eq_left.1 heq) (by decide)
      rw [htaken] at hlimit ⊢
      exact hb.takeId (by omega)
    · rw [unusedAfter_none hgiven hfresh]
      exact hchanges.reserves hb (by omega)

end Builder.Call

theorem Task.emits (task : Task) (interface : Option Interface) :
    task.run.Emits interface [] := by
  cases task with
  | typeId t => exact (Emit.emitting_typeId t).imp fun _ _ _ => trivial
  | constant type value => exact type.emits_emit value
  | tree root input => exact root.emits_serialize input

theorem Task.changes (task : Task) (s : Serializer) :
    ∃ kind, s.builder.target.Changes Instruction.Plain kind (task.idsTaken s) (task.after s) := by
  have houtcome := task.emits s.interface s rfl (List.nil_subset _)
  refine ⟨fun m => Module.IsType (Interface.typeIds s.interface) m.globals, ?_⟩
  unfold idsTaken idsLost after endState
  cases hrun : task.run.run s with
  | ok id t =>
    rw [hrun] at houtcome
    cases houtcome with
    | ok hext _ _ =>
      obtain ⟨n, hchanges, hextent⟩ := hext.changes
      simpa [hextent] using hchanges
  | error e t =>
    rw [hrun] at houtcome
    cases houtcome with
    | @lost _ m' _ hext htarget =>
      obtain ⟨n, hchanges, hextent⟩ := hext.changes
      have htaken : m'.takeId.extent = s.builder.target.extent + n := hextent
      simpa [htarget, htaken] using hchanges.take
    | failed he hext =>
      obtain ⟨n, hchanges, hextent⟩ := hext.changes
      cases e with
      | build cause => exact absurd rfl (he cause)
      | _ => simpa [hextent] using hchanges

namespace Ledger

/-- Every step leaves the ids well-formed and what it does not use free. -/
theorem Step.reserves {k limit : Nat} {l l' : Ledger} (h : Step k l l')
    (hl : l.target.Reserves limit l.unused) (hlimit : limit + k < UInt32.size) :
    l'.target.Reserves (limit + k) l'.unused ∧ l.target.DefinesNew l'.target := by
  cases h with
  | call c selection hdraws => exact Builder.Call.reserves hl hdraws hlimit
  | @compile _ task s hs =>
    obtain ⟨kind, hchanges⟩ := task.changes s
    rw [hs] at hchanges
    exact ⟨hchanges.reserves hl (by omega), hchanges.definesNew hl.toIdsBelow (by omega)⟩
  | @inject _ inj next index _ _ _ _ hinj hinject hindex =>
    obtain ⟨index', f, n, a, result, hindex', hf, hchanges, -, hnext, htaken⟩ :=
      Injector.changes_inject (Prod.ext rfl hinject)
    cases hindex.symm.trans hindex'
    rw [htaken] at hlimit ⊢
    rw [hinj] at hf hchanges hnext
    -- what is committed is part of what was compiled, and the ids of the rest stay used up
    have hcompiled := hchanges.reserves hl (by omega)
    have hsub : next.target.instructions.Sublist
        (l.target.compiled index f n a result).instructions := by
      rw [hnext]
      exact Module.instructions_graft_sublist ..
    have hbelow : next.target.IdsBelow (limit + (n + 1)) := by
      rw [hnext]
      exact hl.toIdsBelow.graft (by omega) hf hcompiled.toIdsBelow
    refine ⟨hcompiled.sublist hbelow hsub, fun inst hinst => ?_⟩
    exact hchanges.definesNew hl.toIdsBelow (by omega) inst (hsub.subset hinst)

theorem Runs.reserves {m : Module} {n : Nat} {l : Ledger} (h : Runs { target := m } n l)
    (hm : m.IdWellFormed) (hlimit : m.header.bound.toNat + n < UInt32.size) :
    l.target.Reserves (m.header.bound.toNat + n) l.unused := by
  induction h with
  | refl => exact hm.reserves
  | tail _ hstep ih =>
    rw [← Nat.add_assoc]
    exact (hstep.reserves (ih (by omega)) (by omega)).1

/-- The ids of all modules that are reached are well-formed. An id that a call takes and gives back
was neither in use nor set aside, and no step gives a new result an id that was in use. -/
theorem Runs.ids_fresh {m : Module} {n : Nat} {l : Ledger} (hm : m.IdWellFormed)
    (h : Runs { target := m } n l) (hlimit : m.header.bound.toNat + n < UInt32.size) :
    l.target.IdWellFormed ∧
      (∀ (c : Builder.Call) (selection : Selection) (id : ResultId) (b : Builder),
        c.idsTaken ⟨l.target, selection⟩ = 1 → c.run.run ⟨l.target, selection⟩ = .ok (some id) b →
        id ≠ 0 ∧ id ∉ l.unused ∧ ∀ inst ∈ l.target.instructions, inst.resultId ≠ id) ∧
      ∀ k l', Step k l l' → m.header.bound.toNat + n + k < UInt32.size →
        l.target.DefinesNew l'.target := by
  have hl := h.reserves hm hlimit
  refine ⟨hl.toIdsBelow.idWellFormed hlimit, fun c selection id b htaken hrun => ?_,
    fun k l' hstep hlimit' => (hstep.reserves hl hlimit').2⟩
  cases hgiven : c.given? with
  | some inst =>
    rw [Builder.Call.idsTaken_given hgiven] at htaken
    cases htaken
  | none =>
    have hid : id = l.target.header.bound := (c.changes hgiven _).2 htaken id b hrun
    have hnext := hl.takeId hlimit
    rw [← hid] at hnext
    refine ⟨hnext.unused_ne_zero id (List.mem_cons_self ..), (List.nodup_cons.1 hnext.nodup).1, ?_⟩
    exact hnext.undefined id (List.mem_cons_self ..)

/-- A run of an injection, a constant, an id that is set aside, a call that loses one, and the block
that the id was set aside for. -/
theorem ids_fresh_built : ∃ n l, Runs { target := .built } n l ∧
    Module.built.header.bound.toNat + n < UInt32.size ∧ l.unused = [] ∧
    l.target.header.bound = 24 ∧ l.target.IdWellFormed ∧
    ∀ inst ∈ l.target.instructions, inst.resultId ≠ 24 := by
  have hinject : (Injector.built.inject Tree.successor ()).2 = .ok .builtInjected :=
    Injector.inject_eq_commit (by decide +kernel)
  let two : Task := .constant .f32 (0x40000000 : UInt32)
  have hinjected := (Runs.refl (l := { target := .built })).tail (.inject rfl hinject rfl)
  have hconstant := hinjected.tail
    (.compile two (s := { builder := { target := Injector.builtInjected.target } }) rfl)
  have hreserved := hconstant.tail (.call .fresh {} nofun)
  have hlost := hreserved.tail (.call (.arithmetic .add 1 5 5) {} nofun)
  have hblock := hlost.tail
    (.call (.beginBlockWithLabel 22) ⟨some 1, none⟩ (by decide +kernel))
  obtain ⟨hids, hfresh, -⟩ := hblock.ids_fresh (by decide +kernel) (by decide +kernel)
  refine ⟨_, _, hblock, by decide +kernel, by decide +kernel, by decide +kernel, hids, ?_⟩
  exact (hfresh .fresh {} 24 _ (by decide +kernel) rfl).2.2

end Ledger

end ShaderGraft
