import ShaderGraft.Proofs.DeclarationOrder

/-!
# Reading types comes to an end

Reading a declaration goes on to the declarations it refers to, and so on along chains of references
(`Module.Consults`). Where every declaration refers only to what is declared before it or not at all
(`Module.Grounded`), a chain goes through each declaration once at most
(`Module.Grounded.length_le`), so reading ends without running out of fuel.

One level of reading reads some ids in order, and makes a type of what they are read as. So it runs
out of fuel only along a chain that is as long as the fuel (`Module.exists_chain_of_endless`).
-/

namespace ShaderGraft

/-! ### Chains of references -/

namespace Module

/-- Reading the first declaration goes on to the second. -/
def Consults (m : Module) (inst decl : Instruction) : Prop :=
  ∃ id ∈ ValueType.references inst, m.global? id = some decl

/-- Reading runs out of fuel only if it does so for a declaration that it goes on to. -/
theorem consults_of_endless {m : Module} {fuel : Nat} {inst : Instruction}
    (h : ValueType.parse m (fuel + 1) inst = .error .endless) :
    ∃ decl, m.Consults inst decl ∧ ValueType.parse m fuel decl = .error .endless := by
  by_cases hconstant : inst.opcode = .constant
  · rw [ValueType.parse_succ_constant m fuel hconstant] at h
    obtain ⟨e, -, hcause⟩ := mapError_eq_error h
    cases hcause
  by_cases hdeclares : inst.opcode.declaresType = true
  · rw [ValueType.parse_succ_eq m fuel hdeclares hconstant] at h
    obtain hread | ⟨ts, -, hcombine⟩ := bind_eq_error.1 h
    · obtain ⟨id, hid, hoperand⟩ := mapM_eq_error hread
      unfold ValueType.operandAt at hoperand
      cases hdecl : m.global? id with
      | none =>
        rw [hdecl] at hoperand
        cases hoperand
      | some decl =>
        rw [hdecl] at hoperand
        exact ⟨decl, ⟨id, ValueType.followed_subset_references inst hid, hdecl⟩, hoperand⟩
    · obtain ⟨e, -, hcause⟩ := mapError_eq_error hcombine
      cases hcause
  · rw [ValueType.parse_succ_of_not_declaresType hdeclares] at h
    cases h

/-- Reading runs out of fuel only along a chain that is as long as the fuel. -/
theorem exists_chain_of_endless {m : Module} {fuel : Nat} {inst : Instruction}
    (h : ValueType.parse m fuel inst = .error .endless) :
    ∃ decls, decls.length = fuel ∧ (inst :: decls).IsChain m.Consults := by
  induction fuel generalizing inst with
  | zero => exact ⟨[], rfl, List.IsChain.singleton inst⟩
  | succ fuel ih =>
    obtain ⟨decl, hconsults, hdecl⟩ := consults_of_endless h
    obtain ⟨decls, hlength, hchain⟩ := ih hdecl
    refine ⟨decl :: decls, ?_, List.isChain_cons_cons.2 ⟨hconsults, hchain⟩⟩
    rw [List.length_cons, hlength]

/-! ### Declarations in order -/

/-- What a declaration refers to is declared before it, or not at all. -/
def Grounded (m : Module) : Prop :=
  ∀ before inst after, m.globals = before ++ inst :: after →
    ∀ id ∈ ValueType.references inst, Defines m.globals id → Defines before id

/-- A declaration leads only to those before it. -/
theorem Grounded.consults {m : Module} (hm : m.Grounded) {before after : List Instruction}
    {inst decl : Instruction} (hinst : m.globals = before ++ inst :: after)
    (hconsults : m.Consults inst decl) :
    ∃ before' after', m.globals = before' ++ decl :: after' ∧ before'.length < before.length := by
  obtain ⟨id, hid, hdecl⟩ := hconsults
  obtain ⟨hne, earlier, hearlier, rfl⟩ :=
    hm before inst after hinst id hid (defines_of_global? (by rw [hdecl]; rfl))
  rw [global?, if_neg hne] at hdecl
  obtain ⟨-, before', after', hsplit, hfirst⟩ := List.find?_eq_some_iff_append.1 hdecl
  refine ⟨before', after', hsplit, ?_⟩
  -- otherwise one that is earlier would have been found
  by_contra hle
  have hprefixes : before <+: before' :=
    List.prefix_of_prefix_length_le ⟨_, hinst.symm⟩ ⟨_, hsplit.symm⟩ (by omega)
  simpa using hfirst earlier (hprefixes.subset hearlier)

/-- A chain has at most as many declarations as stand before the place where it starts. -/
theorem Grounded.length_le_of_chain {m : Module} (hm : m.Grounded) {k : Nat}
    {inst : Instruction} {decls : List Instruction}
    (hstart : ∀ decl, m.Consults inst decl →
      ∃ before after, m.globals = before ++ decl :: after ∧ before.length < k)
    (hchain : (inst :: decls).IsChain m.Consults) : decls.length ≤ k := by
  induction decls generalizing inst k with
  | nil => exact Nat.zero_le k
  | cons decl decls ih =>
    obtain ⟨hconsults, hrest⟩ := List.isChain_cons_cons.1 hchain
    obtain ⟨before, after, hsplit, hlength⟩ := hstart decl hconsults
    have hle := ih (fun next hnext => hm.consults hsplit hnext) hrest
    rw [List.length_cons]
    omega

/-- No chain goes through more declarations than there are. -/
theorem Grounded.length_le {m : Module} (hm : m.Grounded) {inst : Instruction}
    {decls : List Instruction} (hchain : (inst :: decls).IsChain m.Consults) :
    decls.length ≤ m.globals.length := by
  refine hm.length_le_of_chain (fun decl hconsults => ?_) hchain
  obtain ⟨id, -, hdecl⟩ := hconsults
  obtain ⟨before, after, hsplit⟩ := List.append_of_mem (mem_of_global? hdecl).1
  refine ⟨before, after, hsplit, ?_⟩
  rw [hsplit, List.length_append, List.length_cons]
  omega

/-- Declarations of ids that are not looked for do not change what is found. -/
theorem global?_append {m : Module} {more : List Instruction} {id : ResultId}
    (h : ∀ e ∈ more, e.resultId ≠ id) :
    { m with globals := m.globals ++ more }.global? id = m.global? id := by
  have hmore : more.find? (·.resultId == id) = none :=
    List.find?_eq_none.2 fun e he => by simpa using h e he
  rw [global?, global?, List.find?_append, hmore, Option.or_none]

/-- **Reading ends where declarations are in order.** If every declaration refers only to what is
declared before it or not at all, reading an instruction, whatever ids it has, goes no more levels
deep than there are declarations and one. So the fuel that `typeOf` allows never runs out, and more
fuel changes nothing. Nor do further declarations of ids that neither the instruction nor any
declaration refers to. -/
theorem typeOf_terminates {m : Module} (hm : m.Grounded) (inst : Instruction) :
    (∀ decls, (inst :: decls).IsChain m.Consults →
        (inst :: decls).length ≤ m.globals.length + 1) ∧
      m.typeOf inst ≠ .error .endless ∧
      (∀ fuel, m.globals.length + 1 ≤ fuel → ValueType.parse m fuel inst = m.typeOf inst) ∧
      ∀ more : List Instruction,
        (∀ e ∈ more, ∀ user ∈ inst :: m.globals, e.resultId ∉ ValueType.references user) →
        { m with globals := m.globals ++ more }.typeOf inst = m.typeOf inst := by
  have hends : m.typeOf inst ≠ .error .endless := by
    intro hendless
    obtain ⟨decls, hlength, hdecls⟩ := exists_chain_of_endless hendless
    have hle := hm.length_le hdecls
    omega
  refine ⟨fun decls hdecls => ?_, hends, fun fuel hfuel => ValueType.parse_of_le hfuel hends,
    fun more hmore => ?_⟩
  · rw [List.length_cons]
    exact Nat.succ_le_succ (hm.length_le hdecls)
  · -- what the instruction or a declaration refers to is found as before
    refine typeOf_eq_of_agree
      (P := fun id => ∃ user ∈ inst :: m.globals, id ∈ ValueType.references user) ?_ ?_ ?_
    · rintro id ⟨user, huser, hid⟩
      exact global?_append fun e he heq => hmore e he user huser (heq ▸ hid)
    · intro id _ decl hdecl r hr
      exact ⟨decl, List.mem_cons_of_mem _ (mem_of_global? hdecl).1, hr⟩
    · exact fun r hr => ⟨inst, List.mem_cons_self, hr⟩

end Module

theorem ValueType.references_subset_dependencies (inst : Instruction) :
    references inst ⊆ inst.dependencies := by
  obtain ⟨op, type, id, operands⟩ := inst
  unfold references
  dsimp only
  split
  case h_6 => exact List.nil_subset _
  all_goals exact List.Subset.refl _

theorem InOrder.grounded {m : Module} (h : InOrder m.globals) : m.Grounded :=
  fun before inst after hsplit id hid _ =>
    h before inst after hsplit id (ValueType.references_subset_dependencies inst hid)

namespace Module

/-- A struct of a vector of floats. -/
def layered : Module where
  header := { version := ⟨1, 3⟩, bound := 4 }
  globals := [
    { opcode := .typeFloat, resultId := 1, operands := [32] },
    { opcode := .typeVector, resultId := 2, operands := [1, 3] },
    { opcode := .typeStruct, resultId := 3, operands := [2] }]

/-- A struct in the struct, whose second member is declared nowhere, takes a level for each
declaration and one for itself. -/
theorem typeOf_terminates_layered :
    let inst : Instruction := { opcode := .typeStruct, resultId := 4, operands := [3, 5] }
    let double : Instruction := { opcode := .typeFloat, resultId := 6, operands := [64] }
    InOrder layered.globals ∧ ValueType.parse layered 3 inst = .error .endless ∧
      layered.typeOf inst = .error (.error (.operandNotDeclared 5)) ∧
      { layered with globals := layered.globals ++ [double] }.typeOf inst =
        .error (.error (.operandNotDeclared 5)) := by
  intro inst double
  have horder : InOrder layered.globals := by decide
  have htype : layered.typeOf inst = .error (.error (.operandNotDeclared 5)) := rfl
  obtain ⟨-, -, -, hmore⟩ := typeOf_terminates horder.grounded inst
  refine ⟨horder, rfl, htype, ?_⟩
  rw [hmore [double] (by decide), htype]

end Module

end ShaderGraft
