import Mathlib.Data.List.Forall2
import Mathlib.Tactic.IntervalCases
import ShaderGraft.Proofs.Ids
import ShaderGraft.Proofs.Reflection

/-!
# What the declarations of a module say

Reading a type follows references from one declaration to the next, as often as its fuel allows.
`ValueType.Shape` says what one declaration means, given what the ids it refers to stand for;
reading is this relation applied to itself once for each unit of fuel
(`ValueType.parse_succ_eq_ok`).

What one level of reading does is said by `ValueType.parse_succ_eq`: it reads some ids in order, and
makes a type of what they are read as. So more fuel changes nothing for a reading that ends
(`ValueType.parse_of_le`), and the fuel of `Module.typeOf` is enough for every reading that ends at
all (`Module.typeOf_eq_parse`): the declarations that more and more fuel is enough for are more and
more until nothing is added, and there are only so many. So the fuel can be forgotten: a type is
read exactly if its declaration has the shape of it over the types that are read
(`Module.typeOf_eq_ok_iff`).

A type that is read stays what it is when declarations are added (`Module.Keeps.typeOf`). What is
read as no type, or without end, stays so as long as no id is declared that it refers to
(`Module.typeOf_eq_of_agree`).
-/

namespace ShaderGraft

theorem Opcode.cases_declaresType {op : Opcode} (h : op.declaresType = true) :
    op = .constant ∨ op = .typeVoid ∨ op = .typeBool ∨ op = .typeInt ∨ op = .typeFloat ∨
      op = .typeVector ∨ op = .typeMatrix ∨ op = .typeStruct ∨ op = .typeArray ∨
      op ∈ ([⟨25⟩, ⟨26⟩, ⟨27⟩, ⟨29⟩, ⟨31⟩, ⟨32⟩, ⟨33⟩] : List Opcode) := by
  obtain ⟨code⟩ := op
  simp only [declaresType, Bool.or_eq_true, beq_iff_eq, Bool.and_eq_true, decide_eq_true_eq] at h
  rcases h with h | ⟨hlow, hhigh⟩
  · exact .inl h
  · rw [UInt16.le_iff_toNat_le] at hlow hhigh
    have hcode : code = UInt16.ofNat code.toNat := by simp
    generalize code.toNat = n at hlow hhigh hcode
    have hlow : 19 ≤ n := hlow
    have hhigh : n ≤ 33 := hhigh
    subst hcode
    interval_cases n <;> decide

namespace ValueType

/-- What a declaration says, where `R` tells what the ids that it refers to stand for. -/
inductive Shape (m : Module) (R : ResultId → ValueType → Prop) (inst : Instruction) :
    ValueType → Prop where
  | constant {t : ValueType} :
    inst.opcode = .constant → ofConstant m inst = .ok t → Shape m R inst t
  | void : inst.opcode = .typeVoid → Shape m R inst .void
  | bool : inst.opcode = .typeBool → Shape m R inst .bool
  | int {width sign : Word} :
    inst.opcode = .typeInt → inst.operands = [width, sign] → ¬ sign > 1 →
      Shape m R inst (.int (sign == 1) width)
  | float {width : Word} {rest : List Word} :
    inst.opcode = .typeFloat → inst.operands = width :: rest → Shape m R inst (.float width)
  | vector {component count : Word} {elem : ValueType} :
    inst.opcode = .typeVector → inst.operands = [component, count] → R component elem →
      Shape m R inst (.vector elem count)
  | matrix {column count rows : Word} {elem : ValueType} :
    inst.opcode = .typeMatrix → inst.operands = [column, count] → R column (.vector elem rows) →
      Shape m R inst (.matrix elem count rows)
  | struct {fields : List ValueType} :
    inst.opcode = .typeStruct → List.Forall₂ R inst.operands fields →
      Shape m R inst (.struct fields)
  | array {element length count : Word} {elem : ValueType} :
    inst.opcode = .typeArray → inst.operands = [element, length] → R element elem →
      R length (.literalInt32 count) → Shape m R inst (.array elem count)

/-- What an id stands for, read with some fuel. -/
def operandAt (m : Module) (fuel : Nat) (id : ResultId) : Except (Halt TypeError) ValueType :=
  match m.global? id with
  | none => .error (.error (.operandNotDeclared id))
  | some decl => parse m fuel decl

theorem operandAt_eq_ok {m : Module} {fuel : Nat} {id : ResultId} {t : ValueType} :
    operandAt m fuel id = .ok t ↔ ∃ decl, m.global? id = some decl ∧ parse m fuel decl = .ok t := by
  unfold operandAt
  cases m.global? id with
  | none => simp
  | some decl => simp

theorem parse_succ_eq_ok {m : Module} {fuel : Nat} {inst : Instruction} {t : ValueType} :
    parse m (fuel + 1) inst = .ok t ↔ Shape m (fun id t => operandAt m fuel id = .ok t) inst t := by
  constructor
  · intro h
    have hdeclares : inst.opcode.declaresType = true := by
      by_contra hnot
      change (if ¬ inst.opcode.declaresType = true then _ else _) = _ at h
      rw [if_pos hnot] at h
      cases h
    obtain ⟨op, type, id, operands⟩ := inst
    rcases Opcode.cases_declaresType hdeclares with
      rfl | rfl | rfl | rfl | rfl | rfl | rfl | rfl | rfl | hop
    · exact .constant rfl (mapError_eq_ok h)
    · cases h
      exact .void rfl
    · cases h
      exact .bool rfl
    · rcases operands with _ | ⟨width, _ | ⟨sign, _ | ⟨_, _⟩⟩⟩
      case cons.cons.nil =>
        change (if sign > 1 then _ else _) = _ at h
        split at h
        · cases h
        · rename_i hsign
          cases h
          exact .int rfl rfl hsign
      all_goals cases h
    · rcases operands with _ | ⟨width, rest⟩
      · cases h
      · cases h
        exact .float rfl rfl
    · rcases operands with _ | ⟨component, _ | ⟨count, _ | ⟨_, _⟩⟩⟩
      case cons.cons.nil =>
        obtain ⟨elem, helem, h⟩ := bind_eq_ok.1 h
        cases h
        exact .vector rfl rfl helem
      all_goals cases h
    · rcases operands with _ | ⟨column, _ | ⟨count, _ | ⟨_, _⟩⟩⟩
      case cons.cons.nil =>
        obtain ⟨elem, helem, h⟩ := bind_eq_ok.1 h
        cases elem with
        | vector elem rows =>
          cases h
          exact .matrix rfl rfl helem
        | _ => cases h
      all_goals cases h
    · obtain ⟨fields, hfields, h⟩ := bind_eq_ok.1 h
      cases h
      exact .struct rfl (mapM_eq_ok.1 hfields)
    · rcases operands with _ | ⟨element, _ | ⟨length, _ | ⟨_, _⟩⟩⟩
      case cons.cons.nil =>
        obtain ⟨elem, helem, h⟩ := bind_eq_ok.1 h
        obtain ⟨count, hcount, h⟩ := bind_eq_ok.1 h
        cases count with
        | literalInt32 count =>
          cases h
          exact .array rfl rfl helem hcount
        | _ => cases h
      all_goals cases h
    · simp only [List.mem_cons, List.not_mem_nil, or_false] at hop
      rcases hop with rfl | rfl | rfl | rfl | rfl | rfl | rfl <;> cases h
  · intro h
    obtain ⟨op, type, id, operands⟩ := inst
    cases h with
    | constant hop hconstant =>
      cases hop
      change (ofConstant m _).mapError _ = _
      rw [hconstant]
      rfl
    | void hop => cases hop; rfl
    | bool hop => cases hop; rfl
    | @int width sign hop hoperands hsign =>
      cases hop
      cases hoperands
      change (if sign > 1 then _ else _) = _
      rw [if_neg hsign]
    | float hop hoperands => cases hop; cases hoperands; rfl
    | vector hop hoperands helem =>
      cases hop
      cases hoperands
      exact bind_eq_ok.2 ⟨_, helem, rfl⟩
    | matrix hop hoperands hcolumn =>
      cases hop
      cases hoperands
      exact bind_eq_ok.2 ⟨_, hcolumn, rfl⟩
    | struct hop hfields =>
      cases hop
      exact bind_eq_ok.2 ⟨_, mapM_eq_ok.2 hfields, rfl⟩
    | array hop hoperands helem hcount =>
      cases hop
      cases hoperands
      exact bind_eq_ok.2 ⟨_, helem, bind_eq_ok.2 ⟨_, hcount, rfl⟩⟩

/-- The ids that a declaration refers to and that reading it follows. -/
def references (inst : Instruction) : List ResultId :=
  match inst.opcode, inst.operands with
  | .constant, _ => [inst.resultType]
  | .typeVector, [component, _] => [component]
  | .typeMatrix, [column, _] => [column]
  | .typeStruct, members => members
  | .typeArray, [element, length] => [element, length]
  | _, _ => []

theorem ofConstant_eq_ok_of_global {m m' : Module} {inst : Instruction} {t : ValueType}
    (hglobal : ∀ decl, m.global? inst.resultType = some decl →
      m'.global? inst.resultType = some decl)
    (h : ofConstant m inst = .ok t) : ofConstant m' inst = .ok t := by
  unfold ofConstant at h ⊢
  cases hdecl : m.global? inst.resultType with
  | none =>
    rw [hdecl] at h
    cases h
  | some decl =>
    rw [hdecl] at h
    rw [hglobal decl hdecl]
    exact h

/-- A shape depends only on what the ids stand for that the declaration refers to. -/
theorem Shape.imp {m m' : Module} {R R' : ResultId → ValueType → Prop} {inst : Instruction}
    {t : ValueType} (h : Shape m R inst t)
    (hglobals : ∀ id ∈ references inst, ∀ decl, m.global? id = some decl →
      m'.global? id = some decl)
    (hR : ∀ id ∈ references inst, ∀ t, R id t → R' id t) : Shape m' R' inst t := by
  obtain ⟨op, type, id, operands⟩ := inst
  cases h with
  | constant hop hconstant =>
    cases hop
    exact .constant rfl (ofConstant_eq_ok_of_global (hglobals _ List.mem_cons_self) hconstant)
  | void hop => exact .void hop
  | bool hop => exact .bool hop
  | int hop hoperands hsign => exact .int hop hoperands hsign
  | float hop hoperands => exact .float hop hoperands
  | vector hop hoperands helem =>
    cases hop
    cases hoperands
    exact .vector rfl rfl (hR _ List.mem_cons_self _ helem)
  | matrix hop hoperands hcolumn =>
    cases hop
    cases hoperands
    exact .matrix rfl rfl (hR _ List.mem_cons_self _ hcolumn)
  | struct hop hfields =>
    cases hop
    refine .struct rfl ?_
    have hmem : ∀ id ∈ operands, id ∈ operands := fun _ hid => hid
    exact ((List.forall₂_and_left _ _).2 ⟨hmem, hfields⟩).imp fun id t h => hR id h.1 t h.2
  | array hop hoperands helem hcount =>
    cases hop
    cases hoperands
    exact .array rfl rfl (hR _ List.mem_cons_self _ helem)
      (hR _ (List.mem_cons_of_mem _ List.mem_cons_self) _ hcount)

/-! ### One level of reading -/

/-- The ids that reading a declaration goes on to read, in order. -/
def followed (inst : Instruction) : List ResultId :=
  match inst.opcode, inst.operands with
  | .typeVector, [component, _] => [component]
  | .typeMatrix, [column, _] => [column]
  | .typeStruct, members => members
  | .typeArray, [element, length] => [element, length]
  | _, _ => []

/-- The type of a declaration, from the types that the ids it goes on to are read as. -/
def combine (inst : Instruction) (ts : List ValueType) : Except ShapeError ValueType :=
  match inst.opcode, inst.operands, ts with
  | .typeVoid, _, _ => .ok .void
  | .typeBool, _, _ => .ok .bool
  | .typeInt, [width, sign], _ =>
    if sign > 1 then .error .intOperands else .ok (.int (sign == 1) width)
  | .typeInt, _, _ => .error .intOperands
  | .typeFloat, width :: _, _ => .ok (.float width)
  | .typeFloat, [], _ => .error .floatOperands
  | .typeVector, [_, count], [elem] => .ok (.vector elem count)
  | .typeVector, _, _ => .error .vectorOperands
  | .typeMatrix, [_, count], [.vector elem rows] => .ok (.matrix elem count rows)
  | .typeMatrix, [_, _], [other] => .error (.columnNotVector other)
  | .typeMatrix, _, _ => .error .matrixOperands
  | .typeStruct, _, fields => .ok (.struct fields)
  | .typeArray, [_, _], [elem, .literalInt32 count] => .ok (.array elem count)
  | .typeArray, [_, _], [_, other] => .error (.lengthNotInteger other)
  | .typeArray, _, _ => .error .arrayOperands
  | _, _, _ => .error .noEquivalent

theorem parse_succ_constant (m : Module) (fuel : Nat) {inst : Instruction}
    (h : inst.opcode = .constant) : parse m (fuel + 1) inst =
      (ofConstant m inst).mapError fun cause => .error (.shape inst.opcode inst.resultId cause) := by
  obtain ⟨op, type, id, operands⟩ := inst
  cases h
  rfl

/-- Reading a type: the ids that it goes on to are read in order, and the first that cannot be read
is the reason that the type cannot. -/
theorem parse_succ_eq (m : Module) (fuel : Nat) {inst : Instruction}
    (hdeclares : inst.opcode.declaresType = true) (hconstant : inst.opcode ≠ .constant) :
    parse m (fuel + 1) inst = (followed inst).mapM (operandAt m fuel) >>= fun ts =>
      (combine inst ts).mapError fun cause => .error (.shape inst.opcode inst.resultId cause) := by
  obtain ⟨op, type, id, operands⟩ := inst
  rcases Opcode.cases_declaresType hdeclares with
    rfl | rfl | rfl | rfl | rfl | rfl | rfl | rfl | rfl | hop
  case inr.inr.inr.inr.inr.inr.inr.inr.inr =>
    simp only [List.mem_cons, List.not_mem_nil, or_false] at hop
    rcases hop with rfl | rfl | rfl | rfl | rfl | rfl | rfl <;> rfl
  · exact absurd rfl hconstant
  · rfl
  · rfl
  · rcases operands with _ | ⟨width, _ | ⟨sign, _ | ⟨_, _⟩⟩⟩
    case cons.cons.nil =>
      change (if sign > 1 then _ else _) = Except.mapError _ (if sign > 1 then _ else _)
      split <;> rfl
    all_goals rfl
  · rcases operands with _ | ⟨width, rest⟩ <;> rfl
  · rcases operands with _ | ⟨component, _ | ⟨count, _ | ⟨_, _⟩⟩⟩
    case cons.cons.nil =>
      change operandAt m fuel component >>= _ = [component].mapM (operandAt m fuel) >>= _
      simp only [List.mapM_cons, List.mapM_nil, bind_assoc, pure_bind]
      rfl
    all_goals rfl
  · rcases operands with _ | ⟨column, _ | ⟨count, _ | ⟨_, _⟩⟩⟩
    case cons.cons.nil =>
      change operandAt m fuel column >>= _ = [column].mapM (operandAt m fuel) >>= _
      simp only [List.mapM_cons, List.mapM_nil, bind_assoc, pure_bind]
      refine bind_congr fun t => ?_
      cases t <;> rfl
    all_goals rfl
  · rfl
  · rcases operands with _ | ⟨element, _ | ⟨length, _ | ⟨_, _⟩⟩⟩
    case cons.cons.nil =>
      change operandAt m fuel element >>= (fun elem => operandAt m fuel length >>= _) =
        [element, length].mapM (operandAt m fuel) >>= _
      simp only [List.mapM_cons, List.mapM_nil, bind_assoc, pure_bind]
      refine bind_congr fun elem => bind_congr fun count => ?_
      cases count <;> rfl
    all_goals rfl

theorem parse_succ_of_not_declaresType {m : Module} {fuel : Nat} {inst : Instruction}
    (hdeclares : ¬ inst.opcode.declaresType = true) :
    parse m (fuel + 1) inst = .error (.error (.notAType inst.opcode)) := by
  change (if ¬ inst.opcode.declaresType = true then _ else _) = _
  rw [if_pos hdeclares]

theorem followed_subset_references (inst : Instruction) : followed inst ⊆ references inst := by
  obtain ⟨op, type, id, operands⟩ := inst
  unfold followed
  dsimp only
  split
  case h_5 => exact List.nil_subset _
  all_goals exact List.Subset.refl _

theorem resultType_mem_references {inst : Instruction} (h : inst.opcode = .constant) :
    inst.resultType ∈ references inst := by
  obtain ⟨op, type, id, operands⟩ := inst
  cases h
  exact List.mem_cons_self

/-- What is read depends only on what the ids stand for that the declaration refers to. -/
theorem parse_succ_congr {m m' : Module} {fuel fuel' : Nat} {inst : Instruction}
    (hglobals : ∀ id ∈ references inst, m'.global? id = m.global? id)
    (hread : ∀ id ∈ references inst, operandAt m' fuel' id = operandAt m fuel id) :
    parse m' (fuel' + 1) inst = parse m (fuel + 1) inst := by
  by_cases hconstant : inst.opcode = .constant
  · have htype := hglobals inst.resultType (resultType_mem_references hconstant)
    rw [parse_succ_constant m' fuel' hconstant, parse_succ_constant m fuel hconstant, ofConstant,
      ofConstant, htype]
  by_cases hdeclares : inst.opcode.declaresType = true
  · have hfollowed : (followed inst).mapM (operandAt m' fuel') =
        (followed inst).mapM (operandAt m fuel) :=
      mapM_congr fun id hid => hread id (followed_subset_references inst hid)
    rw [parse_succ_eq m' fuel' hdeclares hconstant, parse_succ_eq m fuel hdeclares hconstant,
      hfollowed]
  · rw [parse_succ_of_not_declaresType hdeclares, parse_succ_of_not_declaresType hdeclares]

/-- More fuel changes nothing for a declaration that ends, if it changes nothing for those that it
goes on to and that end. -/
theorem parse_succ_of_ne_endless {m : Module} {fuel fuel' : Nat} {inst : Instruction}
    (hread : ∀ decl ∈ m.globals, parse m fuel decl ≠ .error .endless →
      parse m fuel' decl = parse m fuel decl)
    (h : parse m (fuel + 1) inst ≠ .error .endless) :
    parse m (fuel' + 1) inst = parse m (fuel + 1) inst := by
  by_cases hconstant : inst.opcode = .constant
  · rw [parse_succ_constant m fuel' hconstant, parse_succ_constant m fuel hconstant]
  by_cases hdeclares : inst.opcode.declaresType = true
  · rw [parse_succ_eq m fuel hdeclares hconstant] at h
    rw [parse_succ_eq m fuel hdeclares hconstant, parse_succ_eq m fuel' hdeclares hconstant,
      mapM_eq_of_ne_error ?_ fun heq => h (bind_eq_error.2 (.inl heq))]
    intro id _ hid
    unfold operandAt at hid ⊢
    cases hdecl : m.global? id with
    | none => rfl
    | some decl =>
      rw [hdecl] at hid
      exact hread decl (Module.mem_of_global? hdecl).1 hid
  · rw [parse_succ_of_not_declaresType hdeclares, parse_succ_of_not_declaresType hdeclares]

/-- Reading with more fuel gives the same, if it ended with less. -/
theorem parse_of_le {m : Module} {fuel fuel' : Nat} (hfuel : fuel ≤ fuel') {inst : Instruction}
    (h : parse m fuel inst ≠ .error .endless) : parse m fuel' inst = parse m fuel inst := by
  induction fuel generalizing fuel' inst with
  | zero => exact absurd rfl h
  | succ fuel ih =>
    obtain ⟨fuel', rfl⟩ : ∃ k, fuel' = k + 1 := ⟨fuel' - 1, by omega⟩
    exact parse_succ_of_ne_endless (fun decl _ => ih (by omega)) h

end ValueType

namespace Module

/-- Every declaration of the first module is one of the second, under the same id. -/
def Keeps (m m' : Module) : Prop :=
  ∀ id decl, m.global? id = some decl → m'.global? id = some decl

theorem Keeps.refl (m : Module) : m.Keeps m :=
  fun _ _ h => h

theorem Keeps.trans {m m' m'' : Module} (h : m.Keeps m') (h' : m'.Keeps m'') : m.Keeps m'' :=
  fun id decl hdecl => h' id decl (h id decl hdecl)

theorem Keeps.of_globals {m m' : Module} (h : m.globals <+: m'.globals) : m.Keeps m' := by
  intro id decl hdecl
  obtain ⟨rest, hrest⟩ := h
  unfold global? at hdecl ⊢
  split at hdecl
  · cases hdecl
  · rename_i hid
    rw [if_neg hid, ← hrest, List.find?_append, hdecl]
    rfl

/-- What is read with some fuel is read the same with more fuel and more declarations. -/
theorem Keeps.parse {m m' : Module} (hkeeps : m.Keeps m') {fuel fuel' : Nat} (hfuel : fuel ≤ fuel')
    {inst : Instruction} {t : ValueType} (h : ValueType.parse m fuel inst = .ok t) :
    ValueType.parse m' fuel' inst = .ok t := by
  induction fuel generalizing fuel' inst t with
  | zero => cases h
  | succ fuel ih =>
    obtain ⟨fuel', rfl⟩ : ∃ k, fuel' = k + 1 := ⟨fuel' - 1, by omega⟩
    have hshape := ValueType.parse_succ_eq_ok.1 h
    refine ValueType.parse_succ_eq_ok.2 (hshape.imp (fun id _ => hkeeps id) fun id _ t hid => ?_)
    obtain ⟨decl, hdecl, hparse⟩ := ValueType.operandAt_eq_ok.1 hid
    exact ValueType.operandAt_eq_ok.2 ⟨decl, hkeeps id decl hdecl, ih (by omega) hparse⟩

/-! ### Enough fuel -/

/-- Whether reading an instruction ends within some fuel. -/
def ends (m : Module) (fuel : Nat) (inst : Instruction) : Bool :=
  match ValueType.parse m fuel inst with
  | .error .endless => false
  | _ => true

theorem ends_iff {m : Module} {fuel : Nat} {inst : Instruction} :
    m.ends fuel inst = true ↔ ValueType.parse m fuel inst ≠ .error .endless := by
  unfold ends
  rcases ValueType.parse m fuel inst with (_ | _) | _ <;> simp

/-- The declarations that some fuel is enough for. -/
def ended (m : Module) (fuel : Nat) : List Instruction :=
  m.globals.filter (m.ends fuel)

theorem mem_ended {m : Module} {fuel : Nat} {decl : Instruction} :
    decl ∈ m.ended fuel ↔ decl ∈ m.globals ∧ ValueType.parse m fuel decl ≠ .error .endless := by
  rw [ended, List.mem_filter, ends_iff]

theorem ended_sublist (m : Module) (fuel : Nat) :
    (m.ended fuel).Sublist (m.ended (fuel + 1)) := by
  refine List.monotone_filter_right _ fun decl hdecl => ?_
  rw [ends_iff] at hdecl ⊢
  rw [ValueType.parse_of_le (Nat.le_succ fuel) hdecl]
  exact hdecl

/-- Once more fuel does not help to read any declaration, it does not help for what refers to
them. -/
theorem parse_of_ended_eq {m : Module} {fuel : Nat}
    (hstable : m.ended (fuel + 1) = m.ended fuel) {inst : Instruction}
    (h : ValueType.parse m (fuel + 2) inst ≠ .error .endless) :
    ValueType.parse m (fuel + 1) inst = ValueType.parse m (fuel + 2) inst := by
  refine ValueType.parse_succ_of_ne_endless (fun decl hdecl hne => ?_) h
  have hmem : decl ∈ m.ended (fuel + 1) := mem_ended.2 ⟨hdecl, hne⟩
  rw [hstable] at hmem
  exact (ValueType.parse_of_le (Nat.le_succ fuel) (mem_ended.1 hmem).2).symm

theorem ended_eq_succ {m : Module} {fuel : Nat}
    (hstable : m.ended (fuel + 1) = m.ended fuel) :
    m.ended (fuel + 2) = m.ended (fuel + 1) := by
  refine ((ended_sublist m (fuel + 1)).antisymm ?_).symm
  refine List.monotone_filter_right _ fun decl hdecl => ?_
  rw [ends_iff] at hdecl ⊢
  rw [parse_of_ended_eq hstable hdecl]
  exact hdecl

/-- From there on, fuel does not matter. -/
theorem parse_of_stable {m : Module} {fuel : Nat}
    (hstable : m.ended (fuel + 1) = m.ended fuel) {inst : Instruction} (extra : Nat)
    (h : ValueType.parse m (fuel + 1 + extra) inst ≠ .error .endless) :
    ValueType.parse m (fuel + 1) inst = ValueType.parse m (fuel + 1 + extra) inst := by
  induction extra generalizing fuel with
  | zero => rfl
  | succ extra ih =>
    have hmore : fuel + 1 + (extra + 1) = fuel + 1 + 1 + extra := by omega
    rw [hmore] at h ⊢
    have hrest := ih (ended_eq_succ hstable) h
    rw [← hrest] at h ⊢
    exact parse_of_ended_eq hstable h

/-- As long as more fuel helps, it is enough for a declaration for each unit of it. -/
theorem le_length_ended {m : Module} {fuel : Nat}
    (h : ∀ k < fuel, m.ended (k + 1) ≠ m.ended k) : fuel ≤ (m.ended fuel).length := by
  induction fuel with
  | zero => exact Nat.zero_le _
  | succ fuel ih =>
    have hle := ih fun k hk => h k (by omega)
    have hsublist := ended_sublist m fuel
    have hne : (m.ended fuel).length ≠ (m.ended (fuel + 1)).length := fun heq =>
      h fuel (by omega) (hsublist.eq_of_length heq).symm
    have hlength := hsublist.length_le
    omega

/-- A reading that ends at all ends with the fuel that a module allows. -/
theorem typeOf_eq_parse {m : Module} {fuel : Nat} {inst : Instruction}
    (h : ValueType.parse m fuel inst ≠ .error .endless) :
    m.typeOf inst = ValueType.parse m fuel inst := by
  -- Among the declarations of a module, fuel can help only as often as there are declarations.
  obtain ⟨k, hk, hstable⟩ : ∃ k ≤ m.globals.length, m.ended (k + 1) = m.ended k := by
    by_contra hnot
    push Not at hnot
    have hle : m.globals.length + 1 ≤ (m.ended (m.globals.length + 1)).length :=
      le_length_ended fun k hk => hnot k (by omega)
    have hlength : (m.ended (m.globals.length + 1)).length ≤ m.globals.length :=
      List.length_filter_le _ _
    omega
  have hmore := ValueType.parse_of_le (Nat.le_add_left fuel (k + 1)) h
  have hstop := parse_of_stable hstable fuel (hmore.trans_ne h)
  rw [← hmore, ← hstop]
  refine ValueType.parse_of_le (by omega) ?_
  rw [hstop, hmore]
  exact h

theorem typeOf_eq_ok_of_parse {m : Module} {fuel : Nat} {inst : Instruction} {t : ValueType}
    (h : ValueType.parse m fuel inst = .ok t) : m.typeOf inst = .ok t := by
  have hends : ValueType.parse m fuel inst ≠ .error .endless := by
    rw [h]
    exact fun heq => by cases heq
  rw [typeOf_eq_parse hends, h]

/-! ### Types without fuel -/

/-- The id is declared as something of the type. -/
def Denotes (m : Module) (id : ResultId) (t : ValueType) : Prop :=
  ∃ decl, m.global? id = some decl ∧ m.typeOf decl = .ok t

/-- A type is read exactly if its declaration has the shape of it over the types that are read. -/
theorem typeOf_eq_ok_iff {m : Module} {inst : Instruction} {t : ValueType} :
    m.typeOf inst = .ok t ↔ ValueType.Shape m m.Denotes inst t := by
  constructor
  · intro h
    refine (ValueType.parse_succ_eq_ok.1 h).imp (fun _ _ _ h => h) fun id _ t hid => ?_
    obtain ⟨decl, hdecl, hparse⟩ := ValueType.operandAt_eq_ok.1 hid
    exact ⟨decl, hdecl, typeOf_eq_ok_of_parse hparse⟩
  · intro h
    have hparse : ValueType.parse m (m.globals.length + 1 + 1) inst = .ok t := by
      refine ValueType.parse_succ_eq_ok.2 (h.imp (fun _ _ _ h => h) fun id _ t hid => ?_)
      exact ValueType.operandAt_eq_ok.2 hid
    exact typeOf_eq_ok_of_parse hparse

theorem Keeps.typeOf {m m' : Module} (hkeeps : m.Keeps m') {inst : Instruction} {t : ValueType}
    (h : m.typeOf inst = .ok t) : m'.typeOf inst = .ok t :=
  typeOf_eq_ok_of_parse (hkeeps.parse (Nat.le_refl _) h)

theorem Keeps.denotes {m m' : Module} (hkeeps : m.Keeps m') {id : ResultId} {t : ValueType}
    (h : m.Denotes id t) : m'.Denotes id t := by
  obtain ⟨decl, hdecl, htype⟩ := h
  exact ⟨decl, hkeeps id decl hdecl, hkeeps.typeOf htype⟩

/-- The id is not declared, or what is declared is found not to be a type. -/
def Unreadable (m : Module) (id : ResultId) : Prop :=
  ∀ decl, m.global? id = some decl → ∃ cause, m.typeOf decl = .error (.error cause)

theorem formalType_eq_unreadable {m : Module} {p : Instruction}
    (h : m.Unreadable p.resultType) : ∃ cause, m.formalType p = .unreadable cause := by
  unfold formalType
  split
  · exact ⟨_, rfl⟩
  rename_i decl hdecl
  obtain ⟨cause, hcause⟩ := h decl hdecl
  rw [hcause]
  exact ⟨cause, rfl⟩

section

variable {m m' : Module} {P : ResultId → Prop}

/-- Two modules read an instruction alike if the ids stand for the same in both that it refers to,
directly or through other declarations. -/
theorem parse_eq_of_agree (hagree : ∀ id, P id → m'.global? id = m.global? id)
    (hclosed : ∀ id, P id → ∀ decl, m.global? id = some decl →
      ∀ r ∈ ValueType.references decl, P r)
    {inst : Instruction} (hinst : ∀ r ∈ ValueType.references inst, P r) (fuel : Nat) :
    ValueType.parse m' fuel inst = ValueType.parse m fuel inst := by
  induction fuel generalizing inst with
  | zero => rfl
  | succ fuel ih =>
    refine ValueType.parse_succ_congr (fun id hid => hagree id (hinst id hid)) fun id hid => ?_
    unfold ValueType.operandAt
    rw [hagree id (hinst id hid)]
    cases hdecl : m.global? id with
    | none => rfl
    | some decl => exact ih (hclosed id (hinst id hid) decl hdecl)

/-- They allow different fuel if they have different numbers of declarations, but what ends with
one ends with the other. -/
theorem typeOf_eq_of_agree (hagree : ∀ id, P id → m'.global? id = m.global? id)
    (hclosed : ∀ id, P id → ∀ decl, m.global? id = some decl →
      ∀ r ∈ ValueType.references decl, P r)
    {inst : Instruction} (hinst : ∀ r ∈ ValueType.references inst, P r) :
    m'.typeOf inst = m.typeOf inst := by
  have hparse := parse_eq_of_agree hagree hclosed hinst
  by_cases h : m.typeOf inst = .error .endless
  · rw [h]
    by_contra h'
    have hne : ValueType.parse m (m'.globals.length + 1) inst ≠ .error .endless := by
      rw [← hparse]
      exact h'
    exact hne ((typeOf_eq_parse hne).symm.trans h)
  · rw [typeOf_eq_parse ((hparse _).trans_ne h)]
    exact hparse _

end

end Module

end ShaderGraft
