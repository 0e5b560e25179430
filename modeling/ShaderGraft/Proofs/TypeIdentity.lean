import ShaderGraft.Proofs.Emission
import ShaderGraft.Proofs.TypeDeclaring

/-!
# Types between modules and declarations

Two types are the same exactly if they are one type without missing parts
(`ValueType.same_decides_identity`). Declaring a type and reading it back is the identity on the
types that can be declared, which are those without a missing or a literal part
(`ValueType.same_declare`). The other way round it is not: what is read from a declaration need not
be one of them, since a constant is read like a type wherever an id names one. So a type that was
read can be declared again exactly if no component of its declaration is a constant
(`ValueType.same_redeclare`, `Module.literalVector_not_declared`).
-/

namespace ShaderGraft

namespace ValueType

/-! ### Parts of types -/

mutual

/-- The type itself and all types that it is made of. -/
def parts : ValueType → List ValueType
  | .vector elem count => .vector elem count :: elem.parts
  | .matrix elem columns rows => .matrix elem columns rows :: elem.parts
  | .struct fields => .struct fields :: partsAll fields
  | .array elem count => .array elem count :: elem.parts
  | t => [t]

def partsAll : List ValueType → List ValueType
  | [] => []
  | t :: ts => t.parts ++ partsAll ts

end

/-- Whether it is the type of a constant, with the value of the constant. -/
def isLiteral : ValueType → Bool
  | .literalFloat32 _ | .literalFloat64 _ | .literalInt32 _ | .literalInt64 _ => true
  | _ => false

def isMissing : ValueType → Bool
  | .missing => true
  | _ => false

/-- A type without literal and without missing parts. -/
structure Concrete (t : ValueType) : Prop where
  noLiteral : ∀ p ∈ t.parts, p.isLiteral = false
  noMissing : ∀ p ∈ t.parts, p.isMissing = false

theorem concrete_iff {t : ValueType} :
    t.Concrete ↔ ∀ p ∈ t.parts, p.isLiteral = false ∧ p.isMissing = false := by
  constructor
  · exact fun h p hp => ⟨h.noLiteral p hp, h.noMissing p hp⟩
  · exact fun h => ⟨fun p hp => (h p hp).1, fun p hp => (h p hp).2⟩

theorem mem_partsAll {ts : List ValueType} {p : ValueType} :
    p ∈ partsAll ts ↔ ∃ t ∈ ts, p ∈ t.parts := by
  induction ts with
  | nil => simp [partsAll]
  | cons t ts ih => simp [partsAll, ih]

@[simp] theorem concrete_vector {elem : ValueType} {count : Word} :
    (vector elem count).Concrete ↔ elem.Concrete := by
  simp [concrete_iff, parts, isLiteral, isMissing]

@[simp] theorem concrete_matrix {elem : ValueType} {columns rows : Word} :
    (matrix elem columns rows).Concrete ↔ elem.Concrete := by
  simp [concrete_iff, parts, isLiteral, isMissing]

@[simp] theorem concrete_array {elem : ValueType} {count : Word} :
    (array elem count).Concrete ↔ elem.Concrete := by
  simp [concrete_iff, parts, isLiteral, isMissing]

@[simp] theorem concrete_struct {fields : List ValueType} :
    (struct fields).Concrete ↔ ∀ t ∈ fields, t.Concrete := by
  simp only [concrete_iff, parts, List.mem_cons, mem_partsAll, forall_eq_or_imp]
  constructor
  · exact fun h t ht p hp => h.2 p ⟨t, ht, hp⟩
  · exact fun h => ⟨⟨rfl, rfl⟩, fun p ⟨t, ht, hp⟩ => h t ht p hp⟩

/-! ### Which types are the same -/

mutual

/-- A type is the same as itself exactly if no part of it is missing. -/
theorem same_self_iff : (t : ValueType) → (t.same t = true ↔ .missing ∉ t.parts)
  | .missing | .void | .bool => by simp [same, parts]
  | .int _ _ | .float _ | .literalFloat32 _ | .literalFloat64 _ | .literalInt32 _
  | .literalInt64 _ => by simp [same, parts]
  | .vector elem _ | .matrix elem _ _ | .array elem _ => by
    simp [same, parts, same_self_iff elem]
  | .struct fields => by simp [same, parts, sameAll_self_iff fields]

theorem sameAll_self_iff : (ts : List ValueType) →
    (sameAll ts ts = true ↔ .missing ∉ partsAll ts)
  | [] => by simp [sameAll, partsAll]
  | t :: ts => by simp [sameAll, partsAll, same_self_iff t, sameAll_self_iff ts]

end

theorem isMissing_eq_false {t : ValueType} : t.isMissing = false ↔ t ≠ .missing := by
  cases t <;> simp [isMissing]

/-- A type without missing parts is the same as itself. -/
theorem same_self {t : ValueType} (h : ∀ p ∈ t.parts, p.isMissing = false) : t.same t = true :=
  (same_self_iff t).2 fun hmissing => isMissing_eq_false.1 (h _ hmissing) rfl

theorem same_iff {s t : ValueType} : s.same t = true ↔ s = t ∧ .missing ∉ s.parts := by
  constructor
  · intro h
    cases eq_of_same h
    exact ⟨rfl, (same_self_iff s).1 h⟩
  · rintro ⟨rfl, h⟩
    exact (same_self_iff s).2 h

/-- **Sameness is identity of types without missing parts.** So it is symmetric and transitive, and
reflexive on these types and on no others. -/
theorem same_decides_identity (a b c : ValueType) :
    (a.same b = true ↔ a = b ∧ .missing ∉ a.parts) ∧
      a.same b = b.same a ∧
      (a.same b = true → b.same c = true → a.same c = true) ∧
      (a.same a = true ↔ .missing ∉ a.parts) := by
  refine ⟨same_iff, Bool.eq_iff_iff.2 ?_, fun hab hbc => ?_, same_self_iff a⟩
  · rw [same_iff, same_iff]
    constructor
    · rintro ⟨rfl, h⟩
      exact ⟨rfl, h⟩
    · rintro ⟨rfl, h⟩
      exact ⟨rfl, h⟩
  · cases eq_of_same hab
    exact hbc

/-- A struct of a vector and of a constant that is not a number. -/
def withNaN : ValueType :=
  .struct [.vector .f32 3, .literalFloat32 0x7FC00000]

theorem same_decides_identity_withNaN :
    withNaN.same (.struct [.vector .f32 3, .literalFloat32 0x7FC00000]) = true ∧
      withNaN.same withNaN = true := by
  have hsame : withNaN.same (.struct [.vector .f32 3, .literalFloat32 0x7FC00000]) = true := rfl
  exact ⟨hsame, (same_decides_identity withNaN _ withNaN).2.2.1 hsame rfl⟩

/-! ### Which types can be declared -/

end ValueType

namespace Declare

/-- A step that gives a result exactly if `P` holds, whatever the module is. -/
def Answers {α : Type} (x : Declare (Option α)) (P : Prop) : Prop :=
  ∀ m, (x.run m).1.isSome ↔ P

variable {α β : Type}

theorem answers_none : Answers (pure none : Declare (Option α)) False :=
  fun _ => ⟨Bool.false_ne_true, False.elim⟩

theorem answers_some (a : α) : Answers (pure (some a)) True :=
  fun _ => ⟨fun _ => trivial, fun _ => rfl⟩

theorem answers_map (x : Declare α) : Answers (some <$> x) True :=
  fun _ => ⟨fun _ => trivial, fun _ => rfl⟩

theorem answers_bind (x : Declare α) {f : α → Declare (Option β)} {P : Prop}
    (hf : ∀ a, Answers (f a) P) : Answers (x >>= f) P :=
  fun m => hf (x.run m).1 (x.run m).2

/-- What follows a step that gives nothing gives nothing. -/
theorem Answers.bind {x : Declare (Option α)} {f : Option α → Declare (Option β)} {P Q : Prop}
    (hx : Answers x P) (hnone : Answers (f none) False) (hsome : ∀ a, Answers (f (some a)) Q) :
    Answers (x >>= f) (P ∧ Q) := by
  intro m
  change ((f (x.run m).1).run (x.run m).2).1.isSome ↔ _
  rw [← hx m]
  cases (x.run m).1 with
  | none => simp [hnone (x.run m).2]
  | some a => simp [hsome a (x.run m).2]

theorem Answers.congr {x : Declare (Option α)} {P Q : Prop} (hx : Answers x P) (h : P ↔ Q) :
    Answers x Q :=
  fun m => (hx m).trans h

theorem Answers.followed {x : Declare (Option α)} {f : Option α → Declare (Option β)} {P : Prop}
    (hx : Answers x P) (hnone : Answers (f none) False) (hsome : ∀ a, Answers (f (some a)) True) :
    Answers (x >>= f) P :=
  (hx.bind hnone hsome).congr (by simp)

end Declare

namespace ValueType

open Declare

mutual

/-- Declaring a type gives an id exactly if the type is concrete. -/
theorem answers_declare : (t : ValueType) → Answers t.declare t.Concrete
  | .void | .bool | .int _ _ | .float _ => by
    unfold declare
    refine (answers_map _).congr ?_
    simp [concrete_iff, parts, isLiteral, isMissing]
  | .vector elem count => by
    unfold declare
    rw [concrete_vector]
    refine .followed (answers_declare elem) answers_none fun component => ?_
    exact answers_bind _ answers_some
  | .matrix elem columns rows => by
    unfold declare
    rw [concrete_matrix]
    refine .followed (answers_declare elem) answers_none fun component => ?_
    exact answers_bind _ fun column => answers_bind _ answers_some
  | .struct fields => by
    unfold declare
    rw [concrete_struct]
    refine .followed (answers_declareAll fields) answers_none fun members => ?_
    exact answers_bind _ answers_some
  | .array elem count => by
    unfold declare
    rw [concrete_array]
    refine .followed (answers_declare elem) answers_none fun element => ?_
    exact answers_bind _ fun type => answers_bind _ fun length => answers_bind _ answers_some
  | .missing | .literalFloat32 _ | .literalFloat64 _ | .literalInt32 _ | .literalInt64 _ => by
    unfold declare
    refine answers_none.congr ?_
    simp [concrete_iff, parts, isLiteral, isMissing]

theorem answers_declareAll : (ts : List ValueType) → Answers (declareAll ts) (∀ t ∈ ts, t.Concrete)
  | [] => by
    unfold declareAll
    exact (answers_some _).congr (by simp)
  | t :: ts => by
    unfold declareAll
    rw [List.forall_mem_cons]
    refine .bind (answers_declare t) answers_none fun id => ?_
    exact .followed (answers_declareAll ts) answers_none fun ids => answers_some _

end

/-- A type that is declared with enough ids is read back. -/
theorem denotes_of_declare {m m' : Module} {t : ValueType} {id : ResultId} (hm : m.IdWellFormed)
    (h : t.declare.run m = (some id, m'))
    (hlimit : m.header.bound.toNat + (m'.extent - m.extent) ≤ UInt32.size) : m'.Denotes id t := by
  have hextending : t.declare.Extending [] [] (Declared []) := t.extending_declare
  obtain ⟨⟨⟨n, hchanges, hextent⟩, -⟩, -⟩ := hextending m (List.nil_subset _)
  rw [h] at hchanges hextent
  change m'.extent = m.extent + n at hextent
  have hbelow := hchanges.idsBelow hm.idsBelow (by omega) fun _ h => h
  obtain ⟨-, -, hdenotes⟩ := t.settles_declare hbelow.toIdsDistinct m
  rw [h] at hdenotes
  exact hdenotes List.prefix_rfl id rfl

theorem keeps_declare {m m' : Module} {t : ValueType} {id? : Option ResultId}
    (h : t.declare.run m = (id?, m')) : m.Keeps m' := by
  obtain ⟨n, hn⟩ := t.growing_declare { target := m }
  obtain ⟨a, ha, -⟩ := hn.eq_grow
  have hglobals : m'.globals = m.globals ++ a.globals := by
    rw [h] at ha
    exact congrArg (·.target.globals) ha
  exact .of_globals (hglobals ▸ List.prefix_append ..)

/-- **Declaring a type and reading it back is the identity.** A type can be declared in any module
exactly if it is concrete. What its id stands for is then the same type, and everything that could
be read before is still read as what it was. -/
theorem same_declare {m m' : Module} {t : ValueType} {id? : Option ResultId} (hm : m.IdWellFormed)
    (h : t.declare.run m = (id?, m')) :
    (id?.isSome ↔ t.Concrete) ∧
      (∀ id, id? = some id → m.header.bound.toNat + (m'.extent - m.extent) ≤ UInt32.size →
        ∃ decl t', m'.global? id = some decl ∧ m'.typeOf decl = .ok t' ∧ t'.same t = true) ∧
      m.Keeps m' ∧ ∀ inst t', m.typeOf inst = .ok t' → m'.typeOf inst = .ok t' := by
  have hanswers := t.answers_declare m
  rw [h] at hanswers
  have hkeeps := keeps_declare h
  refine ⟨hanswers, fun id hid hlimit => ?_, hkeeps, fun inst t' => hkeeps.typeOf⟩
  subst hid
  obtain ⟨decl, hdecl, htype⟩ := denotes_of_declare hm h hlimit
  exact ⟨decl, t, hdecl, htype, same_self (hanswers.1 rfl).noMissing⟩

end ValueType

/-- A module with a struct of an array of matrices and a float. The float type has an operand that
reading leaves out. -/
def Module.nested : Module where
  header := { version := ⟨1, 3⟩, bound := 8 }
  globals := [
    { opcode := .typeFloat, resultId := 1, operands := [32, 0] },
    { opcode := .typeVector, resultId := 2, operands := [1, 3] },
    { opcode := .typeMatrix, resultId := 3, operands := [2, 4] },
    { opcode := .typeInt, resultId := 4, operands := [32, 1] },
    { opcode := .constant, resultType := 4, resultId := 5, operands := [2] },
    { opcode := .typeArray, resultId := 6, operands := [3, 5] },
    { opcode := .typeStruct, resultId := 7, operands := [6, 1] }]

namespace ValueType

/-- The type of the struct of the module. -/
def nested : ValueType :=
  .struct [.array (.matrix .f32 4 3) 2, .f32]

theorem run_declare_nested :
    nested.declare.run .nested = (some 14, (nested.declare.run .nested).2) := by
  have hid : (nested.declare.run .nested).1 = some 14 := by decide +kernel
  rw [← hid, Prod.mk.eta]

theorem same_declare_nested :
    Module.nested.IdWellFormed ∧ nested.Concrete ∧
      ∃ m' decl t', nested.declare.run .nested = (some 14, m') ∧
        m'.global? 14 = some decl ∧ m'.typeOf decl = .ok t' ∧ t'.same nested = true := by
  have hm : Module.nested.IdWellFormed := by decide +kernel
  obtain ⟨hconcrete, hread, -⟩ := same_declare hm run_declare_nested
  obtain ⟨decl, t', h⟩ := hread 14 rfl (by decide +kernel)
  exact ⟨hm, hconcrete.1 rfl, _, decl, t', run_declare_nested, h⟩

end ValueType

/-! ### Reading types that can be declared -/

/-- The ids of the types that the declaration of a type is made of. The length of an array is not
one of them. -/
def Instruction.components (inst : Instruction) : List ResultId :=
  match inst.opcode, inst.operands with
  | .typeVector, [component, _] => [component]
  | .typeMatrix, [column, _] => [column]
  | .typeStruct, members => members
  | .typeArray, [element, _] => [element]
  | _, _ => []

/-- A declaration of a type in which no component, directly or through others, is a constant. -/
inductive Module.Composed (m : Module) : Instruction → Prop where
  | intro {inst : Instruction} : inst.opcode ≠ .constant →
      (∀ id ∈ inst.components, ∀ decl, m.global? id = some decl → m.Composed decl) →
      m.Composed inst

theorem Module.composed_iff {m : Module} {inst : Instruction} :
    m.Composed inst ↔ inst.opcode ≠ .constant ∧
      ∀ id ∈ inst.components, ∀ decl, m.global? id = some decl → m.Composed decl :=
  ⟨fun ⟨hop, h⟩ => ⟨hop, h⟩, fun ⟨hop, h⟩ => .intro hop h⟩

namespace ValueType

theorem isLiteral_ofConstant {m : Module} {inst : Instruction} {t : ValueType}
    (h : ofConstant m inst = .ok t) : t.isLiteral = true := by
  unfold ofConstant at h
  split at h
  · cases h
  split at h
  · cases h
  · cases h
  · cases h
  all_goals
    split at h
    · cases h
      rfl
    split at h
    · cases h
      rfl
    · cases h

theorem not_concrete_of_isLiteral {t : ValueType} (h : t.isLiteral = true) : ¬ t.Concrete := by
  intro hconcrete
  have hself : t ∈ t.parts := by cases t <;> simp [parts]
  rw [hconcrete.noLiteral t hself] at h
  cases h

theorem forall_mem_iff_of_forall₂ {α β : Type} {P : α → Prop} {Q : β → Prop} {as : List α}
    {bs : List β} (h : List.Forall₂ (fun a b => Q b ↔ P a) as bs) :
    (∀ b ∈ bs, Q b) ↔ ∀ a ∈ as, P a := by
  induction h with
  | nil => simp
  | cons hab _ ih => simp [hab, ih]

/-- A type that is read is concrete exactly if its declaration is composed of types. -/
theorem concrete_iff_composed {m : Module} {fuel : Nat} {inst : Instruction} {t : ValueType}
    (h : parse m fuel inst = .ok t) : t.Concrete ↔ m.Composed inst := by
  induction fuel generalizing inst t with
  | zero => cases h
  | succ fuel ih =>
    -- what a component is read as is concrete exactly if all that the component names is composed
    have hcomponent {id : ResultId} {t : ValueType} (hid : operandAt m fuel id = .ok t) :
        t.Concrete ↔ ∀ decl, m.global? id = some decl → m.Composed decl := by
      obtain ⟨decl, hdecl, hparse⟩ := operandAt_eq_ok.1 hid
      simp [ih hparse, hdecl]
    obtain ⟨op, type, id, operands⟩ := inst
    rw [Module.composed_iff]
    cases parse_succ_eq_ok.1 h with
    | constant hop hconstant =>
      refine iff_of_false (not_concrete_of_isLiteral (isLiteral_ofConstant hconstant)) ?_
      exact fun h => h.1 hop
    | void hop | bool hop =>
      cases hop
      simp [concrete_iff, parts, isLiteral, isMissing, Instruction.components]
    | int hop hoperands | float hop hoperands =>
      cases hop
      cases hoperands
      simp [concrete_iff, parts, isLiteral, isMissing, Instruction.components]
    | vector hop hoperands helem | array hop hoperands helem =>
      cases hop
      cases hoperands
      simp [hcomponent helem, Instruction.components]
    | matrix hop hoperands hcolumn =>
      cases hop
      cases hoperands
      have hvector := hcomponent hcolumn
      rw [concrete_vector] at hvector
      simp [hvector, Instruction.components]
    | struct hop hfields =>
      cases hop
      have hmembers := hfields.imp fun id t => hcomponent
      simp [forall_mem_iff_of_forall₂ hmembers, Instruction.components]

/-- **A type that was read can be declared again** exactly if no component of its declaration is a
constant. What is declared is then read as the same type. -/
theorem same_redeclare {m m' : Module} {inst : Instruction} {t : ValueType} {id? : Option ResultId}
    (hm : m.IdWellFormed) (htype : m.typeOf inst = .ok t) (h : t.declare.run m = (id?, m')) :
    (id?.isSome ↔ m.Composed inst) ∧
      ∀ id, id? = some id → m.header.bound.toNat + (m'.extent - m.extent) ≤ UInt32.size →
        ∃ decl t', m'.global? id = some decl ∧ m'.typeOf decl = .ok t' ∧ t'.same t = true := by
  have hanswers := t.answers_declare m
  rw [h] at hanswers
  refine ⟨hanswers.trans (concrete_iff_composed htype), fun id hid hlimit => ?_⟩
  subst hid
  obtain ⟨decl, hdecl, hread⟩ := denotes_of_declare hm h hlimit
  exact ⟨decl, t, hdecl, hread, same_self (hanswers.1 rfl).noMissing⟩

end ValueType

theorem Module.typeOf_nested :
    nested.typeOf { opcode := .typeStruct, resultId := 7, operands := [6, 1] } = .ok .nested := by
  have hfloat : nested.Denotes 1 .f32 := ⟨_, rfl, typeOf_eq_ok_iff.2 (.float rfl rfl)⟩
  have hcolumn : nested.Denotes 2 (.vector .f32 3) :=
    ⟨_, rfl, typeOf_eq_ok_iff.2 (.vector rfl rfl hfloat)⟩
  have hmatrix : nested.Denotes 3 (.matrix .f32 4 3) :=
    ⟨_, rfl, typeOf_eq_ok_iff.2 (.matrix rfl rfl hcolumn)⟩
  have hlength : nested.Denotes 5 (.literalInt32 2) :=
    ⟨_, rfl, typeOf_eq_ok_iff.2 (.constant rfl rfl)⟩
  have harray : nested.Denotes 6 (.array (.matrix .f32 4 3) 2) :=
    ⟨_, rfl, typeOf_eq_ok_iff.2 (.array rfl rfl hmatrix hlength)⟩
  exact typeOf_eq_ok_iff.2 (.struct rfl (.cons harray (.cons hfloat .nil)))

theorem ValueType.same_redeclare_nested :
    Module.nested.IdWellFormed ∧
      Module.nested.Composed { opcode := .typeStruct, resultId := 7, operands := [6, 1] } ∧
      ∃ m' decl t', nested.declare.run .nested = (some 14, m') ∧
        m'.global? 14 = some decl ∧ m'.typeOf decl = .ok t' ∧ t'.same nested = true := by
  have hm : Module.nested.IdWellFormed := by decide +kernel
  obtain ⟨hcomposed, hread⟩ := same_redeclare hm Module.typeOf_nested run_declare_nested
  obtain ⟨decl, t', h⟩ := hread 14 rfl (by decide +kernel)
  exact ⟨hm, hcomposed.1 rfl, _, decl, t', run_declare_nested, h⟩

/-- A module with a vector whose component is a constant. -/
def Module.literalVector : Module where
  header := { version := ⟨1, 3⟩, bound := 4 }
  globals := [
    { opcode := .typeInt, resultId := 1, operands := [32, 0] },
    { opcode := .constant, resultType := 1, resultId := 2, operands := [7] },
    { opcode := .typeVector, resultId := 3, operands := [2, 3] }]

theorem Module.literalVector_not_declared :
    literalVector.IdWellFormed ∧ ∃ inst t, literalVector.global? 3 = some inst ∧
      inst.opcode = .typeVector ∧ literalVector.typeOf inst = .ok t ∧
      (t.declare.run literalVector).1 = none := by
  exact ⟨by decide +kernel, _, .vector (.literalInt32 7) 3, rfl, rfl, rfl, rfl⟩

end ShaderGraft
