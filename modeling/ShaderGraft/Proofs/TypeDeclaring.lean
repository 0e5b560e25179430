import ShaderGraft.Proofs.Compilation
import ShaderGraft.Proofs.TypeReading

/-!
# Declared types are read back

Declaring a type and reading the declaration gives the type again (`ValueType.settles_declare`).
Declarations refer to each other by id, and a module goes on changing after a type was declared in
it. So all that is said here is about a module that the declarations end up in: `Declare.Settles`
relates a step that only declares to any such module in which ids are distinct.
-/

namespace ShaderGraft

/-! ### The same type -/

namespace ValueType

mutual

theorem eq_of_same : {s t : ValueType} → s.same t = true → s = t
  | .void, t, h | .bool, t, h => by
    cases t <;> simp_all [same]
  | .int _ _, t, h | .float _, t, h => by
    cases t <;> simp_all [same]
  | .literalFloat32 _, t, h | .literalFloat64 _, t, h => by
    cases t <;> simp_all [same]
  | .literalInt32 _, t, h | .literalInt64 _, t, h => by
    cases t <;> simp_all [same]
  | .vector elem n, t, h => by
    cases t with
    | vector elem' n' =>
      simp only [same, Bool.and_eq_true, beq_iff_eq] at h
      rw [h.1, eq_of_same h.2]
    | _ => simp [same] at h
  | .matrix elem columns rows, t, h => by
    cases t with
    | matrix elem' columns' rows' =>
      simp only [same, Bool.and_eq_true, beq_iff_eq] at h
      rw [h.1.1, h.1.2, eq_of_same h.2]
    | _ => simp [same] at h
  | .struct fields, t, h => by
    cases t with
    | struct fields' =>
      simp only [same] at h
      rw [eq_of_sameAll h]
    | _ => simp [same] at h
  | .array elem n, t, h => by
    cases t with
    | array elem' n' =>
      simp only [same, Bool.and_eq_true, beq_iff_eq] at h
      rw [h.1, eq_of_same h.2]
    | _ => simp [same] at h
  | .missing, t, h => by
    cases t <;> simp [same] at h

theorem eq_of_sameAll : {ss ts : List ValueType} → sameAll ss ts = true → ss = ts
  | [], [], _ => rfl
  | [], _ :: _, h | _ :: _, [], h => by simp [sameAll] at h
  | s :: ss, t :: ts, h => by
    simp only [sameAll, Bool.and_eq_true] at h
    rw [eq_of_same h.1, eq_of_sameAll h.2]

end

theorem same_self_of_isScalar {t : ValueType} (h : t.isScalar = true) : t.same t = true := by
  cases t <;> simp_all [isScalar, same]

end ValueType

theorem Scalar.isScalar_type (s : Scalar) : s.type.isScalar = true := by
  cases s <;> rfl

/-- The types that host types stand for have no missing parts. -/
theorem HostType.same_self {type : HostType} {t : ValueType} (h : type.valueType = .ok t) :
    t.same t = true := by
  cases type with
  | scalar s | named _ s =>
    cases h
    exact ValueType.same_self_of_isScalar s.isScalar_type
  | vec2 | vec3 | dvec2 | dvec3 | mat2 | mat3 | mat4 =>
    cases h
    rfl
  | array count elem =>
    rw [valueType] at h
    split at h
    · cases h
    split at h
    · cases h
    split at h
    · rename_i hscalar
      cases h
      simpa [ValueType.same] using ValueType.same_self_of_isScalar hscalar
    · cases h
  | foreign name => cases h

/-! ### Steps that declare -/

namespace Declare

variable {α β : Type} {m : Module}

/-- A step that leaves the functions alone and only adds declarations, with what holds of its result
in every module that has them. -/
def Settles (m : Module) (x : Declare α) (Q : α → Prop) : Prop :=
  ∀ m₀, (x.run m₀).2.functions = m₀.functions ∧ m₀.globals <+: (x.run m₀).2.globals ∧
    ((x.run m₀).2.globals <+: m.globals → Q (x.run m₀).1)

theorem settles_pure {a : α} {Q : α → Prop} (h : Q a) : Settles m (pure a) Q :=
  fun _ => ⟨rfl, List.prefix_rfl, fun _ => h⟩

/-- The second step adds its declarations in any case, and what it gives may rest on what the first
one gave. -/
theorem Settles.bind {x : Declare α} {f : α → Declare β} {Q : α → Prop} {R : β → Prop}
    (hx : Settles m x Q) (hf : ∀ a, Settles m (f a) fun b => Q a → R b) :
    Settles m (x >>= f) R := by
  intro m₀
  obtain ⟨hfunctions, hglobals, hQ⟩ := hx m₀
  obtain ⟨hfunctions', hglobals', hR⟩ := hf (x.run m₀).1 (x.run m₀).2
  exact ⟨hfunctions'.trans hfunctions, hglobals.trans hglobals',
    fun hm => hR hm (hQ (hglobals'.trans hm))⟩

theorem Settles.imp {x : Declare α} {Q R : α → Prop} (hx : Settles m x Q) (h : ∀ a, Q a → R a) :
    Settles m x R := by
  intro m₀
  obtain ⟨hfunctions, hglobals, hQ⟩ := hx m₀
  exact ⟨hfunctions, hglobals, fun hm => h _ (hQ hm)⟩

theorem Settles.map {x : Declare α} {f : α → β} {Q : β → Prop}
    (hx : Settles m x fun a => Q (f a)) : Settles m (f <$> x) Q :=
  hx

theorem settles_global (op : Opcode) (type : ResultId) (operands : List Word) :
    Settles m (global op type operands) (m.Declared op type operands) := by
  intro m₀
  have hdeclared := global_declared op type operands m₀
  refine ⟨?_, ?_, hdeclared.mono⟩
  · rw [run_global]
    split <;> rfl
  · rw [run_global]
    split
    · exact List.prefix_rfl
    · exact List.prefix_append ..

theorem settles_capability (c : Word) : Settles m (capability c) fun _ => True := by
  intro m₀
  rw [run_capability]
  split
  · exact ⟨rfl, List.prefix_rfl, fun _ => trivial⟩
  · exact ⟨rfl, List.prefix_rfl, fun _ => trivial⟩

theorem settles_sized (op : Opcode) (width c : Word) (operands : List Word) :
    Settles m (do
      if width = 64 then capability c
      global op 0 operands) (m.Declared op 0 operands) := by
  by_cases hw : width = 64
  · simp only [if_pos hw]
    exact (settles_capability c).bind fun _ => (settles_global op 0 operands).imp fun _ h _ => h
  · simp only [if_neg hw]
    exact settles_global op 0 operands

end Declare

/-! ### Types -/

theorem Module.IdsDistinct.denotes {m : Module} (hm : m.IdsDistinct) {op : Opcode}
    {type id : ResultId} {operands : List Word} {t : ValueType}
    (h : m.Declared op type operands id) (hlayout : op.layout ≠ .none)
    (hshape : ValueType.Shape m m.Denotes
      { opcode := op, resultType := type, resultId := id, operands } t) : m.Denotes id t :=
  ⟨_, hm.global?_declared h hlayout, typeOf_eq_ok_iff.2 hshape⟩

namespace ValueType

open Declare

variable {m : Module}

theorem settles_none (t : ValueType) :
    Settles m (pure none) fun id? => ∀ id ∈ id?, m.Denotes id t :=
  settles_pure fun _ hid => nomatch hid

/-- The length of an array is a constant. -/
theorem denotes_length (hm : m.IdsDistinct) {type id : ResultId} {count : Word}
    (htype : m.Declared .typeInt 0 [32, 0] type) (h : m.Declared .constant type [count] id) :
    m.Denotes id (.literalInt32 count) := by
  refine hm.denotes h (by decide) (.constant rfl ?_)
  unfold ofConstant
  rw [hm.global?_declared htype (by decide)]
  rfl

/-- A type that is declared last. -/
theorem settles_some {x : Declare ResultId} {Q : ResultId → Prop} {P : Prop} {t : ValueType}
    (hx : Settles m x Q) (h : P → ∀ id, Q id → m.Denotes id t) :
    Settles m (do return some (← x)) fun id? => P → ∀ id ∈ id?, m.Denotes id t :=
  hx.bind fun id => settles_pure fun hid hP id' hid' => by
    cases hid'
    exact h hP id hid

mutual

/-- Declaring a type and reading it gives the type. -/
theorem settles_declare (hm : m.IdsDistinct) :
    (t : ValueType) → Settles m t.declare fun id? => ∀ id ∈ id?, m.Denotes id t
  | .void => by
    unfold declare
    refine .map ((settles_global _ _ _).imp fun id h => ?_)
    rintro _ ⟨⟩
    exact hm.denotes h (by decide) (.void rfl)
  | .bool => by
    unfold declare
    refine .map ((settles_global _ _ _).imp fun id h => ?_)
    rintro _ ⟨⟩
    exact hm.denotes h (by decide) (.bool rfl)
  | .int signed width => by
    unfold declare
    refine .map ((settles_sized _ width _ _).imp fun id h => ?_)
    rintro _ ⟨⟩
    cases signed with
    | false => exact hm.denotes h (by decide) (.int rfl rfl (by decide : ¬ (0 : Word) > 1))
    | true => exact hm.denotes h (by decide) (.int rfl rfl (by decide : ¬ (1 : Word) > 1))
  | .float width => by
    unfold declare
    refine .map ((settles_sized _ width _ _).imp fun id h => ?_)
    rintro _ ⟨⟩
    exact hm.denotes h (by decide) (.float rfl rfl)
  | .vector elem count => by
    unfold declare
    refine (settles_declare hm elem).bind fun component? => ?_
    cases component? with
    | none => exact (settles_none _).imp fun _ h _ => h
    | some component =>
      refine settles_some (settles_global _ _ _) fun hcomponent id h => ?_
      exact hm.denotes h (by decide) (.vector rfl rfl (hcomponent component rfl))
  | .matrix elem columns rows => by
    unfold declare
    refine (settles_declare hm elem).bind fun component? => ?_
    cases component? with
    | none => exact (settles_none _).imp fun _ h _ => h
    | some component =>
      refine (settles_global _ _ _).bind fun column => ?_
      refine (settles_some (P := m.Declared .typeVector 0 [component, rows] column ∧
          ∀ id ∈ some component, m.Denotes id elem)
          (settles_global _ _ _) fun hcolumn id h => ?_).imp
        fun _ h hcolumn hcomponent => h ⟨hcolumn, hcomponent⟩
      have hvector : m.Denotes column (.vector elem rows) :=
        hm.denotes hcolumn.1 (by decide) (.vector rfl rfl (hcolumn.2 component rfl))
      exact hm.denotes h (by decide) (.matrix rfl rfl hvector)
  | .struct fields => by
    unfold declare
    refine (settles_declareAll hm fields).bind fun members? => ?_
    cases members? with
    | none => exact (settles_none _).imp fun _ h _ => h
    | some members =>
      refine settles_some (settles_global _ _ _) fun hmembers id h => ?_
      exact hm.denotes h (by decide) (.struct rfl (hmembers members rfl))
  | .array elem count => by
    unfold declare
    refine (settles_declare hm elem).bind fun element? => ?_
    cases element? with
    | none => exact (settles_none _).imp fun _ h _ => h
    | some element =>
      refine (settles_sized .typeInt 32 int64Capability [32, 0]).bind fun type => ?_
      refine (settles_global _ _ _).bind fun length => ?_
      refine (settles_some (P := m.Declared .constant type [count] length ∧
          m.Declared .typeInt 0 [32, 0] type ∧ ∀ id ∈ some element, m.Denotes id elem)
          (settles_global _ _ _) fun hbefore id h => ?_).imp
        fun _ h hlength htype helement => h ⟨hlength, htype, helement⟩
      obtain ⟨hlength, htype, helement⟩ := hbefore
      exact hm.denotes h (by decide)
        (.array rfl rfl (helement element rfl) (denotes_length hm htype hlength))
  | .missing | .literalFloat32 _ | .literalFloat64 _ | .literalInt32 _ | .literalInt64 _ => by
    unfold declare
    exact settles_none _

theorem settles_declareAll (hm : m.IdsDistinct) :
    (ts : List ValueType) → Settles m (declareAll ts) fun ids? =>
      ∀ ids ∈ ids?, List.Forall₂ m.Denotes ids ts
  | [] => by
    unfold declareAll
    refine settles_pure ?_
    rintro _ ⟨⟩
    exact .nil
  | t :: ts => by
    unfold declareAll
    refine (settles_declare hm t).bind fun id? => ?_
    cases id? with
    | none => exact settles_pure fun _ _ hids => nomatch hids
    | some id =>
      refine (settles_declareAll hm ts).bind fun ids? => ?_
      cases ids? with
      | none => exact settles_pure fun _ _ _ hids => nomatch hids
      | some ids =>
        refine settles_pure fun hids hid => ?_
        rintro _ ⟨⟩
        exact .cons (hid id rfl) (hids ids rfl)

end

end ValueType

end ShaderGraft
