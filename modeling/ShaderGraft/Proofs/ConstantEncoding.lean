import ShaderGraft.Proofs.Sharing

/-!
# Constants stand for their values

`Module.readConstant?` reads the type and the bits of a constant from its declaration: a scalar from
its words, a vector from its components in order, and a matrix from its columns, element by element
and row by row. The main statement is `HostType.emit_canonical`: what is read from the constant of a
value is the type and the bits of the value, and two constants, wherever in a run they are made,
have the same id exactly if they have the same type and the same bits.

Host types do not matter beyond that. There are three ways in which constants are made (`Making`),
and the type and the bits determine the way and all that it is given.
-/

namespace ShaderGraft

/-! ### Bits -/

/-- The bits of a scalar, low order word first. A truth value is one or zero. -/
def Scalar.bits : (s : Scalar) → s.Value → List Word
  | .bool, v => [if v then 1 else 0]
  | .int32, v | .uint32, v | .float32, v => [v]
  | .int64, v | .uint64, v | .float64, v => [v.toUInt32, (v >>> 32).toUInt32]

/-- The bits of a value, element by element. Matrices are given row by row. -/
def HostType.bits : (type : HostType) → type.Value → List Word
  | .scalar s, v | .named _ s, v => s.bits v
  | .vec2, v => v.toList.flatMap Scalar.float32.bits
  | .vec3, v => v.toList.flatMap Scalar.float32.bits
  | .dvec2, v => v.toList.flatMap Scalar.float64.bits
  | .dvec3, v => v.toList.flatMap Scalar.float64.bits
  | .mat2, v => v.toList
  | .mat3, v => v.toList
  | .mat4, v => v.toList
  | .array _ elem, v => v.toList.flatMap elem.bits
  | .foreign _, _ => []

theorem flatMap_injective {α β : Type} {f : α → List β} {n : Nat} (hlength : ∀ a, (f a).length = n)
    (hinj : ∀ a b, f a = f b → a = b) {as bs : List α} (hsame : as.length = bs.length)
    (h : as.flatMap f = bs.flatMap f) : as = bs := by
  induction as generalizing bs with
  | nil => exact (List.length_eq_zero_iff.1 hsame.symm).symm
  | cons a as ih =>
    cases bs with
    | nil => cases hsame
    | cons b bs =>
      simp only [List.flatMap_cons] at h
      obtain ⟨hhead, htail⟩ := List.append_inj h (by rw [hlength, hlength])
      rw [hinj a b hhead, ih (Nat.succ.inj hsame) htail]

namespace Scalar

/-- A number of 64 bits is known from its two words. -/
theorem eq_of_halves {v w : UInt64} (hlow : v.toUInt32 = w.toUInt32)
    (hhigh : (v >>> 32).toUInt32 = (w >>> 32).toUInt32) : v = w := by
  have hlow' := congrArg UInt32.toNat hlow
  have hhigh' := congrArg UInt32.toNat hhigh
  have hshift (x : UInt64) : (x >>> 32).toNat = x.toNat / 4294967296 := by
    rw [UInt64.toNat_shiftRight]
    exact Nat.shiftRight_eq_div_pow ..
  simp only [UInt64.toNat_toUInt32, hshift] at hlow' hhigh'
  have hv := v.toNat_lt
  have hw := w.toNat_lt
  apply UInt64.toNat_inj.1
  omega

theorem length_bits (s : Scalar) : ∃ n, ∀ v, (s.bits v).length = n := by
  cases s with
  | bool | int32 | uint32 | float32 => exact ⟨1, fun _ => rfl⟩
  | int64 | uint64 | float64 => exact ⟨2, fun _ => rfl⟩

theorem bits_injective (s : Scalar) (v w : s.Value) (h : s.bits v = s.bits w) : v = w := by
  cases s with
  | bool => cases v <;> cases w <;> simp_all [bits]
  | int32 | uint32 | float32 => exact List.head_eq_of_cons_eq h
  | int64 | uint64 | float64 =>
    simp only [bits, List.cons.injEq, and_true] at h
    exact eq_of_halves h.1 h.2

theorem type_injective {s s' : Scalar} (h : s.type = s'.type) : s = s' := by
  cases s <;> cases s' <;> simp_all [type]

theorem concrete_type (s : Scalar) : s.type.Concrete := by
  cases s <;> simp [type, ValueType.concrete_iff, ValueType.parts, ValueType.isLiteral,
    ValueType.isMissing]

/-- The elements of a vector are known from its bits. -/
theorem flatMap_bits_injective (s : Scalar) {vs ws : List s.Value} (hlength : vs.length = ws.length)
    (h : vs.flatMap s.bits = ws.flatMap s.bits) : vs = ws := by
  obtain ⟨n, hn⟩ := s.length_bits
  exact flatMap_injective hn s.bits_injective hlength h

end Scalar

namespace HostType

theorem not_isScalar_array {count : Nat} {elem : HostType} {t : ValueType}
    (h : (array count elem).valueType = .ok t) : t.isScalar = false := by
  rw [valueType] at h
  split at h
  · cases h
  split at h
  · cases h
  split at h
  · cases h
    rfl
  · cases h

/-- The elements of an array that stands for a type are scalars. -/
theorem cases_array {count : Nat} {elem : HostType} {t : ValueType}
    (h : (array count elem).valueType = .ok t) :
    ∃ s : Scalar, (elem = .scalar s ∨ ∃ name, elem = .named name s) ∧ count ≤ 4 ∧
      t = .vector s.type count.toUInt32 := by
  rw [valueType] at h
  split at h
  · cases h
  rename_i hcount
  simp only [Bool.or_eq_true, decide_eq_true_eq, not_or, not_lt] at hcount
  split at h
  · cases h
  rename_i elemType helem
  split at h
  · rename_i hscalar
    cases h
    cases elem with
    | scalar s =>
      cases helem
      exact ⟨s, .inl rfl, hcount.2, rfl⟩
    | named name s =>
      cases helem
      exact ⟨s, .inr ⟨name, rfl⟩, hcount.2, rfl⟩
    | array => simp [not_isScalar_array helem] at hscalar
    | foreign => cases helem
    | _ =>
      cases helem
      cases hscalar
  · cases h

theorem bits_injective {type : HostType} {t : ValueType} (ht : type.valueType = .ok t)
    (v w : type.Value) (h : type.bits v = type.bits w) : v = w := by
  cases type with
  | scalar s | named _ s => exact s.bits_injective v w h
  | vec2 | vec3 | dvec2 | dvec3 =>
    exact Vector.toList_inj.1 (Scalar.flatMap_bits_injective _ (by simp) h)
  | mat2 | mat3 | mat4 => exact Vector.toList_inj.1 h
  | array count elem =>
    obtain ⟨s, rfl | ⟨name, rfl⟩, -, -⟩ := cases_array ht
    · exact Vector.toList_inj.1 (s.flatMap_bits_injective (by simp) h)
    · exact Vector.toList_inj.1 (s.flatMap_bits_injective (by simp) h)
  | foreign => cases ht

end HostType

/-! ### How constants are made -/

/-- The ways in which the constant of a type with some bits is made. -/
inductive Making (t : ValueType) (bits : List Word) : Emit ResultId → Prop where
  | scalar (s : Scalar) (v : s.Value) : t = s.type → bits = s.bits v → Making t bits (s.emit v)
  | vector (s : Scalar) (vs : List s.Value) : vs.length < UInt32.size →
      t = .vector s.type vs.length.toUInt32 → bits = vs.flatMap s.bits →
      Making t bits (s.emitVector vs)
  | matrix (n : Nat) : n < UInt32.size → t = .matrix .f32 n.toUInt32 n.toUInt32 →
      bits.length = n * n → Making t bits (emitMatrix n bits)

/-- The same number of elements. -/
theorem eq_of_toUInt32 {n k : Nat} (hn : n < UInt32.size) (hk : k < UInt32.size)
    (h : n.toUInt32 = k.toUInt32) : n = k := by
  have hnat := congrArg UInt32.toNat h
  change (UInt32.ofNat n).toNat = (UInt32.ofNat k).toNat at hnat
  rwa [UInt32.toNat_ofNat_of_lt' hn, UInt32.toNat_ofNat_of_lt' hk] at hnat

theorem Scalar.type_ne (s : Scalar) {t : ValueType} (ht : t.isScalar = false) : s.type ≠ t := by
  rintro rfl
  rw [s.isScalar_type] at ht
  cases ht

/-- Constants with the same type and the same bits are made in the same way. -/
theorem Making.unique {t : ValueType} {bits : List Word} {x y : Emit ResultId}
    (hx : Making t bits x) (hy : Making t bits y) : x = y := by
  cases hx with
  | scalar s v ht hbits =>
    cases hy with
    | scalar s' v' ht' hbits' =>
      obtain rfl := Scalar.type_injective (ht.symm.trans ht')
      rw [s.bits_injective v v' (hbits.symm.trans hbits')]
    | vector _ _ _ ht' => exact absurd (ht.symm.trans ht') (s.type_ne rfl)
    | matrix _ _ ht' => exact absurd (ht.symm.trans ht') (s.type_ne rfl)
  | vector s vs hlength ht hbits =>
    cases hy with
    | scalar s' _ ht' => exact absurd (ht'.symm.trans ht) (s'.type_ne rfl)
    | vector s' vs' hlength' ht' hbits' =>
      injection ht.symm.trans ht' with htype hcount
      obtain rfl := Scalar.type_injective htype
      rw [s.flatMap_bits_injective (eq_of_toUInt32 hlength hlength' hcount)
        (hbits.symm.trans hbits')]
    | matrix _ _ ht' => cases ht.symm.trans ht'
  | matrix n hn ht _ =>
    cases hy with
    | scalar s' _ ht' => exact absurd (ht'.symm.trans ht) (s'.type_ne rfl)
    | vector _ _ _ ht' => cases ht.symm.trans ht'
    | matrix n' hn' ht' =>
      injection ht.symm.trans ht' with _ hcount
      rw [eq_of_toUInt32 hn hn' hcount]

namespace HostType

theorem making_array {count : Nat} {elem : HostType} {s : Scalar} {t : ValueType}
    (ht : (array count elem).valueType = .ok t) (hvector : t = .vector s.type count.toUInt32)
    (hcount : count ≤ 4) (v : Vector s.Value count) :
    Making t (v.toList.flatMap s.bits) (do
      let _ ← Emit.valueType (.array count elem)
      s.emitVector v.toList) := by
  simp only [Emit.valueType, ht, pure_bind]
  apply Making.vector
  · rw [v.length_toList]
    exact Nat.lt_of_le_of_lt hcount (by decide)
  · rw [v.length_toList, hvector]
  · rfl

theorem making_vector {n : Nat} (s : Scalar) (hn : n < UInt32.size) (v : Vector s.Value n) :
    Making (.vector s.type n.toUInt32) (v.toList.flatMap s.bits) (s.emitVector v.toList) :=
  .vector s v.toList (by rwa [v.length_toList]) (by rw [v.length_toList]) rfl

/-- All that matters for the constant of a value is its type and its bits. -/
theorem making {type : HostType} {t : ValueType} (ht : type.valueType = .ok t) (v : type.Value) :
    Making t (type.bits v) (type.emit v) := by
  cases type with
  | scalar s | named _ s =>
    cases ht
    exact .scalar s v rfl rfl
  | vec2 | vec3 =>
    cases ht
    exact making_vector .float32 (by decide) v
  | dvec2 | dvec3 =>
    cases ht
    exact making_vector .float64 (by decide) v
  | mat2 | mat3 | mat4 =>
    cases ht
    exact .matrix _ (by decide) rfl v.length_toList
  | array count elem =>
    obtain ⟨s, rfl | ⟨name, rfl⟩, hcount, hvector⟩ := cases_array ht
    · exact making_array ht hvector hcount v
    · exact making_array ht hvector hcount v
  | foreign => cases ht

end HostType

/-! ### Reading constants -/

namespace Module

/-- The declaration of a constant with the type that it is declared with. -/
def typedConstant? (m : Module) (id : ResultId) : Option (ValueType × Instruction) := do
  let inst ← m.global? id
  let decl ← m.global? inst.resultType
  let t ← (m.typeOf decl).toOption
  return (t, inst)

/-- The bits of a scalar of a type from the opcode and the operands of its constant. -/
def scalarBits? (t : ValueType) (op : Opcode) (operands : List Word) : Option (List Word) :=
  match t, op, operands with
  | .bool, .constantTrue, [] => some [1]
  | .bool, .constantFalse, [] => some [0]
  | .int _ 32, .constant, [w] | .float 32, .constant, [w] => some [w]
  | .int _ 64, .constant, [low, high] | .float 64, .constant, [low, high] => some [low, high]
  | _, _, _ => none

/-- The bits of a scalar constant of a type. -/
def readScalar? (m : Module) (t : ValueType) (id : ResultId) : Option (List Word) := do
  let (t', inst) ← m.typedConstant? id
  if t'.same t then scalarBits? t inst.opcode inst.operands else none

/-- What the constituents of a composite constant of a type are read as, in order. -/
def readComposite? {α : Type} (m : Module) (t : ValueType) (count : Word)
    (read : ResultId → Option α) (id : ResultId) : Option (List α) := do
  let (t', inst) ← m.typedConstant? id
  if t'.same t ∧ inst.opcode = .constantComposite ∧ inst.operands.length = count.toNat then
    inst.operands.mapM read
  else none

/-- The components of a vector constant. -/
def readVector? (m : Module) (elem : ValueType) (count : Word) (id : ResultId) :
    Option (List (List Word)) :=
  m.readComposite? (.vector elem count) count (m.readScalar? elem) id

/-- The elements of a matrix row by row, from its columns. -/
def rowByRow (rows : Nat) (columns : List (List (List Word))) : List Word :=
  (List.range rows).flatMap fun r => columns.flatMap fun column => column.getD r []

/-- The bits of a constant of a type. -/
def readBits? (m : Module) : ValueType → ResultId → Option (List Word)
  | .vector elem count, id => (m.readVector? elem count id).map List.flatten
  | .matrix elem columns rows, id =>
    (m.readComposite? (.matrix elem columns rows) columns (m.readVector? elem rows) id).map
      (rowByRow rows.toNat)
  | t, id => m.readScalar? t id

/-- The type and the bits of a constant. -/
def readConstant? (m : Module) (id : ResultId) : Option (ValueType × List Word) := do
  let (t, _) ← m.typedConstant? id
  return (t, ← m.readBits? t id)

theorem toOption_typeOf_heading (m : Module) (decl : Instruction) :
    (m.heading.typeOf decl).toOption = (m.typeOf decl).toOption := by
  have hthere : m.heading.Keeps m := .of_globals List.prefix_rfl
  have hback : m.Keeps m.heading := .of_globals List.prefix_rfl
  cases h : m.typeOf decl with
  | ok t => rw [hback.typeOf h]
  | error e =>
    cases h' : m.heading.typeOf decl with
    | ok t =>
      rw [hthere.typeOf h'] at h
      cases h
    | error => rfl

/-- Nothing but the declarations is read. -/
theorem readConstant?_heading (m : Module) (id : ResultId) :
    m.heading.readConstant? id = m.readConstant? id := by
  have htyped (id : ResultId) : m.heading.typedConstant? id = m.typedConstant? id := by
    simp only [typedConstant?, toOption_typeOf_heading]
    rfl
  have hscalar (t : ValueType) : m.heading.readScalar? t = m.readScalar? t := by
    funext id
    simp only [readScalar?, htyped]
  have hvector (elem : ValueType) (count : Word) :
      m.heading.readVector? elem count = m.readVector? elem count := by
    funext id
    simp only [readVector?, readComposite?, htyped, hscalar]
  have hbits (t : ValueType) : m.heading.readBits? t id = m.readBits? t id := by
    cases t <;> simp only [readBits?, hvector, hscalar, readComposite?, htyped]
  simp only [readConstant?, htyped, hbits]

section

variable {m : Module}

theorem IdsDistinct.typedConstant?_eq (hm : m.IdsDistinct) {op : Opcode} {type id : ResultId}
    {operands : List Word} {t : ValueType} (h : m.Declared op type operands id)
    (hlayout : op.layout ≠ .none) (htype : m.Denotes type t) : m.typedConstant? id =
      some (t, { opcode := op, resultType := type, resultId := id, operands }) := by
  obtain ⟨decl, hdecl, ht⟩ := htype
  simp [typedConstant?, hm.global?_declared h hlayout, hdecl, ht, Except.toOption]

theorem readScalar?_eq {t : ValueType} {id : ResultId} {inst : Instruction} {bits : List Word}
    (h : m.typedConstant? id = some (t, inst)) (ht : t.same t = true)
    (hbits : scalarBits? t inst.opcode inst.operands = some bits) :
    m.readScalar? t id = some bits := by
  simp [readScalar?, h, ht, hbits]

/-- A composite is read if its constituents are. -/
theorem IdsDistinct.readComposite?_eq {α β : Type} (hm : m.IdsDistinct) {type id : ResultId}
    {parts : List ResultId} {t : ValueType} {count : Word} {read : ResultId → Option α}
    {values : List β} {g : β → α} (h : m.Declared .constantComposite type parts id)
    (htype : m.Denotes type t) (ht : t.same t = true) (hcount : values.length = count.toNat)
    (hparts : List.Forall₂ (fun v part => read part = some (g v)) values parts) :
    m.readComposite? t count read id = some (values.map g) := by
  have hlength : parts.length = count.toNat := hparts.length_eq ▸ hcount
  simp [readComposite?, hm.typedConstant?_eq h (by decide) htype, ht, hlength, mapM_eq_some hparts]

end

end Module

/-! ### What is made is read back -/

namespace Emit

variable {α β : Type} {m : Module}

/-- A step of compiling that only declares and does not fail, with what holds of its result in every
module that has its declarations. -/
def Settles (m : Module) (x : Emit α) (Q : α → Prop) : Prop :=
  ∀ s, ∃ a t, x.run s = .ok a t ∧
    s.builder.target.globals <+: t.builder.target.globals ∧
    (t.builder.target.globals <+: m.globals → Q a)

theorem settles_pure {a : α} {Q : α → Prop} (h : Q a) : Settles m (pure a) Q :=
  fun s => ⟨a, s, rfl, List.prefix_rfl, fun _ => h⟩

theorem Settles.bind {x : Emit α} {f : α → Emit β} {Q : α → Prop} {R : β → Prop}
    (hx : Settles m x Q) (hf : ∀ a, Settles m (f a) fun b => Q a → R b) :
    Settles m (x >>= f) R := by
  intro s
  obtain ⟨a, u, hrun, hpre, hQ⟩ := hx s
  obtain ⟨b, t, hrun', hpre', hR⟩ := hf a u
  refine ⟨b, t, ?_, hpre.trans hpre', fun ht => hR ht (hQ (hpre'.trans ht))⟩
  rw [EStateM.run_bind, hrun]
  exact hrun'

theorem Settles.imp {x : Emit α} {Q R : α → Prop} (hx : Settles m x Q) (h : ∀ a, Q a → R a) :
    Settles m x R := by
  intro s
  obtain ⟨a, t, hrun, hpre, hQ⟩ := hx s
  exact ⟨a, t, hrun, hpre, fun ht => h a (hQ ht)⟩

theorem Settles.mapM {f : α → Emit β} {P : α → β → Prop} (hf : ∀ a, Settles m (f a) (P a))
    (as : List α) : Settles m (as.mapM f) (List.Forall₂ P as) := by
  induction as with
  | nil => exact settles_pure .nil
  | cons a as ih =>
    rw [List.mapM_cons]
    apply (hf a).bind
    intro b
    apply ih.bind
    intro bs
    exact settles_pure fun hbs hb => .cons hb hbs

theorem settles_declare {x : Declare α} {Q : α → Prop} (hx : x.Settles m Q) :
    Settles m (declare x) Q := by
  intro s
  obtain ⟨-, hpre, hQ⟩ := hx s.builder.target
  exact ⟨_, _, run_declare x s, hpre, hQ⟩

theorem settles_typeId (hm : m.IdsDistinct) {t : ValueType} (ht : t.Concrete) :
    Settles m (typeId t) fun id => m.Denotes id t := by
  intro s
  obtain ⟨id, hid⟩ := Option.isSome_iff_exists.1 ((t.answers_declare s.builder.target).2 ht)
  obtain ⟨-, hpre, hdenotes⟩ := t.settles_declare hm s.builder.target
  refine ⟨id, { s with builder := s.builder.withTarget (t.declare.run s.builder.target).2 }, ?_,
    hpre, fun h => hdenotes h id hid⟩
  rw [typeId, EStateM.run_bind, run_declare, hid]
  rfl

end Emit

open Emit ShaderGraft.Module

variable {m : Module}

theorem Scalar.settles_constant (hm : m.IdsDistinct) (s : Scalar) (type : ResultId) (v : s.Value) :
    (s.constant type v).Settles m fun id => m.Denotes type s.type →
      ∃ inst, m.typedConstant? id = some (s.type, inst) ∧
        scalarBits? s.type inst.opcode inst.operands = some (s.bits v) := by
  have hmade {op : Opcode} {operands : List Word} (hlayout : op.layout ≠ .none)
      (hbits : scalarBits? s.type op operands = some (s.bits v)) :
      (Declare.global op type operands).Settles m fun id => m.Denotes type s.type →
        ∃ inst, m.typedConstant? id = some (s.type, inst) ∧
          scalarBits? s.type inst.opcode inst.operands = some (s.bits v) :=
    (Declare.settles_global op type operands).imp fun id h htype =>
      ⟨_, hm.typedConstant?_eq h hlayout htype, hbits⟩
  cases s with
  | bool =>
    cases v
    · exact hmade (by decide) rfl
    · exact hmade (by decide) rfl
  | _ => exact hmade (by decide) rfl

theorem Scalar.settles_emit (hm : m.IdsDistinct) (s : Scalar) (v : s.Value) :
    Settles m (s.emit v) fun id => ∃ inst, m.typedConstant? id = some (s.type, inst) ∧
      scalarBits? s.type inst.opcode inst.operands = some (s.bits v) := by
  apply (settles_typeId hm s.concrete_type).bind
  intro type
  exact settles_declare (s.settles_constant hm type v)

theorem Scalar.readScalar?_settled {s : Scalar} {v : s.Value} {id : ResultId}
    (h : ∃ inst, m.typedConstant? id = some (s.type, inst) ∧
      scalarBits? s.type inst.opcode inst.operands = some (s.bits v)) :
    m.readScalar? s.type id = some (s.bits v) := by
  obtain ⟨inst, hinst, hbits⟩ := h
  exact readScalar?_eq hinst (ValueType.same_self s.concrete_type.noMissing) hbits

theorem Scalar.readBits?_type (s : Scalar) : m.readBits? s.type = m.readScalar? s.type := by
  cases s <;> rfl

theorem toNat_toUInt32 {n : Nat} (hn : n < UInt32.size) : n.toUInt32.toNat = n :=
  UInt32.toNat_ofNat_of_lt' hn

theorem Scalar.settles_emitVector (hm : m.IdsDistinct) (s : Scalar) {vs : List s.Value}
    (hlength : vs.length < UInt32.size) : Settles m (s.emitVector vs) fun id =>
      ∃ inst, m.typedConstant? id = some (.vector s.type vs.length.toUInt32, inst) ∧
        m.readVector? s.type vs.length.toUInt32 id = some (vs.map s.bits) := by
  have hconcrete : (ValueType.vector s.type vs.length.toUInt32).Concrete :=
    ValueType.concrete_vector.2 s.concrete_type
  apply (settles_typeId hm hconcrete).bind
  intro type
  apply (Settles.mapM (s.settles_emit hm) vs).bind
  intro parts
  refine (settles_declare (Declare.settles_global _ _ _)).imp fun id h hparts htype => ?_
  refine ⟨_, hm.typedConstant?_eq h (by decide) htype, ?_⟩
  refine hm.readComposite?_eq h htype (ValueType.same_self hconcrete.noMissing)
    (toNat_toUInt32 hlength).symm ?_
  exact hparts.imp fun _ _ => readScalar?_settled

/-- The elements of a matrix row by row, one after the other. -/
theorem flatMap_rows (rows columns : Nat) {elements : List Word}
    (h : elements.length = rows * columns) :
    ((List.range rows).flatMap fun r => (List.range columns).map fun c =>
      elements.getD (r * columns + c) 0) = elements := by
  induction rows generalizing elements with
  | zero =>
    rw [Nat.zero_mul] at h
    rw [List.length_eq_zero_iff.1 h]
    rfl
  | succ rows ih =>
    -- the first row, and then the other rows of what is left
    have hdrop : (elements.drop columns).length = rows * columns := by
      rw [List.length_drop, h, Nat.succ_mul, Nat.add_sub_cancel]
    have hrest := ih hdrop
    have hfirst : ((List.range columns).map fun c => elements.getD c 0) =
        elements.take columns := by
      have hle : columns ≤ elements.length := by
        rw [h, Nat.succ_mul]
        exact Nat.le_add_left ..
      apply List.ext_getElem
      · simp [hle]
      · intro i hi _
        have hi : i < columns := by simpa using hi
        simp [Nat.lt_of_lt_of_le hi hle]
    rw [List.range_succ_eq_map, List.flatMap_cons, List.flatMap_map]
    simp only [Nat.zero_mul, Nat.zero_add, hfirst]
    have hshift (r c : Nat) : elements.getD ((r + 1) * columns + c) 0 =
        (elements.drop columns).getD (r * columns + c) 0 := by
      rw [List.getD_eq_getElem?_getD, List.getD_eq_getElem?_getD, List.getElem?_drop]
      congr 2
      rw [Nat.succ_mul]
      omega
    simp only [hshift, hrest]
    exact List.take_append_drop ..

theorem rowByRow_columns (n : Nat) {elements : List Word} (h : elements.length = n * n) :
    rowByRow n ((List.range n).map fun c => (List.range n).map fun r =>
      [elements.getD (r * n + c) 0]) = elements := by
  have hrow (r : Nat) (hr : r ∈ List.range n) :
      (((List.range n).map fun c => (List.range n).map fun r =>
        [elements.getD (r * n + c) 0]).flatMap fun column => column.getD r []) =
      (List.range n).map fun c => elements.getD (r * n + c) 0 := by
    have hget (c : Nat) : ((List.range n).map fun r =>
        [elements.getD (r * n + c) 0]).getD r [] = [elements.getD (r * n + c) 0] := by
      simp [List.mem_range.1 hr]
    simp only [List.flatMap_map, hget]
    exact List.map_eq_flatMap.symm
  rw [rowByRow, List.flatMap_congr hrow]
  exact flatMap_rows n n h

theorem settles_emitMatrix (hm : m.IdsDistinct) {n : Nat} (hn : n < UInt32.size)
    {elements : List Word} (hlength : elements.length = n * n) :
    Settles m (emitMatrix n elements) fun id =>
      ∃ inst, m.typedConstant? id = some (.matrix .f32 n.toUInt32 n.toUInt32, inst) ∧
        m.readBits? (.matrix .f32 n.toUInt32 n.toUInt32) id = some elements := by
  have hfloat : ValueType.f32.Concrete := Scalar.concrete_type .float32
  have hvector : (ValueType.vector .f32 n.toUInt32).Concrete := ValueType.concrete_vector.2 hfloat
  have hmatrix : (ValueType.matrix .f32 n.toUInt32 n.toUInt32).Concrete :=
    ValueType.concrete_matrix.2 hfloat
  have hcount : (List.range n).length = n.toUInt32.toNat := by
    rw [List.length_range, toNat_toUInt32 hn]
  apply (settles_typeId hm hmatrix).bind
  intro type
  apply (settles_typeId hm hvector).bind
  intro columnType
  apply (settles_typeId hm hfloat).bind
  intro elementType
  -- a column is read if the types of the column and its elements are declared
  refine Settles.bind (Q := List.Forall₂ (fun c column =>
      m.Denotes columnType (.vector .f32 n.toUInt32) → m.Denotes elementType .f32 →
        m.readVector? .f32 n.toUInt32 column =
          some ((List.range n).map fun r => [elements.getD (r * n + c) 0])) (List.range n))
    (Settles.mapM (fun c => ?_) _) fun columns => ?_
  · apply (Settles.mapM (fun bits =>
      settles_declare (Scalar.float32.settles_constant hm elementType bits)) _).bind
    intro parts
    refine (settles_declare (Declare.settles_global _ _ _)).imp
      fun id h hparts hcolumn helement => ?_
    refine hm.readComposite?_eq h hcolumn (ValueType.same_self hvector.noMissing) hcount ?_
    rw [List.forall₂_map_left_iff] at hparts
    exact hparts.imp fun _ _ h => Scalar.readScalar?_settled (h helement)
  · refine (settles_declare (Declare.settles_global _ _ _)).imp
      fun id h hcolumns helement hcolumn htype => ?_
    refine ⟨_, hm.typedConstant?_eq h (by decide) htype, ?_⟩
    have hread := hm.readComposite?_eq h htype (ValueType.same_self hmatrix.noMissing) hcount
      (hcolumns.imp fun _ _ h => h hcolumn helement)
    rw [readBits?, hread, Option.map_some, toNat_toUInt32 hn, rowByRow_columns n hlength]

/-- The constant that is made is read as what it was made for. -/
theorem Making.settles (hm : m.IdsDistinct) {t : ValueType} {bits : List Word} {x : Emit ResultId}
    (h : Making t bits x) : Settles m x fun id => m.readConstant? id = some (t, bits) := by
  have hread {id : ResultId} {inst : Instruction} (hinst : m.typedConstant? id = some (t, inst))
      (hbits : m.readBits? t id = some bits) : m.readConstant? id = some (t, bits) := by
    simp [readConstant?, hinst, hbits]
  cases h with
  | scalar s v ht hbits =>
    subst ht hbits
    refine (s.settles_emit hm v).imp fun id hid => ?_
    obtain ⟨inst, hinst, hbits⟩ := hid
    refine hread hinst ?_
    rw [s.readBits?_type]
    exact Scalar.readScalar?_settled ⟨inst, hinst, hbits⟩
  | vector s vs hlength ht hbits =>
    subst ht hbits
    refine (s.settles_emitVector hm hlength).imp fun id hid => ?_
    obtain ⟨inst, hinst, hvector⟩ := hid
    refine hread hinst ?_
    rw [readBits?, hvector, Option.map_some, List.flatMap_def]
  | matrix n hn ht hlength =>
    subst ht
    refine (settles_emitMatrix hm hn hlength).imp fun id hid => ?_
    obtain ⟨inst, hinst, hbits⟩ := hid
    exact hread hinst hbits

/-- What a constant is read as at the end of a run in which it was made. -/
theorem Making.readConstant?_eq {t : ValueType} {bits : List Word} {x : Emit ResultId}
    (h : Making t bits x) {s u : Serializer} {id : ResultId} (hrun : x.run s = .ok id u)
    (hm : m.heading.IdsDistinct) (hpre : u.builder.target.globals <+: m.globals) :
    m.readConstant? id = some (t, bits) := by
  obtain ⟨id', u', hrun', -, hread⟩ := h.settles hm s
  cases hrun.symm.trans hrun'
  rw [← readConstant?_heading]
  exact hread hpre

theorem Task.after_eq {task : Task} {s u : Serializer} {id : ResultId}
    (h : task.run.run s = .ok id u) : task.after s = u.builder.target := by
  rw [after, endState, h]

/-- **Constants stand for their values, and for nothing else.** At any point of a run, the constant
of a value of a supported type is made and is read as the type and the bits of the value, which no
other value of the type has. A constant that is made later has the same id exactly if it has the
same type and the same bits. -/
theorem HostType.emit_canonical {n : Nat} {s : Serializer} {type : HostType} {t : ValueType}
    (hm : m.IdWellFormed) (hruns : Runs Evolves m n s.builder.target)
    (ht : type.valueType = .ok t) (v : type.Value)
    (hlimit : m.header.bound.toNat + (n + (Task.constant type v).idsTaken s) ≤ UInt32.size) :
    ∃ id u, (type.emit v).run s = .ok id u ∧
      u.builder.target.readConstant? id = some (t, type.bits v) ∧
      (∀ w, type.bits w = type.bits v → w = v) ∧
      ∀ (k : Nat) (s' : Serializer) (type' : HostType) (t' : ValueType) (v' : type'.Value),
        Runs Evolves u.builder.target k s'.builder.target → type'.valueType = .ok t' →
        m.header.bound.toNat + (n + (Task.constant type v).idsTaken s +
          (k + (Task.constant type' v').idsTaken s')) ≤ UInt32.size →
        ∃ id' u', (type'.emit v').run s' = .ok id' u' ∧
          (id = id' ↔ t.same t' = true ∧ type.bits v = type'.bits v') := by
  have hmaking := making ht v
  have hchanges := hruns.tail (.compile (.task (.constant type v) s))
  have hdistinct :=
    (hchanges.heading.idsBelow hm.idsBelow.heading hlimit fun _ h => h).toIdsDistinct
  obtain ⟨id, u, hrun, -, -⟩ := hmaking.settles hdistinct s
  have hafter : (Task.constant type v).after s = u.builder.target := Task.after_eq hrun
  rw [hafter] at hchanges hdistinct
  refine ⟨id, u, hrun, hmaking.readConstant?_eq hrun hdistinct List.prefix_rfl,
    fun w => bits_injective ht w v, fun k s' type' t' v' hruns' ht' hlimit' => ?_⟩
  have hmaking' := making ht' v'
  have hrest := hruns'.tail (.compile (.task (.constant type' v') s'))
  have hdistinct' := ((hchanges.heading.trans hrest.heading).idsBelow hm.idsBelow.heading hlimit'
    fun _ h => h).toIdsDistinct
  obtain ⟨id', u', hrun', -, -⟩ := hmaking'.settles hdistinct' s'
  have hafter' : (Task.constant type' v').after s' = u'.builder.target := Task.after_eq hrun'
  rw [hafter'] at hrest hdistinct'
  refine ⟨id', u', hrun', fun heq => ?_, fun ⟨hsame, hbits⟩ => ?_⟩
  · -- both are read in the last module
    subst heq
    have hread := hmaking.readConstant?_eq hrun hdistinct' hrest.widens.globals
    have hread' := hmaking'.readConstant?_eq hrun' hdistinct' List.prefix_rfl
    injection Option.some.inj (hread.symm.trans hread') with htypes hbits
    subst htypes
    exact ⟨HostType.same_self ht, hbits⟩
  · -- both are made by the same step, which finds what it declared
    rw [← ValueType.eq_of_same hsame, ← hbits] at hmaking'
    rw [← hmaking.unique hmaking'] at hrun'
    obtain ⟨_, rfl, -, hagain⟩ := type.recalls_emit v s id u hrun
    cases (hagain s' hruns'.widens).symm.trans hrun'
    rfl

/-- The module with the matrix of the rows `1 2` and `3 4`. -/
def Module.builtMatrix : Module := { Module.built with
  header.bound := 26
  globals := Module.built.globals ++ [
    { opcode := .typeVector, resultId := 17, operands := [1, 2] },
    { opcode := .typeMatrix, resultId := 18, operands := [17, 2] },
    { opcode := .constant, resultType := 1, resultId := 19, operands := [1] },
    { opcode := .constant, resultType := 1, resultId := 20, operands := [3] },
    { opcode := .constantComposite, resultType := 17, resultId := 21, operands := [19, 20] },
    { opcode := .constant, resultType := 1, resultId := 22, operands := [2] },
    { opcode := .constant, resultType := 1, resultId := 23, operands := [4] },
    { opcode := .constantComposite, resultType := 17, resultId := 24, operands := [22, 23] },
    { opcode := .constantComposite, resultType := 18, resultId := 25, operands := [21, 24] }] }

theorem runs_builtMatrix : Runs Evolves .builtMatrix 4 Module.builtMatrix.withSuccessor := by
  let inj : Injector := { Injector.built with target := .builtMatrix }
  have hinject : (inj.inject Tree.successor ()).2 =
      .ok (inj.commit Module.builtMatrix.withSuccessor) :=
    Injector.inject_eq_commit (by decide +kernel)
  have hindex : inj.target.functionWithId? inj.functionId = some 0 := by decide +kernel
  have hstep : Evolves _ inj.target (inj.commit Module.builtMatrix.withSuccessor).target :=
    .compile (.inject hinject hindex)
  have htaken : inj.target.idsTaken (inj.commit Module.builtMatrix.withSuccessor).target 0 = 4 := by
    decide +kernel
  have hruns := Runs.tail .refl hstep
  rwa [htaken, Nat.zero_add] at hruns

/-- A matrix, and after an injection the same matrix and its transpose. -/
theorem HostType.emit_canonical_transposed :
    ∃ id u u₂ id' u', (mat2.emit #v[1, 2, 3, 4]).run { builder := { target := .built } } =
        .ok id u ∧
      u.builder.target.readConstant? id = some (.matrix .f32 2 2, [1, 2, 3, 4]) ∧
      Runs Evolves u.builder.target 4 Module.builtMatrix.withSuccessor ∧
      (mat2.emit #v[1, 2, 3, 4]).run { builder := { target := Module.builtMatrix.withSuccessor } } =
        .ok id u₂ ∧
      (mat2.emit #v[1, 3, 2, 4]).run { builder := { target := Module.builtMatrix.withSuccessor } } =
        .ok id' u' ∧ id ≠ id' := by
  have hm : Module.built.IdWellFormed := by decide +kernel
  have ht : mat2.valueType = .ok (.matrix .f32 2 2) := rfl
  obtain ⟨id, u, hrun, hread, -, hlater⟩ :=
    emit_canonical (s := { builder := { target := .built } }) hm .refl ht #v[1, 2, 3, 4]
      (by decide +kernel)
  have htarget : u.builder.target = .builtMatrix := by
    have htask : (Task.constant .mat2 #v[1, 2, 3, 4]).run.run { builder := { target := .built } } =
        .ok id u := hrun
    rw [← Task.after_eq htask]
    decide +kernel
  have hruns : Runs Evolves u.builder.target 4 Module.builtMatrix.withSuccessor := by
    rw [htarget]
    exact runs_builtMatrix
  obtain ⟨id₂, u₂, hrun₂, hsame⟩ := hlater 4
    { builder := { target := Module.builtMatrix.withSuccessor } } .mat2 _ #v[1, 2, 3, 4] hruns ht
    (by decide +kernel)
  obtain ⟨id', u', hrun', hother⟩ := hlater 4
    { builder := { target := Module.builtMatrix.withSuccessor } } .mat2 _ #v[1, 3, 2, 4] hruns ht
    (by decide +kernel)
  rw [← hsame.2 ⟨rfl, rfl⟩] at hrun₂
  refine ⟨id, u, u₂, id', u', hrun, hread, hruns, hrun₂, hrun', fun heq => ?_⟩
  exact absurd (hother.1 heq).2 (by decide)

end ShaderGraft
