import ShaderGraft.Proofs.TypeIdentity

/-!
# The names of types

The name of a type says which type it is (`ValueType.text_unambiguous`), as long as no constant is
part of it. Names are put together without escapes, so this takes an argument for a name with
anything behind it: it is known where the name ends, unless a digit follows that could belong to its
last number (`ValueType.SelfDelimiting`). Inside of a name none does.
-/

namespace ShaderGraft

/-! ### Numbers with a text behind them -/

namespace Text

/-- Whether a text does not go on with a digit. -/
def NotDigit (cs : List Char) : Prop :=
  ∀ c ∈ cs.head?, c.isDigit = false

@[simp] theorem notDigit_cons {c : Char} {cs : List Char} :
    NotDigit (c :: cs) ↔ c.isDigit = false := by
  simp [NotDigit]

theorem digits_append_inj {m n : Nat} {r r' : List Char} (hr : NotDigit r) (hr' : NotDigit r')
    (h : Nat.toDigits 10 m ++ r = Nat.toDigits 10 n ++ r') : m = n ∧ r = r' := by
  have hdigits {k : Nat} {cs : List Char} (hcs : NotDigit cs) :
      (Nat.toDigits 10 k ++ cs).takeWhile Char.isDigit = Nat.toDigits 10 k := by
    rw [List.takeWhile_append_of_pos fun c hc =>
      Nat.isDigit_of_mem_toDigits (by decide) (by decide) hc]
    cases cs with
    | nil => simp
    | cons c cs => simp [notDigit_cons.1 hcs]
  have heq : Nat.toDigits 10 m = Nat.toDigits 10 n := by rw [← hdigits hr, h, hdigits hr']
  refine ⟨?_, List.append_cancel_left (heq ▸ h)⟩
  calc m
    _ = Nat.ofDigitChars 10 (Nat.toDigits 10 m) 0 := Nat.ofDigitChars_ten_toDigits.symm
    _ = Nat.ofDigitChars 10 (Nat.toDigits 10 n) 0 := by rw [heq]
    _ = n := Nat.ofDigitChars_ten_toDigits

/-- The digits of a number end where the first other character follows. -/
theorem word_append_inj {v w : Word} {r r' : List Char} (hr : NotDigit r) (hr' : NotDigit r')
    (h : (toString v).toList ++ r = (toString w).toList ++ r') : v = w ∧ r = r' := by
  have hdigits (w : Word) : (toString w).toList = Nat.toDigits 10 w.toNat := Nat.toList_repr
  rw [hdigits, hdigits] at h
  obtain ⟨hnat, hrest⟩ := digits_append_inj hr hr' h
  exact ⟨UInt32.toNat_inj.1 hnat, hrest⟩

end Text

namespace ValueType

open Text

/-! ### How names start -/

/-- What names of types can start with. -/
inductive Kind where
  | missing
  | void
  | bool
  | int (signed : Bool)
  | float
  | vector
  | matrix
  | struct
  | array
  | literal
deriving DecidableEq

namespace Kind

def all : List Kind := [
  .missing, .void, .bool, .int true, .int false, .float, .vector, .matrix, .struct, .array,
  .literal]

theorem mem_all (k : Kind) : k ∈ all := by
  cases k with
  | int signed => cases signed <;> decide
  | _ => decide

/-- The start of a name, up to its first number, its first field or its end. -/
def opening : Kind → List Char
  | .missing => ['<', 'n', 'i', 'l', '>']
  | .void => ['v', 'o', 'i', 'd']
  | .bool => ['b', 'o', 'o', 'l']
  | .int signed => [if signed then 'i' else 'u']
  | .float => ['f']
  | .vector => ['v', 'e', 'c']
  | .matrix => ['m', 'a', 't']
  | .struct => ['s', 't', 'r', 'u', 'c', 't', '\x7b']
  | .array => ['[']
  | .literal => ['l', 'i', 't', 'e', 'r', 'a', 'l', ' ']

/-- No start of a name is the beginning of another one. -/
theorem opening_append_inj {j k : Kind} {cs ds : List Char}
    (h : j.opening ++ cs = k.opening ++ ds) : j = k ∧ cs = ds := by
  have hall : ∀ j ∈ all, ∀ k ∈ all, j.opening <+: k.opening → j = k := by decide
  have hkind : j = k := by
    rcases List.prefix_or_prefix_of_prefix ⟨cs, h⟩ ⟨ds, rfl⟩ with hjk | hkj
    · exact hall j (mem_all j) k (mem_all k) hjk
    · exact (hall k (mem_all k) j (mem_all j) hkj).symm
  subst hkind
  exact ⟨rfl, List.append_cancel_left h⟩

end Kind

/-- What the name of a type starts with. -/
def kind : ValueType → Kind
  | .missing => .missing
  | .void => .void
  | .bool => .bool
  | .int signed _ => .int signed
  | .float _ => .float
  | .vector .. => .vector
  | .matrix .. => .matrix
  | .struct _ => .struct
  | .array .. => .array
  | .literalFloat32 _ | .literalFloat64 _ | .literalInt32 _ | .literalInt64 _ => .literal

/-- The rest of the name of a type. -/
def remainder : ValueType → List Char
  | .missing | .void | .bool => []
  | .int _ width | .float width => (toString width).toList
  | .vector elem count => (toString count).toList ++ '<' :: (elem.text.toList ++ ['>'])
  | .matrix elem columns rows =>
    (toString columns).toList ++ 'x' ::
      ((toString rows).toList ++ '<' :: (elem.text.toList ++ ['>']))
  | .struct fields => (", ".intercalate (textAll fields)).toList ++ ['\x7d']
  | .array elem count => (toString count).toList ++ ']' :: elem.text.toList
  | t => t.text.toList.drop 8

theorem toList_text (t : ValueType) : t.text.toList = t.kind.opening ++ t.remainder := by
  cases t with
  | int signed width => cases signed <;> simp [text, kind, Kind.opening, remainder]
  | _ => simp [text, kind, Kind.opening, remainder]

/-- Types whose names start alike are of one kind, and the rest of their names is the same. -/
theorem kind_eq_of_text {a b : ValueType} {r r' : List Char}
    (h : a.text.toList ++ r = b.text.toList ++ r') :
    a.kind = b.kind ∧ a.remainder ++ r = b.remainder ++ r' := by
  rw [toList_text, toList_text, List.append_assoc, List.append_assoc] at h
  exact Kind.opening_append_inj h

/-! ### The names of fields -/

/-- A name is not empty, and does not start like the end of a struct. -/
theorem head_text (t : ValueType) : ∃ c cs, t.text.toList = c :: cs ∧ c ≠ '\x7d' := by
  have hopening (k : Kind) : ∃ c cs, k.opening = c :: cs ∧ c ≠ '\x7d' := by
    cases k with
    | int signed => cases signed <;> exact ⟨_, _, rfl, by decide⟩
    | _ => exact ⟨_, _, rfl, by decide⟩
  obtain ⟨c, cs, hcs, hc⟩ := hopening t.kind
  exact ⟨c, cs ++ t.remainder, by rw [toList_text, hcs, List.cons_append], hc⟩

/-- The names of fields, each with what separates it from the one before. -/
def fieldsText (ts : List ValueType) : List Char :=
  ts.flatMap fun t => ',' :: ' ' :: t.text.toList

theorem toList_intercalate_textAll (t : ValueType) (ts : List ValueType) :
    (", ".intercalate (textAll (t :: ts))).toList = t.text.toList ++ fieldsText ts := by
  have hcomma : ", ".toList = [',', ' '] := by simp
  rw [String.toList_intercalate, hcomma]
  induction ts generalizing t with
  | nil => simp [textAll, fieldsText]
  | cons u us ih =>
    simp only [textAll, List.map_cons] at ih ⊢
    rw [List.intercalate_cons_cons, ih]
    simp [fieldsText]

theorem notDigit_fieldsText (ts : List ValueType) (r : List Char) :
    NotDigit (fieldsText ts ++ '\x7d' :: r) := by
  cases ts <;> simp [fieldsText]

/-- A struct without fields is told from one with fields by what comes first. -/
theorem fieldsText_eq_of_intercalate {as bs : List ValueType} {r r' : List Char}
    (h : (", ".intercalate (textAll as)).toList ++ '\x7d' :: r =
      (", ".intercalate (textAll bs)).toList ++ '\x7d' :: r') :
    fieldsText as ++ '\x7d' :: r = fieldsText bs ++ '\x7d' :: r' := by
  rcases as with _ | ⟨a, as⟩ <;> rcases bs with _ | ⟨b, bs⟩
  · exact h
  · obtain ⟨c, cs, htext, hc⟩ := head_text b
    rw [toList_intercalate_textAll, htext] at h
    exact absurd (List.cons.inj h).1.symm hc
  · obtain ⟨c, cs, htext, hc⟩ := head_text a
    rw [toList_intercalate_textAll, htext] at h
    exact absurd (List.cons.inj h).1 hc
  · rw [toList_intercalate_textAll, toList_intercalate_textAll] at h
    simpa [fieldsText] using h

/-! ### Names with a text behind them -/

/-- Whether the name of a type tells the type and where the name ends, whatever else than a digit
stands behind it. -/
def SelfDelimiting (a : ValueType) : Prop :=
  ∀ (b : ValueType) (r r' : List Char), NotDigit r → NotDigit r' →
    a.text.toList ++ r = b.text.toList ++ r' → a = b ∧ r = r'

/-- The same of the fields of a struct, up to its end. -/
def SelfDelimitingAll (as : List ValueType) : Prop :=
  ∀ (bs : List ValueType) (r r' : List Char),
    fieldsText as ++ '\x7d' :: r = fieldsText bs ++ '\x7d' :: r' → as = bs ∧ r = r'

/-- These have no numbers and no parts, so their kind is all there is to tell. -/
theorem selfDelimiting_of_bare {a : ValueType} (ha : a = missing ∨ a = void ∨ a = bool) :
    a.SelfDelimiting := by
  intro b r r' _ _ h
  obtain ⟨hkind, hrest⟩ := kind_eq_of_text h
  have hsame : a = b := by
    rcases ha with rfl | rfl | rfl <;> cases b <;> simp [kind] at hkind ⊢
  subst hsame
  exact ⟨rfl, List.append_cancel_left hrest⟩

theorem selfDelimiting_int (signed : Bool) (width : Word) : (int signed width).SelfDelimiting := by
  intro b r r' hr hr' h
  obtain ⟨hkind, hrest⟩ := kind_eq_of_text h
  cases b with
  | int signed' width' =>
    cases hkind
    obtain ⟨rfl, rfl⟩ := word_append_inj hr hr' hrest
    exact ⟨rfl, rfl⟩
  | _ => cases hkind

theorem selfDelimiting_float (width : Word) : (float width).SelfDelimiting := by
  intro b r r' hr hr' h
  obtain ⟨hkind, hrest⟩ := kind_eq_of_text h
  cases b with
  | float width' =>
    obtain ⟨rfl, rfl⟩ := word_append_inj hr hr' hrest
    exact ⟨rfl, rfl⟩
  | _ => cases hkind

/-- A part in angle brackets is told from what stands behind the bracket. -/
theorem SelfDelimiting.bracketed {a b : ValueType} (ha : a.SelfDelimiting) {r r' : List Char}
    (h : '<' :: (a.text.toList ++ '>' :: r) = '<' :: (b.text.toList ++ '>' :: r')) :
    a = b ∧ r = r' := by
  obtain ⟨hpart, hend⟩ := ha b _ _ (by simp) (by simp) (List.cons.inj h).2
  exact ⟨hpart, (List.cons.inj hend).2⟩

theorem SelfDelimiting.vector {elem : ValueType} (helem : elem.SelfDelimiting) (count : Word) :
    (vector elem count).SelfDelimiting := by
  intro b r r' _ _ h
  obtain ⟨hkind, hrest⟩ := kind_eq_of_text h
  cases b with
  | vector elem' count' =>
    simp only [remainder, List.append_assoc, List.cons_append, List.nil_append] at hrest
    obtain ⟨rfl, hpart⟩ := word_append_inj (by simp) (by simp) hrest
    obtain ⟨rfl, rfl⟩ := helem.bracketed hpart
    exact ⟨rfl, rfl⟩
  | _ => cases hkind

theorem SelfDelimiting.matrix {elem : ValueType} (helem : elem.SelfDelimiting)
    (columns rows : Word) : (matrix elem columns rows).SelfDelimiting := by
  intro b r r' _ _ h
  obtain ⟨hkind, hrest⟩ := kind_eq_of_text h
  cases b with
  | matrix elem' columns' rows' =>
    simp only [remainder, List.append_assoc, List.cons_append, List.nil_append] at hrest
    obtain ⟨rfl, hrows⟩ := word_append_inj (by simp) (by simp) hrest
    obtain ⟨rfl, hpart⟩ := word_append_inj (by simp) (by simp) (List.cons.inj hrows).2
    obtain ⟨rfl, rfl⟩ := helem.bracketed hpart
    exact ⟨rfl, rfl⟩
  | _ => cases hkind

/-- The name of an array ends with that of its elements, so a digit may not follow either. -/
theorem SelfDelimiting.array {elem : ValueType} (helem : elem.SelfDelimiting) (count : Word) :
    (array elem count).SelfDelimiting := by
  intro b r r' hr hr' h
  obtain ⟨hkind, hrest⟩ := kind_eq_of_text h
  cases b with
  | array elem' count' =>
    simp only [remainder, List.append_assoc, List.cons_append] at hrest
    obtain ⟨rfl, hpart⟩ := word_append_inj (by simp) (by simp) hrest
    obtain ⟨rfl, rfl⟩ := helem elem' r r' hr hr' (List.cons.inj hpart).2
    exact ⟨rfl, rfl⟩
  | _ => cases hkind

theorem SelfDelimitingAll.struct {fields : List ValueType} (hfields : SelfDelimitingAll fields) :
    (struct fields).SelfDelimiting := by
  intro b r r' _ _ h
  obtain ⟨hkind, hrest⟩ := kind_eq_of_text h
  cases b with
  | struct fields' =>
    simp only [remainder, List.append_assoc, List.cons_append, List.nil_append] at hrest
    obtain ⟨rfl, rfl⟩ := hfields fields' r r' (fieldsText_eq_of_intercalate hrest)
    exact ⟨rfl, rfl⟩
  | _ => cases hkind

theorem SelfDelimitingAll.nil : SelfDelimitingAll [] := by
  intro bs r r' h
  cases bs with
  | nil => exact ⟨rfl, (List.cons.inj h).2⟩
  | cons b bs => cases (List.cons.inj h).1

theorem SelfDelimitingAll.cons {a : ValueType} {as : List ValueType} (ha : a.SelfDelimiting)
    (has : SelfDelimitingAll as) : SelfDelimitingAll (a :: as) := by
  intro bs r r' h
  cases bs with
  | nil => cases (List.cons.inj h).1
  | cons b bs =>
    have hfirst : a.text.toList ++ (fieldsText as ++ '\x7d' :: r) =
        b.text.toList ++ (fieldsText bs ++ '\x7d' :: r') := by simpa [fieldsText] using h
    obtain ⟨rfl, hrest⟩ :=
      ha b _ _ (notDigit_fieldsText as r) (notDigit_fieldsText bs r') hfirst
    obtain ⟨rfl, rfl⟩ := has bs r r' hrest
    exact ⟨rfl, rfl⟩

mutual

theorem selfDelimiting : (a : ValueType) → (∀ p ∈ a.parts, p.isLiteral = false) →
    a.SelfDelimiting
  | .missing, _ => selfDelimiting_of_bare (.inl rfl)
  | .void, _ => selfDelimiting_of_bare (.inr (.inl rfl))
  | .bool, _ => selfDelimiting_of_bare (.inr (.inr rfl))
  | .int signed width, _ => selfDelimiting_int signed width
  | .float width, _ => selfDelimiting_float width
  | .vector elem count, h => (selfDelimiting elem (List.forall_mem_cons.1 h).2).vector count
  | .matrix elem columns rows, h =>
    (selfDelimiting elem (List.forall_mem_cons.1 h).2).matrix columns rows
  | .struct fields, h => (selfDelimitingAll fields (List.forall_mem_cons.1 h).2).struct
  | .array elem count, h => (selfDelimiting elem (List.forall_mem_cons.1 h).2).array count
  | .literalFloat32 _, h | .literalFloat64 _, h | .literalInt32 _, h | .literalInt64 _, h => by
    simp [parts, isLiteral] at h

theorem selfDelimitingAll : (as : List ValueType) → (∀ p ∈ partsAll as, p.isLiteral = false) →
    SelfDelimitingAll as
  | [], _ => .nil
  | a :: as, h =>
    .cons (selfDelimiting a (List.forall_mem_append.1 h).1)
      (selfDelimitingAll as (List.forall_mem_append.1 h).2)

end

/-- **The name of a type says which type it is.** A type without constants in it, with or without
missing parts, shares its name with no other type. -/
theorem text_unambiguous {a b : ValueType} (ha : ∀ p ∈ a.parts, p.isLiteral = false) :
    a.text = b.text ↔ a = b := by
  constructor
  · intro h
    have hend : NotDigit [] := by simp [NotDigit]
    exact (selfDelimiting a ha b [] [] hend hend (by rw [h])).1
  · exact congrArg text

theorem text_unambiguous_struct :
    let t : ValueType := .struct [.array (.vector .f32 2) 3, .missing]
    (∀ p ∈ t.parts, p.isLiteral = false) ∧ t.text = "struct\x7b[3]vec2<f32>, <nil>\x7d" ∧
      ∀ b : ValueType, b.text = "struct\x7b[3]vec2<f32>, <nil>\x7d" → b = t := by
  intro t
  have hliteral : ∀ p ∈ t.parts, p.isLiteral = false := by simp [t, parts, partsAll, isLiteral]
  have htext : t.text = "struct\x7b[3]vec2<f32>, <nil>\x7d" := by decide +kernel
  exact ⟨hliteral, htext, fun b hb => ((text_unambiguous hliteral).1 (htext.trans hb.symm)).symm⟩

-- Constants are no part of it: all that are not a number have one name.
example : (literalFloat32 0x7FC00000).text = (literalFloat32 0x7FC00001).text := by decide +kernel

end ValueType

end ShaderGraft
