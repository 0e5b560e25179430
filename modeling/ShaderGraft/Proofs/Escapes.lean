import ShaderGraft.Proofs.Glyphs
import ShaderGraft.Text.Json
import ShaderGraft.Text.Quoted

/-!
# Reading quoted texts

What is written in double quotes can be read again (`Text.readQuoted?`), and whatever comes after
the closing quote is left over, so nothing in a name can be taken for the text around it. Reading
gives back any bytes that were quoted (`Text.readQuoted?_quote`). A JSON string has only characters,
so it gives the bytes with U+FFFD for each stray one (`Text.Json.readQuoted?_quoted`), and these are
the bytes themselves exactly for encoded texts (`Text.utf8_shown_iff`).
-/

namespace ShaderGraft.Text

/-! ### A reader -/

/-- The number that hexadecimal digits stand for. -/
def readHex? (digits : List Char) : Option Nat :=
  digits.foldlM (fun n d => (hexValue? d).map (16 * n + ·)) 0

/-- The byte that a letter after a backslash stands for. -/
def letterByte? : Char → Option UInt8
  | 'a' => some 7
  | 'b' => some 8
  | 't' => some 9
  | 'n' => some 10
  | 'v' => some 11
  | 'f' => some 12
  | 'r' => some 13
  | '"' => some 34
  | '\\' => some 92
  | _ => none

/-- The bytes that an escape stands for, and the number of characters that it takes after its
backslash. -/
def escaped? : List Char → Option (Bytes × Nat)
  | [] => none
  | 'x' :: rest => (readHex? (rest.take 2)).map fun n => ([.ofNat n], 3)
  | 'u' :: rest => (readHex? (rest.take 4)).map fun n => (String.utf8EncodeChar (.ofNat n), 5)
  | 'U' :: rest => (readHex? (rest.take 8)).map fun n => (String.utf8EncodeChar (.ofNat n), 9)
  | c :: _ => (letterByte? c).map fun b => ([b], 1)

/-- The bytes up to the closing quote of a text whose first `skip` characters are already accounted
for, and what comes after the quote. -/
def closedFrom? : (skip : Nat) → List Char → Option (Bytes × List Char)
  | _, [] => none
  | skip + 1, _ :: rest => closedFrom? skip rest
  | 0, c :: rest =>
    if c = '"' then some ([], rest)
    else if c = '\\' then
      (escaped? rest).bind fun e => (closedFrom? e.2 rest).map fun r => (e.1 ++ r.1, r.2)
    else (closedFrom? 0 rest).map fun r => (String.utf8EncodeChar c ++ r.1, r.2)

/-- The bytes of a text in double quotes, and what comes after it. -/
def readQuoted? : List Char → Option (Bytes × List Char)
  | '"' :: rest => closedFrom? 0 rest
  | _ => none

/-! ### What is read piece by piece -/

/-- Inside quotes, a piece of text is read as some bytes whatever comes after it. -/
def Spells (text : List Char) (bytes : Bytes) : Prop :=
  ∀ rest, closedFrom? 0 (text ++ rest) =
    (closedFrom? 0 rest).map fun r => (bytes ++ r.1, r.2)

theorem Spells.flatMap {α : Type} {f : α → List Char} {g : α → Bytes} {xs : List α}
    (h : ∀ x ∈ xs, Spells (f x) (g x)) : Spells (xs.flatMap f) (xs.flatMap g) := by
  induction xs with
  | nil =>
    intro rest
    simp
  | cons x xs ih =>
    obtain ⟨hx, hxs⟩ := List.forall_mem_cons.1 h
    intro rest
    rw [List.flatMap_cons, List.append_assoc, hx, ih hxs rest, Option.map_map]
    simp [Function.comp_def]

theorem closedFrom?_length_append (text rest : List Char) :
    closedFrom? text.length (text ++ rest) = closedFrom? 0 rest := by
  induction text with
  | nil => rfl
  | cons c text ih => exact ih

theorem spells_char {c : Char} (hquote : c ≠ '"') (hbackslash : c ≠ '\\') :
    Spells [c] (String.utf8EncodeChar c) := by
  intro rest
  rw [List.singleton_append, closedFrom?, if_neg hquote, if_neg hbackslash]

theorem spells_escape {text : List Char} {bytes : Bytes}
    (h : ∀ rest, escaped? (text ++ rest) = some (bytes, text.length)) :
    Spells ('\\' :: text) bytes := by
  intro rest
  rw [List.cons_append, closedFrom?, if_neg (by decide), if_pos rfl, h, Option.bind_some,
    closedFrom?_length_append]

theorem hexValue?_hexDigit : ∀ d < 16, hexValue? (hexDigit d) = some d := by
  decide

theorem length_hexDigits (width n : Nat) : (hexDigits width n).length = width := by
  induction width generalizing n with
  | zero => rfl
  | succ width ih => rw [hexDigits, List.length_append, ih, List.length_singleton]

theorem readHex?_hexDigits {width n : Nat} (h : n < Nat.pow 16 width) :
    readHex? (hexDigits width n) = some n := by
  induction width generalizing n with
  | zero =>
    cases Nat.lt_one_iff.1 h
    rfl
  | succ width ih =>
    have hrest : n / 16 < Nat.pow 16 width := Nat.div_lt_of_lt_mul (Nat.mul_comm .. ▸ h)
    have hread := ih hrest
    unfold readHex? at hread ⊢
    rw [hexDigits, List.foldlM_append, hread]
    simp [hexValue?_hexDigit _ (Nat.mod_lt n (by decide)), Nat.div_add_mod]

theorem readHex?_take {width n : Nat} (h : n < Nat.pow 16 width) (rest : List Char) :
    readHex? ((hexDigits width n ++ rest).take width) = some n := by
  rw [List.take_left' (length_hexDigits width n), readHex?_hexDigits h]

theorem spells_byte (b : UInt8) : Spells ('\\' :: 'x' :: hexDigits 2 b.toNat) [b] := by
  refine spells_escape fun rest => ?_
  rw [List.cons_append, escaped?, readHex?_take b.toNat_lt, Option.map_some, UInt8.ofNat_toNat]
  rfl

theorem utf8EncodeChar_of_ascii {c : Char} {n : Nat} (hcode : c.toNat = n) (h : n < 128) :
    String.utf8EncodeChar c = [.ofNat n] := by
  subst hcode
  rcases utf8EncodeChar_cases c with ⟨-, hbytes⟩ | ⟨hl, -⟩ | ⟨hl, -⟩ | ⟨hl, -⟩
  · exact hbytes
  all_goals omega

theorem spells_letter {c letter : Char} {n : Nat} (hcode : c.toNat = n)
    (hletter : letterByte? letter = some (.ofNat n)) (h : n < 128) :
    Spells ['\\', letter] (String.utf8EncodeChar c) := by
  rw [utf8EncodeChar_of_ascii hcode h]
  refine spells_escape fun rest => ?_
  generalize UInt8.ofNat n = b at hletter
  unfold letterByte? at hletter
  split at hletter <;> cases hletter <;> rfl

theorem spells_short {c : Char} (h : c.toNat < 0x10000) :
    Spells ('\\' :: 'u' :: hexDigits 4 c.toNat) (String.utf8EncodeChar c) := by
  refine spells_escape fun rest => ?_
  rw [List.cons_append, escaped?, readHex?_take h, Option.map_some, Char.ofNat_toNat]
  rfl

theorem spells_long (c : Char) :
    Spells ('\\' :: 'U' :: hexDigits 8 c.toNat) (String.utf8EncodeChar c) := by
  refine spells_escape fun rest => ?_
  rw [List.cons_append, escaped?, readHex?_take c.val.toNat_lt, Option.map_some, Char.ofNat_toNat]
  rfl

/-! ### Texts in quotes -/

theorem readQuoted?_of_spells {text : List Char} {bytes : Bytes} (h : Spells text bytes)
    (rest : List Char) :
    readQuoted? ('"' :: text ++ ['"'] ++ rest) = some (bytes, rest) := by
  have hclosed : closedFrom? 0 ('"' :: rest) = some ([], rest) := rfl
  rw [List.append_assoc, List.cons_append, readQuoted?, h, List.singleton_append, hclosed,
    Option.map_some, List.append_nil]

theorem spells_escapeChar (c : Char) : Spells (escapeChar '"' c) (String.utf8EncodeChar c) := by
  unfold escapeChar
  split
  · rename_i hmark
    simp only [Bool.or_eq_true, beq_iff_eq] at hmark
    rcases hmark with rfl | rfl <;> exact spells_letter rfl rfl (by decide)
  rename_i hmark
  simp only [Bool.or_eq_true, beq_iff_eq, not_or] at hmark
  split
  · exact spells_char hmark.1 hmark.2
  split
  · rename_i letter hletter
    unfold shortEscape? at hletter
    split at hletter <;> cases hletter <;> rename_i hcode <;>
      exact spells_letter hcode rfl (by decide)
  split
  · rename_i hascii
    have hbyte := spells_byte (.ofNat c.toNat)
    rwa [UInt8.toNat_ofNat', Nat.mod_eq_of_lt (by omega),
      ← utf8EncodeChar_of_ascii rfl hascii] at hbyte
  split
  · rename_i hshort
    exact spells_short hshort
  · exact spells_long c

theorem spells_escapeGlyph (g : Glyph) : Spells (escapeGlyph g) g.bytes := by
  cases g with
  | char c => exact spells_escapeChar c
  | stray b => exact spells_byte b

/-- Whatever bytes are quoted, they are read again. -/
theorem readQuoted?_quote (s : Bytes) (rest : List Char) :
    readQuoted? ((quote s).toList ++ rest) = some (s, rest) := by
  rw [quote, String.toList_ofList]
  have hspells := Spells.flatMap fun g (_ : g ∈ glyphs s) => spells_escapeGlyph g
  rw [flatMap_bytes_glyphs] at hspells
  exact readQuoted?_of_spells hspells rest

/-! ### JSON strings -/

/-- The character that a glyph is shown as where only characters can be written. -/
def Glyph.shown : Glyph → Char
  | .char c => c
  | .stray _ => Char.ofNat 0xFFFD

/-- A byte string as a text, with U+FFFD for each of its stray bytes. -/
def shown (s : Bytes) : String :=
  String.ofList ((glyphs s).map Glyph.shown)

theorem shown_utf8 (text : String) : shown (utf8 text) = text := by
  rw [shown, glyphs_utf8, List.map_map]
  exact (congrArg String.ofList (List.map_id _)).trans String.ofList_toList

/-- What is shown is what is there exactly for encoded texts. -/
theorem utf8_shown_iff {s : Bytes} : utf8 (shown s) = s ↔ ∃ text, s = utf8 text := by
  constructor
  · intro h
    exact ⟨shown s, h.symm⟩
  · rintro ⟨text, rfl⟩
    rw [shown_utf8]

namespace Json

theorem spells_escapeChar (c : Char) : Spells (escapeChar c) (String.utf8EncodeChar c) := by
  unfold escapeChar
  dsimp only
  split
  case h_8 hquote hbackslash _ _ _ _ _ =>
    simp only [beq_iff_eq, Bool.or_eq_true, decide_eq_true_eq]
    split
    · rename_i hcode
      exact spells_letter hcode rfl (by decide)
    split
    · rename_i hcode
      exact spells_letter hcode rfl (by decide)
    split
    · rename_i hcode
      exact spells_letter hcode rfl (by decide)
    split
    · exact spells_short (by omega)
    · exact spells_char hquote hbackslash
  case h_1 | h_2 | h_3 | h_4 => exact spells_letter rfl rfl (by decide)
  all_goals exact spells_short (by decide)

theorem spells_escapeGlyph (g : Glyph) :
    Spells (escapeGlyph g) (String.utf8EncodeChar g.shown) := by
  cases g with
  | char c => exact spells_escapeChar c
  | stray b => exact spells_char (by decide) (by decide)

/-- A JSON string is read as the bytes of what is shown. -/
theorem readQuoted?_quoted (s : Bytes) (rest : List Char) :
    readQuoted? ((quoted s).toList ++ rest) = some (utf8 (shown s), rest) := by
  have hspells := Spells.flatMap fun g (_ : g ∈ glyphs s) => spells_escapeGlyph g
  rw [quoted, String.toList_ofList, shown, utf8_eq_flatMap, String.toList_ofList, List.flatMap_map]
  exact readQuoted?_of_spells hspells rest

end Json

end ShaderGraft.Text
