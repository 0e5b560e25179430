import ShaderGraft.Proofs.Glyphs
import ShaderGraft.Proofs.Listings
import ShaderGraft.Text.LogLine

/-!
# Log lines

A log line is one line, whatever the values in it are (`Text.LogLine.newline_notMem_render`). A
value that has a newline in it is quoted, and quoting escapes the newline. The lines are bytes here,
so the newline is a byte too: no character other than the newline has it in its encoding, and a byte
string that holds it also has the newline among its glyphs (`Text.mem_glyphs_of_ascii`).
-/

namespace ShaderGraft.Text

theorem newline_notMem_utf8 {s : String} (h : OneLine s) : 10 ∉ utf8 s := by
  rw [utf8_eq_flatMap, List.mem_flatMap]
  rintro ⟨c, hc, hnewline⟩
  have hcode : c = '\n' := Char.toNat_inj.1 (toNat_of_mem_utf8EncodeChar hnewline (by decide))
  exact h (hcode ▸ hc)

namespace LogLine

/-- A text of bare characters stands for itself. -/
theorem value_utf8 {text : String} (hne : text.toList ≠ [])
    (h : ∀ c ∈ text.toList, isBare (.char c) = true) : value (utf8 text) = utf8 text := by
  have hglyphs : (glyphs (utf8 text)).all isBare = true := by
    rw [glyphs_utf8, List.all_map, List.all_eq_true]
    exact h
  have hbytes : utf8 text ≠ [] := by
    intro hnil
    have hnone := glyphs_utf8 text
    rw [hnil] at hnone
    exact hne (List.map_eq_nil_iff.1 hnone.symm)
  simp [value, hglyphs, hbytes]

/-- A value with a blank is in quotes. -/
theorem value_of_blank {s : Bytes} (h : 32 ∈ s) : value s = utf8 (quote s) := by
  have hglyph : Glyph.char ' ' ∈ glyphs s := mem_glyphs_of_ascii (by decide) h
  have hbare : (glyphs s).all isBare = false :=
    List.all_eq_false.2 ⟨_, hglyph, by decide⟩
  simp [value, hbare]

theorem isBare_of_isDigit {c : Char} (h : c.isDigit = true) : isBare (.char c) = true := by
  have hrange : 48 ≤ c.toNat ∧ c.toNat ≤ 57 := by
    simpa [Char.isDigit, UInt32.le_iff_toNat_le] using h
  have hequals : c ≠ '=' := by
    rintro rfl
    exact absurd hrange (by decide)
  have hquote : c ≠ '"' := by
    rintro rfl
    exact absurd hrange (by decide)
  have hblank : 32 < c.toNat := by omega
  rw [isBare, if_pos (by omega)]
  simp [hequals, hquote, hblank]

theorem value_word (w : Word) : value (utf8 (toString w)) = utf8 (toString w) := by
  have hdigits : (toString w).toList = Nat.toDigits 10 w.toNat := Nat.toList_repr
  refine value_utf8 ?_ fun c hc => ?_
  · rw [hdigits]
    exact Nat.toDigits_ne_nil
  · rw [hdigits] at hc
    exact isBare_of_isDigit (Nat.isDigit_of_mem_toDigits (by decide) (by decide) hc)

theorem newline_notMem_value (s : Bytes) : 10 ∉ value s := by
  unfold value
  split
  · exact newline_notMem_utf8 (oneLine_quote s)
  · rename_i hbare
    intro hnewline
    have hglyph : Glyph.char '\n' ∈ glyphs s := mem_glyphs_of_ascii (by decide) hnewline
    simp only [Bool.or_eq_true, Bool.not_eq_true', not_or, Bool.not_eq_false,
      List.all_eq_true] at hbare
    exact absurd (hbare.2 _ hglyph) (by decide)

theorem newline_notMem_intercalate {sep : Bytes} {texts : List Bytes} (hsep : 10 ∉ sep)
    (h : ∀ text ∈ texts, 10 ∉ text) : 10 ∉ sep.intercalate texts := by
  induction texts with
  | nil => exact List.not_mem_nil
  | cons text texts ih =>
    obtain ⟨htext, htexts⟩ := List.forall_mem_cons.1 h
    by_cases hne : texts = []
    · subst hne
      simpa using htext
    · rw [List.intercalate_cons_of_ne_nil hne]
      simp [htext, hsep, ih htexts]

/-- A log line is one line if its keys are. -/
theorem newline_notMem_render {pairs : List (String × Bytes)} (h : ∀ p ∈ pairs, OneLine p.1) :
    10 ∉ render pairs := by
  refine newline_notMem_intercalate (by decide) ?_
  rw [List.forall_mem_map]
  intro p hp
  have hkey := newline_notMem_utf8 (h p hp)
  have hvalue := newline_notMem_value p.2
  simp [hkey, hvalue]

end LogLine

end ShaderGraft.Text
