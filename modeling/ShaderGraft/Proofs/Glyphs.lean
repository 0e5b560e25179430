import ShaderGraft.Text.Glyph

/-!
# Bytes and characters

A byte string is made of the bytes of its glyphs (`Text.flatMap_bytes_glyphs`), and the glyphs of an
encoded text are its characters (`Text.glyphs_utf8`). Both come from one fact for each length of an
encoding: those bytes are decoded to a character that it is encoded as
(`Text.twoBytes?_eq_some_iff` and the ones after it).
-/

namespace ShaderGraft.Text

/-! ### Encoded texts -/

theorem utf8_eq_flatMap (s : String) : utf8 s = s.toList.flatMap String.utf8EncodeChar := by
  rw [utf8, String.toUTF8_eq_toByteArray, ← String.utf8Encode_toList, List.utf8Encode,
    List.data_toByteArray, List.toList_toArray]

theorem utf8_append (s t : String) : utf8 (s ++ t) = utf8 s ++ utf8 t := by
  simp only [utf8_eq_flatMap, String.toList_append, List.flatMap_append]

/-! ### One character -/

theorem ofNat_eq_iff {n : Nat} (hn : n < 256) {b : UInt8} : UInt8.ofNat n = b ↔ n = b.toNat := by
  rw [UInt8.ofNat_eq_iff_mod_eq_toNat, Nat.mod_eq_of_lt hn]

theorem charFrom?_eq_some_iff {least n : Nat} {c : Char} :
    charFrom? least n = some c ↔ c.toNat = n ∧ least ≤ n := by
  by_cases h : n.isValidChar ∧ least ≤ n
  · have hcode : (Char.ofNatAux n h.1).toNat = n := rfl
    rw [charFrom?, dif_pos h, Option.some.injEq, ← Char.toNat_inj, hcode]
    exact ⟨fun heq => ⟨heq.symm, h.2⟩, fun heq => heq.1.symm⟩
  · rw [charFrom?, dif_neg h]
    refine ⟨fun hnone => absurd hnone (by simp), ?_⟩
    rintro ⟨rfl, hle⟩
    exact absurd ⟨c.valid, hle⟩ h

theorem continuation?_bind_eq_some_iff {b : UInt8} {f : Nat → Option Char} {c : Char} :
    (continuation? b).bind f = some c ↔
      (0x80 ≤ b.toNat ∧ b.toNat < 0xC0) ∧ f (b.toNat % 64) = some c := by
  unfold continuation?
  split <;> rename_i hb <;>
    simp only [Bool.and_eq_true, decide_eq_true_eq, UInt8.le_iff_toNat_le, UInt8.lt_iff_toNat_lt,
      UInt8.reduceToNat] at hb <;> simp [hb]

/-- The bytes of a character, by its number. -/
theorem utf8EncodeChar_cases (c : Char) :
    (c.toNat < 0x80 ∧ String.utf8EncodeChar c = [.ofNat c.toNat]) ∨
    (0x80 ≤ c.toNat ∧ c.toNat < 0x800 ∧
      String.utf8EncodeChar c = [.ofNat (c.toNat / 64 % 32 + 192), .ofNat (c.toNat % 64 + 128)]) ∨
    (0x800 ≤ c.toNat ∧ c.toNat < 0x10000 ∧
      String.utf8EncodeChar c = [.ofNat (c.toNat / 4096 % 16 + 224),
        .ofNat (c.toNat / 64 % 64 + 128), .ofNat (c.toNat % 64 + 128)]) ∨
    (0x10000 ≤ c.toNat ∧ c.toNat < 0x110000 ∧
      String.utf8EncodeChar c = [.ofNat (c.toNat / 262144 % 8 + 240),
        .ofNat (c.toNat / 4096 % 64 + 128), .ofNat (c.toNat / 64 % 64 + 128),
        .ofNat (c.toNat % 64 + 128)]) := by
  have hcode : c.val.toNat = c.toNat := rfl
  have hvalid : c.toNat.isValidChar := c.valid
  simp only [String.utf8EncodeChar, hcode]
  by_cases hone : c.toNat ≤ 127
  · exact .inl ⟨by omega, if_pos hone⟩
  rw [if_neg hone]
  by_cases htwo : c.toNat ≤ 2047
  · exact .inr (.inl ⟨by omega, by omega, if_pos htwo⟩)
  rw [if_neg htwo]
  by_cases hthree : c.toNat ≤ 65535
  · exact .inr (.inr (.inl ⟨by omega, by omega, if_pos hthree⟩))
  · exact .inr (.inr (.inr ⟨by omega, by omega, if_neg hthree⟩))

/-- A byte below 0x80 encodes one character only, and no part of another. -/
theorem toNat_of_mem_utf8EncodeChar {b : UInt8} {c : Char} (h : b ∈ String.utf8EncodeChar c)
    (hb : b < 0x80) : c.toNat = b.toNat := by
  rw [UInt8.lt_iff_toNat_lt] at hb
  rcases utf8EncodeChar_cases c with ⟨hc, hbytes⟩ | ⟨-, -, hbytes⟩ | ⟨-, -, hbytes⟩ | ⟨-, -, hbytes⟩
  · rw [hbytes, List.mem_singleton] at h
    rw [h, UInt8.toNat_ofNat', Nat.mod_eq_of_lt (by omega)]
  all_goals
    exfalso
    simp only [hbytes, List.mem_cons, List.not_mem_nil, or_false] at h
    rcases h with rfl | rfl | rfl | rfl <;>
    · simp only [UInt8.toNat_ofNat', UInt8.reduceToNat] at hb
      omega

theorem utf8EncodeChar_eq_one_iff {c : Char} {a : UInt8} :
    String.utf8EncodeChar c = [a] ↔ a.toNat < 0x80 ∧ c.toNat = a.toNat := by
  rcases utf8EncodeChar_cases c with ⟨hc, h⟩ | ⟨hl, hc, h⟩ | ⟨hl, hc, h⟩ | ⟨hl, hc, h⟩
  · rw [h, List.singleton_inj, ofNat_eq_iff (by omega)]
    omega
  all_goals
    simp only [h, List.cons.injEq, reduceCtorEq, and_false, false_iff]
    omega

/-- Two bytes are decoded to the character that they encode. -/
theorem twoBytes?_eq_some_iff {a b : UInt8} {c : Char} :
    twoBytes? a b = some c ↔ String.utf8EncodeChar c = [a, b] := by
  simp only [twoBytes?, Option.ite_none_right_eq_some, continuation?_bind_eq_some_iff,
    charFrom?_eq_some_iff, Bool.and_eq_true, decide_eq_true_eq, UInt8.le_iff_toNat_le,
    UInt8.lt_iff_toNat_lt, UInt8.reduceToNat]
  rcases utf8EncodeChar_cases c with ⟨hc, h⟩ | ⟨hl, hc, h⟩ | ⟨hl, hc, h⟩ | ⟨hl, hc, h⟩
  case inr.inl =>
    simp only [h, List.cons.injEq, and_true]
    rw [ofNat_eq_iff (by omega), ofNat_eq_iff (by omega)]
    omega
  all_goals
    simp only [h, List.cons.injEq, reduceCtorEq, and_false, iff_false]
    omega

theorem threeBytes?_eq_some_iff {a b d : UInt8} {c : Char} :
    threeBytes? a b d = some c ↔ String.utf8EncodeChar c = [a, b, d] := by
  simp only [threeBytes?, Option.ite_none_right_eq_some, continuation?_bind_eq_some_iff,
    charFrom?_eq_some_iff, Bool.and_eq_true, decide_eq_true_eq, UInt8.le_iff_toNat_le,
    UInt8.lt_iff_toNat_lt, UInt8.reduceToNat]
  rcases utf8EncodeChar_cases c with ⟨hc, h⟩ | ⟨hl, hc, h⟩ | ⟨hl, hc, h⟩ | ⟨hl, hc, h⟩
  case inr.inr.inl =>
    simp only [h, List.cons.injEq, and_true]
    rw [ofNat_eq_iff (by omega), ofNat_eq_iff (by omega), ofNat_eq_iff (by omega)]
    omega
  all_goals
    simp only [h, List.cons.injEq, reduceCtorEq, and_false, iff_false]
    omega

theorem fourBytes?_eq_some_iff {a b d e : UInt8} {c : Char} :
    fourBytes? a b d e = some c ↔ String.utf8EncodeChar c = [a, b, d, e] := by
  simp only [fourBytes?, Option.ite_none_right_eq_some, continuation?_bind_eq_some_iff,
    charFrom?_eq_some_iff, Bool.and_eq_true, decide_eq_true_eq, UInt8.le_iff_toNat_le,
    UInt8.lt_iff_toNat_lt, UInt8.reduceToNat]
  rcases utf8EncodeChar_cases c with ⟨hc, h⟩ | ⟨hl, hc, h⟩ | ⟨hl, hc, h⟩ | ⟨hl, hc, h⟩
  case inr.inr.inr =>
    simp only [h, List.cons.injEq, and_true]
    rw [ofNat_eq_iff (by omega), ofNat_eq_iff (by omega), ofNat_eq_iff (by omega),
      ofNat_eq_iff (by omega)]
    omega
  all_goals
    simp only [h, List.cons.injEq, reduceCtorEq, and_false, iff_false]
    omega

theorem leading?_of_ascii {a : UInt8} (ha : a < 0x80) (rest : Bytes) :
    leading? a rest = some (Char.ofNat a.toNat, 0) := by
  unfold leading?
  exact if_pos ha

/-- What is decoded at the start is encoded as the bytes that it takes. -/
theorem utf8EncodeChar_of_leading? {a : UInt8} {rest : Bytes} {c : Char} {n : Nat}
    (h : leading? a rest = some (c, n)) : String.utf8EncodeChar c = a :: rest.take n := by
  unfold leading? at h
  split at h
  · rename_i ha
    cases h
    rw [UInt8.lt_iff_toNat_lt] at ha
    have hvalid : a.toNat.isValidChar := .inl (Nat.lt_trans ha (by decide))
    refine utf8EncodeChar_eq_one_iff.2 ⟨ha, ?_⟩
    rw [Char.ofNat, dif_pos hvalid]
    rfl
  split at h
  · cases h
  · obtain ⟨x, hx, hxn⟩ := Option.map_eq_some_iff.1 h
    cases hxn
    exact twoBytes?_eq_some_iff.1 hx
  · simp only [Option.orElse_eq_orElse, Option.orElse_eq_or, Option.or_eq_some_iff,
      Option.map_eq_some_iff, Prod.mk.injEq] at h
    rcases h with ⟨x, hx, rfl, rfl⟩ | ⟨-, x, hx, rfl, rfl⟩
    · exact twoBytes?_eq_some_iff.1 hx
    · exact threeBytes?_eq_some_iff.1 hx
  · simp only [Option.orElse_eq_orElse, Option.orElse_eq_or, Option.or_eq_some_iff,
      Option.map_eq_some_iff, Prod.mk.injEq] at h
    rcases h with ⟨x, hx, rfl, rfl⟩ | ⟨-, ⟨x, hx, rfl, rfl⟩ | ⟨-, x, hx, rfl, rfl⟩⟩
    · exact twoBytes?_eq_some_iff.1 hx
    · exact threeBytes?_eq_some_iff.1 hx
    · exact fourBytes?_eq_some_iff.1 hx

theorem leading?_of_twoBytes? {a b : UInt8} {c : Char} (h : twoBytes? a b = some c) (rest : Bytes) :
    leading? a (b :: rest) = some (c, 1) := by
  have ha : ¬ a < 0x80 := by
    simp only [twoBytes?, Option.ite_none_right_eq_some, Bool.and_eq_true, decide_eq_true_eq] at h
    exact UInt8.not_lt.2 (UInt8.le_trans (by decide) h.1.1)
  unfold leading?
  rw [if_neg ha]
  rcases rest with _ | ⟨x, _ | ⟨y, rest⟩⟩ <;> simp [h]

theorem leading?_of_threeBytes? {a b d : UInt8} {c : Char} (h : threeBytes? a b d = some c)
    (rest : Bytes) : leading? a (b :: d :: rest) = some (c, 2) := by
  have ha : 0xE0 ≤ a := by
    simp only [threeBytes?, Option.ite_none_right_eq_some, Bool.and_eq_true, decide_eq_true_eq] at h
    exact h.1.1
  have hascii : ¬ a < 0x80 := UInt8.not_lt.2 (UInt8.le_trans (by decide) ha)
  have htwo : twoBytes? a b = none := if_neg (by simp [UInt8.not_lt.2 ha])
  unfold leading?
  rw [if_neg hascii]
  rcases rest with _ | ⟨x, rest⟩ <;> simp [htwo, h]

theorem leading?_of_fourBytes? {a b d e : UInt8} {c : Char} (h : fourBytes? a b d e = some c)
    (rest : Bytes) : leading? a (b :: d :: e :: rest) = some (c, 3) := by
  have ha : 0xF0 ≤ a := by
    simp only [fourBytes?, Option.ite_none_right_eq_some, Bool.and_eq_true, decide_eq_true_eq] at h
    exact h.1.1
  have hascii : ¬ a < 0x80 := UInt8.not_lt.2 (UInt8.le_trans (by decide) ha)
  have htwo : twoBytes? a b = none :=
    if_neg (by simp [UInt8.not_lt.2 (UInt8.le_trans (by decide : (0xE0 : UInt8) ≤ 0xF0) ha)])
  have hthree : threeBytes? a b d = none := if_neg (by simp [UInt8.not_lt.2 ha])
  unfold leading?
  rw [if_neg hascii]
  simp [htwo, hthree, h]

/-- A character is decoded from its bytes, whatever comes after them. -/
theorem leading?_of_utf8EncodeChar {c : Char} {a : UInt8} {tail : Bytes}
    (h : String.utf8EncodeChar c = a :: tail) (rest : Bytes) :
    leading? a (tail ++ rest) = some (c, tail.length) := by
  have hlength : tail.length < 4 := by
    have hsize := String.length_utf8EncodeChar c
    rw [h, List.length_cons] at hsize
    have hle := c.utf8Size_le_four
    omega
  rcases tail with _ | ⟨b, _ | ⟨d, _ | ⟨e, _ | ⟨f, tail⟩⟩⟩⟩
  · obtain ⟨ha, hcode⟩ := utf8EncodeChar_eq_one_iff.1 h
    rw [leading?_of_ascii (UInt8.lt_iff_toNat_lt.2 ha), ← hcode, Char.ofNat_toNat]
    rfl
  · exact leading?_of_twoBytes? (twoBytes?_eq_some_iff.2 h) rest
  · exact leading?_of_threeBytes? (threeBytes?_eq_some_iff.2 h) rest
  · exact leading?_of_fourBytes? (fourBytes?_eq_some_iff.2 h) rest
  · simp only [List.length_cons] at hlength
    omega

/-! ### Byte strings -/

theorem glyphsFrom_eq_drop (skip : Nat) (s : Bytes) : glyphsFrom skip s = glyphs (s.drop skip) := by
  induction s generalizing skip with
  | nil => cases skip <;> rfl
  | cons a rest ih =>
    cases skip with
    | zero => rfl
    | succ skip => exact ih skip

/-- The bytes that a glyph stands for. -/
def Glyph.bytes : Glyph → Bytes
  | .char c => String.utf8EncodeChar c
  | .stray b => [b]

theorem flatMap_bytes_glyphsFrom (skip : Nat) (s : Bytes) :
    (glyphsFrom skip s).flatMap Glyph.bytes = s.drop skip := by
  fun_induction glyphsFrom skip s with
  | case1 skip => simp
  | case2 skip a rest ih => exact ih
  | case3 a rest c n hleading ih =>
    rw [List.flatMap_cons, ih, Glyph.bytes, utf8EncodeChar_of_leading? hleading, List.cons_append,
      List.take_append_drop, List.drop_zero]
  | case4 a rest hleading ih =>
    rw [List.flatMap_cons, ih]
    rfl

theorem le_of_stray_mem_glyphsFrom {b : UInt8} {skip : Nat} {s : Bytes}
    (h : .stray b ∈ glyphsFrom skip s) : 0x80 ≤ b := by
  fun_induction glyphsFrom skip s with
  | case1 skip => cases h
  | case2 skip a rest ih => exact ih h
  | case3 a rest c n hleading ih =>
    rcases List.mem_cons.1 h with heq | h
    · cases heq
    · exact ih h
  | case4 a rest hleading ih =>
    rcases List.mem_cons.1 h with heq | h
    · cases heq
      refine UInt8.not_lt.1 fun ha => ?_
      rw [leading?_of_ascii ha] at hleading
      cases hleading
    · exact ih h

/-- Nothing is lost when a byte string is seen as glyphs. -/
theorem flatMap_bytes_glyphs (s : Bytes) : (glyphs s).flatMap Glyph.bytes = s :=
  flatMap_bytes_glyphsFrom 0 s

/-- A byte below 0x80 is a character by itself wherever it stands. -/
theorem mem_glyphs_of_ascii {b : UInt8} (hb : b < 0x80) {s : Bytes} (h : b ∈ s) :
    .char (Char.ofNat b.toNat) ∈ glyphs s := by
  rw [← flatMap_bytes_glyphs s, List.mem_flatMap] at h
  obtain ⟨g, hg, hmem⟩ := h
  cases g with
  | char c =>
    rw [← toNat_of_mem_utf8EncodeChar hmem hb, Char.ofNat_toNat]
    exact hg
  | stray a =>
    cases List.mem_singleton.1 hmem
    exact absurd hb (UInt8.not_lt.2 (le_of_stray_mem_glyphsFrom hg))

theorem glyphs_utf8EncodeChar_append (c : Char) (rest : Bytes) :
    glyphs (String.utf8EncodeChar c ++ rest) = .char c :: glyphs rest := by
  obtain ⟨a, tail, h⟩ := List.exists_cons_of_ne_nil (String.utf8EncodeChar_ne_nil (c := c))
  rw [h, List.cons_append, glyphs, glyphsFrom, leading?_of_utf8EncodeChar h]
  dsimp only
  rw [glyphsFrom_eq_drop, List.drop_left]

/-- The glyphs of an encoded text are its characters. -/
theorem glyphs_utf8 (text : String) : glyphs (utf8 text) = text.toList.map .char := by
  rw [utf8_eq_flatMap]
  induction text.toList with
  | nil => rfl
  | cons c cs ih => rw [List.flatMap_cons, glyphs_utf8EncodeChar_append, ih, List.map_cons]

end ShaderGraft.Text
