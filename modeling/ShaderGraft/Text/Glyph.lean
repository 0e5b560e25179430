import ShaderGraft.Word

/-!
A byte string seen as characters. Bytes that are no part of a well-formed UTF-8 sequence stand alone.
-/

namespace ShaderGraft.Text

/-- One element of a byte string: a character, or a byte that belongs to none. -/
inductive Glyph where
  | char (c : Char)
  | stray (b : UInt8)
deriving DecidableEq, Repr

/-- The payload of a continuation byte `10xxxxxx`. -/
def continuation? (b : UInt8) : Option Nat :=
  if 0x80 ≤ b && b < 0xC0 then some (b.toNat % 64) else none

/-- The character with the given number, if it has one and needs at least `least`: an encoding that
is longer than necessary is no character. -/
def charFrom? (least n : Nat) : Option Char :=
  if h : n.isValidChar ∧ least ≤ n then some (Char.ofNatAux n h.1) else none

/-- The two byte character that starts with `a b`. -/
def twoBytes? (a b : UInt8) : Option Char :=
  if 0xC0 ≤ a && a < 0xE0 then
    (continuation? b).bind fun y => charFrom? 0x80 (a.toNat % 32 * 64 + y)
  else none

/-- The three byte character that starts with `a b c`. -/
def threeBytes? (a b c : UInt8) : Option Char :=
  if 0xE0 ≤ a && a < 0xF0 then
    (continuation? b).bind fun y => (continuation? c).bind fun z =>
      charFrom? 0x800 ((a.toNat % 16 * 64 + y) * 64 + z)
  else none

/-- The four byte character that starts with `a b c d`. -/
def fourBytes? (a b c d : UInt8) : Option Char :=
  if 0xF0 ≤ a && a < 0xF8 then
    (continuation? b).bind fun y => (continuation? c).bind fun z => (continuation? d).bind fun u =>
      charFrom? 0x10000 (((a.toNat % 8 * 64 + y) * 64 + z) * 64 + u)
  else none

/-- The character that starts with the byte `a` before `rest`, and how many bytes of `rest` it
takes. -/
def leading? (a : UInt8) (rest : Bytes) : Option (Char × Nat) :=
  if a < 0x80 then some (Char.ofNat a.toNat, 0)
  else match rest with
    | [] => none
    | [b] => (twoBytes? a b).map (·, 1)
    | [b, c] => (twoBytes? a b).map (·, 1) <|> (threeBytes? a b c).map (·, 2)
    | b :: c :: d :: _ =>
      (twoBytes? a b).map (·, 1) <|> (threeBytes? a b c).map (·, 2) <|>
        (fourBytes? a b c d).map (·, 3)

/-- The glyphs of a byte string whose first `skip` bytes are already accounted for. -/
def glyphsFrom : (skip : Nat) → Bytes → List Glyph
  | _, [] => []
  | skip + 1, _ :: rest => glyphsFrom skip rest
  | 0, a :: rest =>
    match leading? a rest with
    | some (c, n) => .char c :: glyphsFrom n rest
    | none => .stray a :: glyphsFrom 0 rest

/-- The glyphs of a byte string. -/
def glyphs (s : Bytes) : List Glyph :=
  glyphsFrom 0 s

/-- The number of glyphs, which is the width of a byte string in a table. -/
def width (s : Bytes) : Nat :=
  (glyphs s).length

end ShaderGraft.Text
