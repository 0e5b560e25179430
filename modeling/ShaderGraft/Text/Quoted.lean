import ShaderGraft.Text.Glyph
import ShaderGraft.Text.Number
import ShaderGraft.Text.Printable

/-!
Byte strings in double quotes. Printable characters stand for themselves, a quote and a backslash
follow a backslash, and everything else is written as an escape, so a quoted text is one line.
-/

namespace ShaderGraft.Text

/-- The letter of a control character with a short escape. -/
def shortEscape? (c : Char) : Option Char :=
  match c.toNat with
  | 7 => some 'a'
  | 8 => some 'b'
  | 9 => some 't'
  | 10 => some 'n'
  | 11 => some 'v'
  | 12 => some 'f'
  | 13 => some 'r'
  | _ => none

/-- A character as it stands between two `mark`s. -/
def escapeChar (mark c : Char) : List Char :=
  if c == mark || c == '\\' then ['\\', c]
  else if isPrintable c then [c]
  else match shortEscape? c with
    | some letter => ['\\', letter]
    | none =>
      if c.toNat < 128 then '\\' :: 'x' :: hexDigits 2 c.toNat
      else if c.toNat < 65536 then '\\' :: 'u' :: hexDigits 4 c.toNat
      else '\\' :: 'U' :: hexDigits 8 c.toNat

/-- A glyph as it stands between double quotes. -/
def escapeGlyph : Glyph → List Char
  | .char c => escapeChar '"' c
  | .stray b => '\\' :: 'x' :: hexDigits 2 b.toNat

/-- A byte string in double quotes. -/
def quote (s : Bytes) : String :=
  String.ofList ('"' :: (glyphs s).flatMap escapeGlyph ++ ['"'])

/-- A character in single quotes. -/
def quoteChar (c : Char) : String :=
  String.ofList ('\'' :: escapeChar '\'' c ++ ['\''])

end ShaderGraft.Text
