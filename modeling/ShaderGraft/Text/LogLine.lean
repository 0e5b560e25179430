import ShaderGraft.Text.Quoted

/-!
Log lines of keys and values. A value is in quotes if it is empty or holds a blank, an equals sign, a
quote or something that is not printable.
-/

namespace ShaderGraft.Text.LogLine

/-- Whether a glyph may stand in a value without quotes. -/
def isBare : Glyph → Bool
  | .stray _ => false
  | .char c =>
    if c.toNat < 128 then 32 < c.toNat && c != '=' && c != '"'
    else isPrintable c && c.toNat != 0xFFFD

/-- A value, in quotes if it needs them. -/
def value (s : Bytes) : Bytes :=
  if s.isEmpty || ! (glyphs s).all isBare then utf8 (quote s) else s

/-- A line of keys and values without its end. -/
def render (pairs : List (String × Bytes)) : Bytes :=
  List.intercalate [32] (pairs.map fun (key, v) => utf8 key ++ 61 :: value v)

end ShaderGraft.Text.LogLine
