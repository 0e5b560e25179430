import ShaderGraft.Text.Glyph
import ShaderGraft.Text.Number

/-!
JSON text with two blanks of indentation to a level. Inside strings, the characters that could end a
script in a web page are written as escapes, and bytes that are no character become U+FFFD.
-/

namespace ShaderGraft.Text

/-- A JSON value, as far as it is printed. -/
inductive Json where
  | number (n : Nat)
  | string (s : Bytes)
  | array (items : List Json)
  | object (fields : List (String × Json))

namespace Json

/-- A character inside a JSON string. -/
def escapeChar (c : Char) : List Char :=
  let code := '\\' :: 'u' :: hexDigits 4 c.toNat
  match c with
  | '"' => ['\\', '"']
  | '\\' => ['\\', '\\']
  | '\n' => ['\\', 'n']
  | '\t' => ['\\', 't']
  | '<' | '>' | '&' => code
  | c =>
    if c.toNat == 8 then ['\\', 'b']
    else if c.toNat == 12 then ['\\', 'f']
    else if c.toNat == 13 then ['\\', 'r']
    else if c.toNat < 32 || c.toNat == 0x2028 || c.toNat == 0x2029 then code
    else [c]

/-- A glyph inside a JSON string. -/
def escapeGlyph : Glyph → List Char
  | .char c => escapeChar c
  | .stray _ => [Char.ofNat 0xFFFD]

/-- A JSON string. -/
def quoted (s : Bytes) : String :=
  String.ofList ('"' :: (glyphs s).flatMap escapeGlyph ++ ['"'])

/-- A line break and the indentation of a level. -/
def newline (level : Nat) : String :=
  "\n" ++ String.ofList (List.replicate (2 * level) ' ')

/-- Items between brackets, each on a line of its own. -/
def bracketed (opening closing : String) (level : Nat) : List String → String
  | [] => opening ++ closing
  | items =>
    opening ++ newline (level + 1) ++ ("," ++ newline (level + 1)).intercalate items ++
      newline level ++ closing

mutual

/-- The text of a value at a level of indentation. -/
def render (level : Nat) : Json → String
  | .number n => toString n
  | .string s => quoted s
  | .array items => bracketed "[" "]" level (renderItems (level + 1) items)
  | .object fields => bracketed "\x7b" "\x7d" level (renderFields (level + 1) fields)

/-- The texts of the items of an array. -/
def renderItems (level : Nat) : List Json → List String
  | [] => []
  | item :: rest => item.render level :: renderItems level rest

/-- The texts of the fields of an object. -/
def renderFields (level : Nat) : List (String × Json) → List String
  | [] => []
  | (key, value) :: rest =>
    (quoted (utf8 key) ++ ": " ++ value.render level) :: renderFields level rest

end

/-- The text of a value with a newline at its end. -/
def text (j : Json) : String :=
  j.render 0 ++ "\n"

end Json

end ShaderGraft.Text
