import ShaderGraft.Text.Quoted

/-!
Log levels by name. A name may be followed by a signed offset, as in `info+2`.
-/

namespace ShaderGraft

open Text

/-- Why a number cannot be read. -/
inductive NumberError where
  | badForm
  | outOfRange
deriving DecidableEq, Repr

/-- Why a text is no log level. -/
inductive LevelError where
  | unknownName
  | offset (text : Bytes) (cause : NumberError)
deriving DecidableEq, Repr

def NumberError.message : NumberError → String
  | .badForm => "invalid syntax"
  | .outOfRange => "value out of range"

def LevelError.message (level : Bytes) (e : LevelError) : String :=
  "slog: level string " ++ quote level ++ ": " ++
    match e with
    | .unknownName => "unknown name"
    | .offset text cause => "strconv.Atoi: parsing " ++ quote text ++ ": " ++ cause.message

/-- The value of decimal digits, read from the left until a byte is no digit or the value needs more
than 64 bits. -/
def readDigits (digits : Bytes) : Except NumberError Nat :=
  if digits.isEmpty then .error .badForm
  else digits.foldlM (fun n b =>
    if 48 ≤ b && b ≤ 57 then
      let n := n * 10 + (b.toNat - 48)
      if n < 2 * int64Limit then .ok n else .error .outOfRange
    else .error .badForm) 0

/-- Reads a decimal integer of 64 bits with an optional sign. -/
def readInt64 (text : Bytes) : Except NumberError Int :=
  let (negative, digits) := match text with
    | 43 :: rest => (false, rest)
    | 45 :: rest => (true, rest)
    | rest => (false, rest)
  match readDigits digits with
  | .error e => .error e
  | .ok n =>
    if negative then if n ≤ int64Limit then .ok (-(n : Int)) else .error .outOfRange
    else if n < int64Limit then .ok n else .error .outOfRange

/-- The upper case of a glyph as far as level names go. The dotless i has the capital of the dotted
one. -/
def upperGlyph : Glyph → Glyph
  | .char c => .char (if c == 'ı' then 'I' else c.toUpper)
  | .stray b => .stray b

/-- The number of a named level. -/
def levelNumber? (name : Bytes) : Option Int :=
  let upper := (glyphs name).map upperGlyph
  let names : List (String × Int) := [("DEBUG", -4), ("INFO", 0), ("WARN", 4), ("ERROR", 8)]
  (names.find? fun (n, _) => n.toList.map Glyph.char == upper).map (·.2)

/-- Reads a log level. The offset is read before the name is looked up. -/
def readLevel (text : Bytes) : Except LevelError Int :=
  let (name, offset) := text.span fun b => b != 43 && b != 45
  let shift := if offset.isEmpty then .ok 0 else (readInt64 offset).mapError (.offset offset)
  match shift, levelNumber? name with
  | .error e, _ => .error e
  | .ok _, none => .error .unknownName
  | .ok n, some level => .ok (level + n)

end ShaderGraft
