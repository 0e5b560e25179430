import ShaderGraft.Word

/-!
The tokens of a YAML text, and the position of a reader in it.
-/

namespace ShaderGraft.Yaml

/-- How a scalar is written. -/
inductive Style where
  | plain
  /-- In quotes or as a block. -/
  | marked
deriving DecidableEq, Repr

inductive Token where
  | streamEnd
  | versionDirective (major minor : Nat)
  | tagDirective (handle start : List Char)
  | documentStart
  | documentEnd
  | blockSequenceStart
  | blockMappingStart
  | blockEnd
  | flowSequenceStart
  | flowSequenceEnd
  | flowMappingStart
  | flowMappingEnd
  | blockEntry
  | flowEntry
  | key
  | value
  | reference (name : List Char)
  | anchor (name : List Char)
  | tag (handle suffix : List Char)
  | scalar (style : Style) (text : List Char)
  /-- What follows cannot be read. -/
  | fault
deriving DecidableEq, Repr

def isBlank (c : Char) : Bool :=
  c == ' ' || c == '\t'

def isBreak (c : Char) : Bool :=
  c == '\n' || c.toNat == 0x85 || c.toNat == 0x2028 || c.toNat == 0x2029

/-- A line break as it stands in a scalar: the next-line character is a newline there. -/
def breakText (c : Char) : Char :=
  if c.toNat == 0x85 then '\n' else c

/-- Whether a text starts with a blank or a line break, or is at its end. -/
def startsBlank : List Char → Bool
  | [] => true
  | c :: _ => isBlank c || isBreak c

/-- Whether a text starts with a document marker made of the given character. -/
def startsMarker (mark : Char) : List Char → Bool
  | a :: b :: c :: rest => a == mark && b == mark && c == mark && startsBlank rest
  | _ => false

def atMarker (cs : List Char) : Bool :=
  startsMarker '-' cs || startsMarker '.' cs

/-- A letter, a digit, `_` or `-`. -/
def isWordChar (c : Char) : Bool :=
  c.isAlphanum || c == '_' || c == '-'

/-- A position in a text: what is left of it, and where that starts. -/
structure Cursor where
  rest : List Char
  index : Nat := 0
  line : Nat := 0
  column : Nat := 0
deriving DecidableEq, Repr

namespace Cursor

/-- The position after a character. -/
def past (c : Char) (rest : List Char) (p : Cursor) : Cursor :=
  if isBreak c then { rest, index := p.index + 1, line := p.line + 1, column := 0 }
  else { rest, index := p.index + 1, line := p.line, column := p.column + 1 }

def skip (p : Cursor) : Cursor :=
  match p.rest with
  | [] => p
  | c :: rest => p.past c rest

def skips : Nat → Cursor → Cursor
  | 0, p => p
  | n + 1, p => skips n p.skip

/-- The characters from here that satisfy a test, and the position after them. `done` are those
before, backwards. -/
def spanFrom (test : Char → Bool) (done : List Char) (p : Cursor) : List Char → List Char × Cursor
  | [] => (done.reverse, { p with rest := [] })
  | c :: rest =>
    if test c then spanFrom test (c :: done) (p.past c rest) rest
    else (done.reverse, { p with rest := c :: rest })

/-- The longest run of characters that satisfy a test, and the position after it. -/
def span (test : Char → Bool) (p : Cursor) : List Char × Cursor :=
  spanFrom test [] p p.rest

def skipWhile (test : Char → Bool) (p : Cursor) : Cursor :=
  (p.span test).2

def skipLine (p : Cursor) : Cursor :=
  p.skipWhile (! isBreak ·)

end Cursor

end ShaderGraft.Yaml
