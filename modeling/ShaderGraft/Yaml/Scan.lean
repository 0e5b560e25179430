import ShaderGraft.Yaml.Scalar
import ShaderGraft.Yaml.Source
import ShaderGraft.Yaml.Tag

/-!
From characters to tokens. Blocks are told by indentation, so their starts and ends are tokens without
text of their own. Whether a token is a key is only known at the colon after it; until then its place
is remembered, and the tokens in front of it are put in later.
-/

namespace ShaderGraft.Yaml

/-- What white space before a token consists of. -/
inductive White where
  | blank
  | comment
  /-- Between two comments. -/
  | between
deriving DecidableEq, Repr

/-- Whether a comment follows after blanks and newlines, within `budget` characters. -/
def commentAhead : (budget : Nat) → List Char → Bool
  | budget + 1, c :: rest => if isBlank c || c == '\n' then commentAhead budget rest else c == '#'
  | _, _ => false

/-- How far ahead a comment is looked for. -/
def commentBudget : Nat := 512

/-- Skips white space and comments. In a block, a key may follow a line break, and where one may
follow a tab is not white space. The comments right below another one count as part of it. -/
def skipWhite (flow : Bool) (white : White) (keyAllowed : Bool) (p : Cursor) :
    List Char → Bool × Cursor
  | [] => (keyAllowed, { p with rest := [] })
  | c :: rest =>
    let next := p.past c rest
    match white with
    | .between => skipWhite flow (if c == '#' then .comment else .between) keyAllowed next rest
    | .comment =>
      if ! isBreak c then skipWhite flow .comment keyAllowed next rest
      else if c == '\n' && commentAhead (commentBudget - 1) rest then
        skipWhite flow .between keyAllowed next rest
      else skipWhite flow .blank (keyAllowed || ! flow) next rest
    | .blank =>
      if c == ' ' || ((flow || ! keyAllowed) && c == '\t') ||
          (c.toNat == 0xFEFF && p.column == 0) then
        skipWhite flow .blank keyAllowed next rest
      else if c == '#' then skipWhite flow .comment keyAllowed next rest
      else if isBreak c then skipWhite flow .blank (keyAllowed || ! flow) next rest
      else (keyAllowed, { p with rest := c :: rest })

/-- The position after a comment in the same line, if there is one. -/
def Cursor.skipComment (p : Cursor) : Cursor :=
  let q := p.skipWhile isBlank
  if q.rest.head? == some '#' && q.index < p.index + commentBudget then q.skipLine else p

/-- A token that is a key if a colon follows in time. -/
structure KeyCandidate where
  /-- Whether it must be one. -/
  required : Bool
  /-- Whether its token is not used before that is known. -/
  waiting : Bool := true
  /-- How many tokens are before it. -/
  number : Nat
  index : Nat
  line : Nat
  column : Nat
deriving DecidableEq, Repr

def maxKeyLength : Nat := 1024

/-- Whether a colon at a position would still be in time. -/
def KeyCandidate.isValid (k : KeyCandidate) (p : Cursor) : Bool :=
  k.line == p.line && p.index ≤ k.index + maxKeyLength

/-- What is outside of an open bracket. -/
structure Outside where
  /-- The candidate there, which may be the bracket itself. -/
  key : Option KeyCandidate
  /-- Whether there was any candidate. -/
  hadKey : Bool
  /-- How many tokens are before the bracket. -/
  number : Nat
deriving DecidableEq, Repr

/-- The candidate outside of a bracket after that is closed. A bracket is not waited for any more if
there was no candidate inside. -/
def Outside.keyAfter (o : Outside) (hadKey : Bool) : Option KeyCandidate :=
  o.key.map fun k => { k with waiting := k.waiting && (hadKey || k.number != o.number) }

/-- How deep brackets and blocks may nest. -/
def maxDepth : Nat := 10000

structure Scanner where
  cursor : Cursor
  /-- The tokens so far, backwards. -/
  tokens : List Token := []
  count : Nat := 0
  /-- The indentations of the open blocks, the innermost first. -/
  indents : List Nat := []
  depth : Nat := 0
  /-- The candidate between the innermost brackets. -/
  key : Option KeyCandidate := none
  /-- Whether there was any candidate between them. -/
  hadKey : Bool := false
  /-- What is outside of each open bracket, the innermost first. -/
  outer : List Outside := []
  brackets : Nat := 0
  keyAllowed : Bool := true

namespace Scanner

def flow (s : Scanner) : Bool :=
  s.brackets != 0

/-- Appends a token and goes to the position after it. -/
def push (s : Scanner) (t : Token) (after : Cursor) : Scanner :=
  { s with tokens := t :: s.tokens, count := s.count + 1, cursor := after }

/-- Puts a token after the first `number` ones. -/
def insert (s : Scanner) (number : Nat) (t : Token) : Scanner :=
  let later := s.count - number
  { s with tokens := s.tokens.take later ++ t :: s.tokens.drop later, count := s.count + 1 }

/-- Closes the blocks that are indented deeper than a column, or all of them. -/
def closeBlocks (s : Scanner) (column : Option Nat) : Scanner :=
  if s.flow then s
  else
    let closed := (s.indents.takeWhile fun i => column.all (· < i)).length
    { s with
      tokens := List.replicate closed .blockEnd ++ s.tokens, count := s.count + closed
      indents := s.indents.drop closed, depth := s.depth - closed }

/-- Opens a block at a column with a token after the first `number` ones, if the column is deeper than
the block around it. -/
def openBlock (s : Scanner) (column number : Nat) (t : Token) : Option Scanner :=
  if s.flow || ! s.indents.head?.all (· < column) then some s
  else if maxDepth ≤ s.depth then none
  else some ({ s with indents := column :: s.indents, depth := s.depth + 1 }.insert number t)

def dropKey (s : Scanner) : Option Scanner :=
  if s.key.any (·.required) then none else some { s with key := none }

/-- Makes the next token a candidate, where a key may stand. It must be a key if it is as deep as the
block around it. -/
def saveKey (s : Scanner) : Option Scanner :=
  if ! s.keyAllowed then some s
  else do
    let p := s.cursor
    let s ← s.dropKey
    return { s with
      hadKey := true
      key := some {
        required := ! s.flow && s.indents.head? == some p.column
        number := s.count, index := p.index, line := p.line, column := p.column } }

/-- A token that starts something outside of all blocks. -/
def atTop (s : Scanner) (t : Token) (after : Cursor) : Option Scanner := do
  let s ← (s.closeBlocks none).dropKey
  return { s with keyAllowed := false }.push t after

def openBracket (s : Scanner) (t : Token) : Option Scanner := do
  let s ← s.saveKey
  if maxDepth ≤ s.brackets then none
  return { s with
    key := none, hadKey := false, brackets := s.brackets + 1
    outer := { key := s.key, hadKey := s.hadKey, number := s.count } :: s.outer
    keyAllowed := true }.push t s.cursor.skip

def closeBracket (s : Scanner) (t : Token) : Option Scanner := do
  let s ← s.dropKey
  let s := match s.outer with
    | [] => s
    | o :: outer =>
      { s with
        key := o.keyAfter s.hadKey, hadKey := o.hadKey, outer, brackets := s.brackets - 1 }
  return { s with keyAllowed := false }.push t s.cursor.skip

def comma (s : Scanner) : Option Scanner := do
  let s ← s.dropKey
  return { s with keyAllowed := true }.push .flowEntry s.cursor.skip

def dash (s : Scanner) : Option Scanner := do
  if ! s.flow && ! s.keyAllowed then none
  let s ← s.openBlock s.cursor.column s.count .blockSequenceStart
  let s ← s.dropKey
  return { s with keyAllowed := true }.push .blockEntry s.cursor.skip

def question (s : Scanner) : Option Scanner := do
  if ! s.flow && ! s.keyAllowed then none
  let s ← s.openBlock s.cursor.column s.count .blockMappingStart
  let s ← s.dropKey
  return { s with keyAllowed := ! s.flow }.push .key s.cursor.skip

/-- How many tokens can be used so far. A token is only used when two more are there, and not while
it is waited for whether it is a key. -/
def usable (s : Scanner) : Nat :=
  let candidates := (s.key :: s.outer.map Outside.key).filterMap fun k =>
    k.bind fun k => if k.waiting && k.isValid s.cursor then some k.number else none
  candidates.foldl min (s.count - 2)

/-- Makes a candidate a key, which is perhaps the first one of a block. If its token has been used
already, what belongs in front of it comes too late. -/
def makeKey (s : Scanner) (k : KeyCandidate) : Option Scanner :=
  if k.number < s.usable then
    let s := s.insert s.count .key
    s.openBlock k.column s.count .blockMappingStart
  else (s.insert k.number .key).openBlock k.column k.number .blockMappingStart

/-- A colon. If there is a candidate it is a key now. -/
def colon (s : Scanner) : Option Scanner := do
  let p := s.cursor
  match s.key with
  | some k =>
    if k.isValid p then
      let s ← s.makeKey k
      return { s with key := none, keyAllowed := false }.push .value p.skip
    if k.required then none
  | none => pure ()
  if ! s.flow && ! s.keyAllowed then none
  let s ← s.openBlock p.column s.count .blockMappingStart
  return { s with key := none, keyAllowed := ! s.flow }.push .value p.skip

/-- A token that can start a key. -/
def keyStart (s : Scanner) (token : Option (Token × Cursor)) : Option Scanner := do
  let s ← s.saveKey
  let (t, after) ← token
  return { s with keyAllowed := false }.push t after

/-- A scalar that can be a key. A key may follow it on the next line. -/
def scalar (s : Scanner) (style : Style) (scanned : Option Scanned) : Option (Scanner × Bool) := do
  let s ← s.saveKey
  let found ← scanned
  return ({ s with keyAllowed := found.fresh }.push (.scalar style found.text) found.after,
    ! found.fresh)

def block (s : Scanner) (literal : Bool) : Option (Scanner × Bool) := do
  let s ← s.dropKey
  let found ← s.cursor.block literal s.indents.head?
  return ({ s with keyAllowed := true }.push (.scalar .marked found.text) found.after, false)

/-- Whether a plain scalar can start with a character before `rest`. -/
def startsPlain (c : Char) (rest : List Char) : Bool :=
  if c == '-' then ! rest.head?.any isBlank
  else if c == '?' || c == ':' then ! startsBlank rest
  else ! (isBlank c || isBreak c || ",[]\x7b\x7d#&*!|>'\"%@\x60".toList.contains c)

/-- Scans a token that starts with `c` before `rest`, and tells whether a comment may follow. -/
def token (s : Scanner) (c : Char) (rest : List Char) : Option (Scanner × Bool) :=
  let p := s.cursor
  let plain := fun s : Option Scanner => s.map (·, true)
  match c with
  | '[' => plain (s.openBracket .flowSequenceStart)
  | '\x7b' => plain (s.openBracket .flowMappingStart)
  | ']' => plain (s.closeBracket .flowSequenceEnd)
  | '\x7d' => plain (s.closeBracket .flowMappingEnd)
  | ',' => plain s.comma
  | '*' => plain (s.keyStart (p.name.map fun (name, after) => (.reference name, after)))
  | '&' => plain (s.keyStart (p.name.map fun (name, after) => (.anchor name, after)))
  | '!' => plain (s.keyStart p.tag)
  | '\'' => s.scalar .marked (p.quoted false)
  | '"' => s.scalar .marked (p.quoted true)
  | c =>
    if c == '-' && startsBlank rest then s.dash.map (·, false)
    else if c == '?' && (s.flow || startsBlank rest) then plain s.question
    else if c == ':' && (s.flow || startsBlank rest) then plain s.colon
    else if c == '|' && ! s.flow then s.block true
    else if c == '>' && ! s.flow then s.block false
    else if startsPlain c rest then
      s.scalar .plain (p.plain s.flow ((s.indents.head?.map (· + 1)).getD 0))
    else none

/-- Scans the next token, or the end of the text. -/
def next (s : Scanner) : Option Scanner :=
  let p := s.cursor
  match p.rest with
  | [] => s.atTop .streamEnd p
  | c :: rest =>
    if p.column == 0 && c == '%' then
      p.directive.bind fun (t, after) => s.atTop t after
    else if p.column == 0 && startsMarker '-' p.rest then s.atTop .documentStart (p.skips 3)
    else if p.column == 0 && startsMarker '.' p.rest then s.atTop .documentEnd (p.skips 3)
    else
      (s.token c rest).map fun (s, comment) =>
        if comment then { s with cursor := s.cursor.skipComment } else s

/-- One step of scanning: white space, the ends of blocks, and a token. If the text is cut off, what
is behind its end must not be needed. -/
def step (cut : Bool) (s : Scanner) : Option Scanner := do
  let (keyAllowed, p) := skipWhite s.flow .blank s.keyAllowed s.cursor s.cursor.rest
  if cut && (p.rest.drop 3).isEmpty then none
  let s ← ({ s with cursor := p, keyAllowed }.closeBlocks (some p.column)).next
  if cut && s.cursor.rest.isEmpty then none else some s

/-- Scans up to `fuel` tokens, and tells whether the last one is the end of the text. -/
def run (cut : Bool) : (fuel : Nat) → Scanner → Scanner × Bool
  | 0, s => (s, false)
  | fuel + 1, s =>
    match s.step cut with
    | none => (s, false)
    | some s => if s.tokens.head? == some .streamEnd then (s, true) else run cut fuel s

end Scanner

/-- The tokens of a text. What cannot be scanned is a fault at the end. -/
def tokens (source : Source) : List Token :=
  let start : Scanner := { cursor := { rest := source.chars } }
  let (s, complete) := start.run source.cut (source.chars.length + 1)
  if complete then s.tokens.reverse else s.tokens.reverse.take s.usable ++ [.fault]

end ShaderGraft.Yaml
