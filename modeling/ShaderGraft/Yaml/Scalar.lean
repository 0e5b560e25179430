import ShaderGraft.Text.Number
import ShaderGraft.Yaml.Token

/-!
Scalars as they are written: plain, in single or double quotes, or as a block of lines. Over several
lines, plain and quoted scalars are folded: a single line break is a blank, and of more than one all
but the first are kept.
-/

namespace ShaderGraft.Yaml

open Text (hexValue?)

/-- White space inside a scalar, before it is known whether anything follows. Texts are backwards. -/
inductive Gap where
  | none
  | blanks (text : List Char)
  | lines (first : Char) (more : List Char)
  /-- A line break that is left out, and those after it. -/
  | joined (more : List Char)
deriving DecidableEq, Repr

namespace Gap

/-- The gap with one more blank. Blanks at the start of a line do not count. -/
def blank (c : Char) : Gap → Gap
  | .none => .blanks [c]
  | .blanks text => .blanks (c :: text)
  | gap => gap

def newline (c : Char) : Gap → Gap
  | .none | .blanks _ => .lines (breakText c) []
  | .lines first more => .lines first (breakText c :: more)
  | .joined more => .joined (breakText c :: more)

/-- Whether a gap holds a line break. -/
def isOpen : Gap → Bool
  | .none | .blanks _ => false
  | .lines _ _ | .joined _ => true

/-- What is written for a gap, backwards. -/
def text : Gap → List Char
  | .none => []
  | .blanks text => text
  | .lines '\n' [] => [' ']
  | .lines '\n' more => more
  | .lines first more => more ++ [first]
  | .joined more => more

end Gap

/-- A scalar, the position after it, and whether that is at the start of a line. -/
structure Scanned where
  text : List Char
  after : Cursor
  fresh : Bool := false
deriving DecidableEq, Repr

/-- Whether a character, with what follows it, ends a plain scalar. -/
def endsPlain (flow : Bool) (c : Char) (rest : List Char) : Bool :=
  (c == ':' && startsBlank rest) || (flow && ",?[]\x7b\x7d".toList.contains c)

/-- Whether a plain scalar stops after a gap. Lines of it are indented by `indent` at least, except
between brackets. -/
def stopsPlain (flow : Bool) (indent column : Nat) (cs : List Char) : Bool :=
  (! flow && column < indent) || (column == 0 && atMarker cs) || cs.head? == some '#'

/-- Scans a plain scalar. `done` is the text so far, backwards, without the gap after it. There is no
result if a tab stands where a line must be indented. -/
def plainFrom (flow : Bool) (indent : Nat) (gap : Gap) (done : List Char) (p : Cursor) :
    List Char → Option Scanned
  | [] => some { text := done.reverse, after := { p with rest := [] }, fresh := gap.isOpen }
  | c :: rest =>
    if isBlank c then
      if gap.isOpen && p.column < indent && c == '\t' then none
      else plainFrom flow indent (gap.blank c) done (p.past c rest) rest
    else if isBreak c then plainFrom flow indent (gap.newline c) done (p.past c rest) rest
    else if (gap != .none && stopsPlain flow indent p.column (c :: rest)) ||
        endsPlain flow c rest then
      some { text := done.reverse, after := { p with rest := c :: rest }, fresh := gap.isOpen }
    else plainFrom flow indent .none (c :: (gap.text ++ done)) (p.past c rest) rest

def Cursor.plain (flow : Bool) (indent : Nat) (p : Cursor) : Option Scanned :=
  plainFrom flow indent .none [] p p.rest

def hexChar? (digits : List Char) : Option Char := do
  let n ← digits.foldlM (fun n c => (hexValue? c).map (n * 16 + ·)) 0
  if h : n.isValidChar then some (Char.ofNatAux n h) else none

/-- The number of hexadecimal digits after an escape letter. -/
def hexEscapeWidth? : Char → Option Nat
  | 'x' => some 2
  | 'u' => some 4
  | 'U' => some 8
  | _ => none

/-- The character of an escape letter that takes no digits. -/
def escape? : Char → Option Char
  | '0' => some (Char.ofNat 0)
  | 'a' => some (Char.ofNat 7)
  | 'b' => some (Char.ofNat 8)
  | 't' | '\t' => some '\t'
  | 'n' => some '\n'
  | 'v' => some (Char.ofNat 11)
  | 'f' => some (Char.ofNat 12)
  | 'r' => some (Char.ofNat 13)
  | 'e' => some (Char.ofNat 27)
  | ' ' => some ' '
  | '"' => some '"'
  | '\'' => some '\''
  | '\\' => some '\\'
  | 'N' => some (Char.ofNat 0x85)
  | '_' => some (Char.ofNat 0xA0)
  | 'L' => some (Char.ofNat 0x2028)
  | 'P' => some (Char.ofNat 0x2029)
  | _ => none

/-- What the character after a backslash asks for. -/
inductive Escape where
  | newline
  | char (c : Char)
  | code (width : Nat)

def Escape.of? (c : Char) : Option Escape :=
  if isBreak c then some .newline
  else match escape? c, hexEscapeWidth? c with
    | some c, _ => some (.char c)
    | none, some width => some (.code width)
    | none, none => none

/-- Scans a scalar in quotes, from the text after the first one. The first `skip` characters are
already accounted for. There is no result if the closing quote is missing, a document marker comes
first, or an escape has no meaning. -/
def quotedFrom (double : Bool) (gap : Gap) (done : List Char) (p : Cursor) :
    (skip : Nat) → List Char → Option Scanned
  | _, [] => none
  | skip + 1, c :: rest => quotedFrom double gap done (p.past c rest) skip rest
  | 0, c :: rest =>
    let here := gap.text ++ done
    let next := p.past c rest
    if isBlank c then quotedFrom double (gap.blank c) done next 0 rest
    else if isBreak c then quotedFrom double (gap.newline c) done next 0 rest
    else if p.column == 0 && atMarker (c :: rest) then none
    else if double then
      if c == '"' then some { text := here.reverse, after := next }
      else if c == '\\' then
        match rest.head?.bind Escape.of? with
        | none => none
        | some .newline => quotedFrom double (.joined []) here next 1 rest
        | some (.char e) => quotedFrom double .none (e :: here) next 1 rest
        | some (.code width) =>
          let digits := (rest.drop 1).take width
          if digits.length < width then none
          else match hexChar? digits with
            | some e => quotedFrom double .none (e :: here) next (width + 1) rest
            | none => none
      else quotedFrom double .none (c :: here) next 0 rest
    else if c == '\'' then
      if rest.head? == some '\'' then quotedFrom double .none ('\'' :: here) next 1 rest
      else some { text := here.reverse, after := next }
    else quotedFrom double .none (c :: here) next 0 rest

def Cursor.quoted (double : Bool) (p : Cursor) : Option Scanned :=
  quotedFrom double .none [] p.skip 0 p.skip.rest

/-- The line breaks and indentation between the lines of a block. -/
structure BlockGap where
  /-- The line breaks, backwards. -/
  breaks : List Char
  /-- The deepest indentation. -/
  deepest : Nat
  after : Cursor

/-- Scans the white space between the lines of a block that is indented by `indent`, or by any amount
if that is zero. There is no result if a tab stands in the indentation. -/
def blockGapFrom (indent deepest : Nat) (breaks : List Char) (p : Cursor) :
    List Char → Option BlockGap
  | [] => some { breaks, deepest := max deepest p.column, after := { p with rest := [] } }
  | c :: rest =>
    let outside := indent == 0 || p.column < indent
    if outside && c == ' ' then blockGapFrom indent deepest breaks (p.past c rest) rest
    else
      let deepest := max deepest p.column
      if outside && c == '\t' then none
      else if isBreak c then
        blockGapFrom indent deepest (breakText c :: breaks) (p.past c rest) rest
      else some { breaks, deepest, after := { p with rest := c :: rest } }

/-- What happens to the line breaks at the end of a block. -/
inductive Chomping where
  | strip
  | clip
  | keep
deriving DecidableEq, Repr

/-- A block so far: its text, the break of its last line, and the breaks after that, all backwards. -/
structure Lines where
  text : List Char := []
  lineEnd : List Char := []
  breaks : List Char := []
  /-- Whether the last line started with a blank. -/
  indented : Bool := false

/-- The block with the next line started. When lines are folded, a line break between two lines that
start with no blank is a blank, or nothing if more breaks follow. -/
def Lines.startLine (literal : Bool) (b : Lines) (blank : Bool) : Lines :=
  let folds := ! literal && ! b.indented && ! blank && b.lineEnd == ['\n']
  let glue := if folds then if b.breaks.isEmpty then [' '] else [] else b.lineEnd
  { text := b.breaks ++ glue ++ b.text, indented := blank }

/-- Scans the lines of a block that is indented by `indent`, from inside a line or from the white
space before one. There is no result if a tab stands in the indentation. -/
def blockLines (literal : Bool) (indent : Nat) (inLine : Bool) (b : Lines) (p : Cursor) :
    List Char → Option (Lines × Cursor)
  | [] => some (b, { p with rest := [] })
  | c :: rest =>
    let next := p.past c rest
    if inLine then
      if isBreak c then blockLines literal indent false { b with lineEnd := [breakText c] } next rest
      else blockLines literal indent true { b with text := c :: b.text } next rest
    else if p.column < indent && c == ' ' then blockLines literal indent false b next rest
    else if p.column < indent && c == '\t' then none
    else if isBreak c then
      blockLines literal indent false { b with breaks := breakText c :: b.breaks } next rest
    else if p.column != indent then some (b, { p with rest := c :: rest })
    else
      let b := b.startLine literal (isBlank c)
      blockLines literal indent true { b with text := c :: b.text } next rest

/-- The value of a digit from one to nine. -/
def indentDigit? (c : Char) : Option Nat :=
  if c.isDigit && c != '0' then some (c.toNat - 48) else none

/-- The sign in the header of a block. -/
def chomping? : Char → Option Chomping
  | '+' => some .keep
  | '-' => some .strip
  | _ => none

/-- Reads the header of a block: a sign and a digit, in any order. A zero is not a digit here. -/
def blockHeader (p : Cursor) : Option (Chomping × Nat × Cursor) :=
  match p.rest with
  | [] => some (.clip, 0, p)
  | c :: _ =>
    match chomping? c with
    | some chomping =>
      match p.skip.rest.head? with
      | some '0' => none
      | some d => match indentDigit? d with
        | some n => some (chomping, n, p.skip.skip)
        | none => some (chomping, 0, p.skip)
      | none => some (chomping, 0, p.skip)
    | none =>
      if c == '0' then none
      else match indentDigit? c with
        | none => some (.clip, 0, p)
        | some n =>
          match p.skip.rest.head?.bind chomping? with
          | some chomping => some (chomping, n, p.skip.skip)
          | none => some (.clip, n, p.skip)

/-- Scans a block scalar below lines that are indented by `outer`, if by anything. -/
def Cursor.block (literal : Bool) (outer : Option Nat) (p : Cursor) : Option Scanned := do
  let (chomping, increment, p) ← blockHeader p.skip
  let p := p.skipWhile isBlank
  let p := if p.rest.head? == some '#' then p.skipLine else p
  if ! p.rest.head?.all isBreak then none
  let p := p.skip
  let given := if increment == 0 then 0 else outer.getD 0 + increment
  let gap ← blockGapFrom given 0 [] p p.rest
  let indent := if given == 0 then max gap.deepest (max 1 ((outer.map (· + 1)).getD 0)) else given
  let p := gap.after
  let (b, after) ← blockLines literal indent false { breaks := gap.breaks } p p.rest
  let ending := match chomping with
    | .strip => []
    | .clip => b.lineEnd
    | .keep => b.breaks ++ b.lineEnd
  return { text := (ending ++ b.text).reverse, after, fresh := true }

end ShaderGraft.Yaml
