import ShaderGraft.Text.Number
import ShaderGraft.Yaml.Token

/-!
Names and tags of nodes, and the directives before a document.
-/

namespace ShaderGraft.Yaml

open Text (hexValue?)

/-- Whether a character may stand in the address part of a tag. -/
def isAddressChar (c : Char) : Bool :=
  isWordChar c || ";/?:@&=+$,.!~*'()[]%".toList.contains c

/-- The byte at the start of a text that is written with a percent sign. -/
def percentByte? : List Char → Option Nat
  | '%' :: a :: b :: _ => do return (← hexValue? a) * 16 + (← hexValue? b)
  | _ => none

/-- The number of bytes of a character, by the first of them. -/
def byteWidth? (b : Nat) : Option Nat :=
  if b < 0x80 then some 1
  else if b < 0xC0 then none
  else if b < 0xE0 then some 2
  else if b < 0xF0 then some 3
  else if b < 0xF8 then some 4
  else none

/-- Reads `n` more bytes of a character that are written with percent signs, and its bits so far. -/
def percentTail : (n : Nat) → (bits : Nat) → List Char → Option Char
  | 0, bits, _ => some (Char.ofNat bits)
  | n + 1, bits, cs => do
    let b ← percentByte? cs
    if b / 64 != 2 then none
    percentTail n (bits * 64 + b % 64) (cs.drop 3)

/-- The character at the start of a text that is written with percent signs, and the number of its
bytes. -/
def percentChar (cs : List Char) : Option (Char × Nat) := do
  let b ← percentByte? cs
  let width ← byteWidth? b
  let bits := if width == 1 then b else b % (128 >>> width)
  return (← percentTail (width - 1) bits (cs.drop 3), width)

/-- Reads the address part of a tag. The first `skip` characters are already accounted for. -/
def addressFrom (done : List Char) (p : Cursor) :
    (skip : Nat) → List Char → Option (List Char × Cursor)
  | _, [] => some (done.reverse, { p with rest := [] })
  | skip + 1, c :: rest => addressFrom done (p.past c rest) skip rest
  | 0, c :: rest =>
    if c == '%' then
      match percentChar (c :: rest) with
      | none => none
      | some (d, width) => addressFrom (d :: done) (p.past c rest) (3 * width - 1) rest
    else if isAddressChar c then addressFrom (c :: done) (p.past c rest) 0 rest
    else some (done.reverse, { p with rest := c :: rest })

def address (p : Cursor) : Option (List Char × Cursor) :=
  addressFrom [] p 0 p.rest

/-- Reads what may be the handle of a tag: an exclamation mark, word characters, and perhaps another
exclamation mark. -/
def tagHandle (p : Cursor) : Option (List Char × Cursor) :=
  if p.rest.head? != some '!' then none
  else
    let (word, p) := p.skip.span isWordChar
    if p.rest.head? == some '!' then some ('!' :: word ++ ['!'], p.skip)
    else some ('!' :: word, p)

/-- Reads a tag: an address in angle brackets, a handle and an address, or an exclamation mark and an
address. -/
def Cursor.tag (p : Cursor) : Option (Token × Cursor) := do
  let (token, after) ←
    if p.rest[1]? == some '<' then do
      let (suffix, q) ← address (p.skips 2)
      if suffix.isEmpty || q.rest.head? != some '>' then none
      pure (Token.tag [] suffix, q.skip)
    else do
      let (handle, q) ← tagHandle p
      let (suffix, q') ← address q
      if 1 < handle.length && handle.getLast? == some '!' then
        if suffix.isEmpty then none
        pure (Token.tag handle suffix, q')
      else
        let suffix := handle.drop 1 ++ suffix
        pure (if suffix.isEmpty then Token.tag [] ['!'] else Token.tag ['!'] suffix, q')
  if startsBlank after.rest then some (token, after) else none

/-- Reads the name after the sign of an anchor or a reference. -/
def Cursor.name (p : Cursor) : Option (List Char × Cursor) :=
  let (name, after) := p.skip.span isWordChar
  let ended := startsBlank after.rest || after.rest.head?.any "?:,]\x7d%@\x60".toList.contains
  if name.isEmpty || ! ended then none else some (name, after)

/-- Reads a number of one or two digits. -/
def versionNumber (p : Cursor) : Option (Nat × Cursor) :=
  let (digits, after) := p.span Char.isDigit
  if digits.isEmpty || 2 < digits.length then none
  else some (digits.foldl (fun n c => n * 10 + (c.toNat - 48)) 0, after)

/-- Reads a directive and the rest of its line. -/
def Cursor.directive (p : Cursor) : Option (Token × Cursor) := do
  let (name, p) := p.skip.span isWordChar
  if name.isEmpty || ! startsBlank p.rest then none
  let p := p.skipWhile isBlank
  let (token, p) ←
    match String.ofList name with
    | "YAML" => do
      let (major, p) ← versionNumber p
      if p.rest.head? != some '.' then none
      let (minor, p) ← versionNumber p.skip
      pure (Token.versionDirective major minor, p)
    | "TAG" => do
      let (handle, p) ← tagHandle p
      if handle != ['!'] && (handle.length < 2 || handle.getLast? != some '!') then none
      if ! p.rest.head?.any isBlank then none
      let (start, p) ← address (p.skipWhile isBlank)
      if start.isEmpty || ! startsBlank p.rest then none
      pure (Token.tagDirective handle start, p)
    | _ => none
  let p := p.skipWhile isBlank
  let p := if p.rest.head? == some '#' then p.skipLine else p
  if p.rest.head?.all isBreak then some (token, p.skip) else none

end ShaderGraft.Yaml
