import ShaderGraft.Text.Glyph

/-!
The characters of a YAML text. A byte order mark in front tells UTF-16 from UTF-8. The text is
decoded in pieces of 512 bytes as reading goes on, so a fault in a piece only matters to a reader
that gets there, and then hides the whole piece.
-/

namespace ShaderGraft.Yaml

/-- How characters are written as bytes. -/
inductive Encoding where
  | utf8
  | utf16Little
  | utf16Big
deriving DecidableEq, Repr

/-- The characters of a text up to the first piece with a fault. -/
structure Source where
  chars : List Char
  /-- Whether there is such a piece. -/
  cut : Bool
deriving DecidableEq, Repr

namespace Source

/-- The encoding of a text, and the number of bytes of its byte order mark. -/
def encoding : Bytes → Encoding × Nat
  | 0xFF :: 0xFE :: _ => (.utf16Little, 2)
  | 0xFE :: 0xFF :: _ => (.utf16Big, 2)
  | 0xEF :: 0xBB :: 0xBF :: _ => (.utf8, 3)
  | _ => (.utf8, 0)

/-- Whether a character may stand in a text. -/
def isAllowed (c : Char) : Bool :=
  let n := c.toNat
  n == 9 || n == 10 || n == 13 || (32 ≤ n && n ≤ 126) || n == 0x85 ||
    (0xA0 ≤ n && n != 0xFFFE && n != 0xFFFF)

def char? (n : Nat) : Option Char :=
  if h : n.isValidChar then some (Char.ofNatAux n h) else none

/-- The character of the UTF-16 units at the start, and how many bytes it takes after the first. -/
def leadingUnits? (unit : UInt8 → UInt8 → Nat) (a : UInt8) : Bytes → Option (Char × Nat)
  | [] => none
  | b :: rest =>
    let high := unit a b
    if high / 0x400 == 0x36 then
      match rest with
      | c :: d :: _ =>
        let low := unit c d
        if low / 0x400 == 0x37 then
          (char? (0x10000 + high % 0x400 * 0x400 + low % 0x400)).map (·, 3)
        else none
      | _ => none
    else (char? high).map (·, 1)

/-- The character at the start of a text, and how many bytes it takes after the first. -/
def leading? : Encoding → UInt8 → Bytes → Option (Char × Nat)
  | .utf8, a, rest => Text.leading? a rest
  | .utf16Little, a, rest => leadingUnits? (fun x y => x.toNat + y.toNat * 256) a rest
  | .utf16Big, a, rest => leadingUnits? (fun x y => x.toNat * 256 + y.toNat) a rest

def pieceSize : Nat := 512

/-- Decodes a text. The first `skip` bytes are already accounted for, `room` is how many bytes fit
into the piece that is decoded now, and `piece` and `before` are the characters of that piece and of
those before it, backwards. -/
def decode (e : Encoding) : (skip room : Nat) → (piece before : List Char) → Bytes → Source
  | _, _, piece, before, [] => { chars := (piece ++ before).reverse, cut := false }
  | skip + 1, room, piece, before, _ :: rest => decode e skip room piece before rest
  | 0, room, piece, before, a :: rest =>
    match leading? e a rest with
    | some (c, n) =>
      if n + 1 ≤ room then
        if isAllowed c then decode e n (room - (n + 1)) (c :: piece) before rest
        else { chars := before.reverse, cut := true }
      else
        if isAllowed c then decode e n (pieceSize - (n + 1)) [c] (piece ++ before) rest
        else { chars := (piece ++ before).reverse, cut := true }
    | none => { chars := before.reverse, cut := true }

/-- Writes every carriage return, alone or before a newline, as a newline. -/
def unifyBreaks : (done : List Char) → List Char → List Char
  | done, [] => done.reverse
  | done, '\x0d' :: '\n' :: rest => unifyBreaks ('\n' :: done) rest
  | done, '\x0d' :: rest => unifyBreaks ('\n' :: done) rest
  | done, c :: rest => unifyBreaks (c :: done) rest

def ofBytes (bs : Bytes) : Source :=
  let (e, mark) := encoding bs
  let source := decode e mark (pieceSize - mark) [] [] bs
  { source with chars := unifyBreaks [] source.chars }

end Source

end ShaderGraft.Yaml
