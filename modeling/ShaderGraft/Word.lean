/-!
Words and the bytes they are made of. A module is a stream of 32-bit words; on disk a word is four
bytes, in either byte order.
-/

namespace ShaderGraft

/-- A raw byte string. Names in a module are byte strings, which need not be valid UTF-8. -/
abbrev Bytes := List UInt8

/-- A 32-bit word of the binary form. -/
abbrev Word := UInt32

/-- The id an instruction's result is referred to by. Zero is never a valid id and stands for
"none". -/
abbrev ResultId := UInt32

/-- One more than the largest integer of 64 bits. -/
def int64Limit : Nat := 0x8000000000000000

/-- The UTF-8 bytes of a text. -/
def utf8 (s : String) : Bytes :=
  s.toUTF8.data.toList

namespace Word

/-- The four bytes of a word, least significant first. -/
def toBytes (w : Word) : Bytes :=
  [w.toUInt8, (w >>> 8).toUInt8, (w >>> 16).toUInt8, (w >>> 24).toUInt8]

/-- The word whose bytes are `a b c d`, least significant first. -/
def ofBytes (a b c d : UInt8) : Word :=
  a.toUInt32 ||| (b.toUInt32 <<< 8) ||| (c.toUInt32 <<< 16) ||| (d.toUInt32 <<< 24)

/-- The word with its four bytes in the opposite order. -/
def reverseBytes (w : Word) : Word :=
  ofBytes (w >>> 24).toUInt8 (w >>> 16).toUInt8 (w >>> 8).toUInt8 w.toUInt8

/-- The words of a byte string read least significant byte first. Up to three bytes at the end that
do not fill a word are left out. -/
def ofLittleEndian : Bytes → List Word
  | a :: b :: c :: d :: rest => ofBytes a b c d :: ofLittleEndian rest
  | _ => []

/-- The words of a byte string read most significant byte first. -/
def ofBigEndian : Bytes → List Word
  | a :: b :: c :: d :: rest => ofBytes d c b a :: ofBigEndian rest
  | _ => []

/-- The bytes of a word list, least significant first in each word. -/
def toLittleEndian (ws : List Word) : Bytes :=
  ws.flatMap toBytes

/-- The bytes of a word list, most significant first in each word. -/
def toBigEndian (ws : List Word) : Bytes :=
  ws.flatMap fun w => (toBytes w).reverse

end Word

end ShaderGraft
