import ShaderGraft.Word

/-!
Bytes written in base 64, with padding.
-/

namespace ShaderGraft.Text

/-- The value of a digit in base 64. -/
def base64Value? (c : Char) : Option Nat :=
  if 'A' ≤ c ∧ c ≤ 'Z' then some (c.toNat - 65)
  else if 'a' ≤ c ∧ c ≤ 'z' then some (c.toNat - 71)
  else if '0' ≤ c ∧ c ≤ '9' then some (c.toNat + 4)
  else if c == '+' then some 62
  else if c == '/' then some 63
  else none

/-- The bytes of groups of four digits. The last group may be padded, and then the bits that make no
byte do not matter. -/
def base64Groups? : List Char → Option Bytes
  | [] => some []
  | [a, b, '=', '='] => do
    let n := (← base64Value? a) * 64 + (← base64Value? b)
    return [(n / 16).toUInt8]
  | [a, b, c, '='] => do
    let n := ((← base64Value? a) * 64 + (← base64Value? b)) * 64 + (← base64Value? c)
    return [(n / 1024).toUInt8, (n / 4).toUInt8]
  | a :: b :: c :: d :: rest => do
    let n := (((← base64Value? a) * 64 + (← base64Value? b)) * 64 + (← base64Value? c)) * 64 +
      (← base64Value? d)
    let more ← base64Groups? rest
    return (n / 65536).toUInt8 :: (n / 256).toUInt8 :: n.toUInt8 :: more
  | _ => none

/-- The bytes of a text in base 64, which may be broken into lines. -/
def base64? (cs : List Char) : Option Bytes :=
  base64Groups? (cs.filter fun c => c != '\n' && c != '\r')

end ShaderGraft.Text
