/-!
Numbers in text: decimal and hexadecimal digits, and ids with their percent sign.
-/

namespace ShaderGraft.Text

/-- One hexadecimal digit, lower case. -/
def hexDigit (n : Nat) : Char :=
  if n < 10 then Char.ofNat (48 + n) else Char.ofNat (87 + n)

/-- The lowest `width` hexadecimal digits of `n`. -/
def hexDigits : (width : Nat) → Nat → List Char
  | 0, _ => []
  | width + 1, n => hexDigits width (n / 16) ++ [hexDigit (n % 16)]

/-- The value of a hexadecimal digit. -/
def hexValue? (c : Char) : Option Nat :=
  if '0' ≤ c ∧ c ≤ '9' then some (c.toNat - 48)
  else if 'a' ≤ c ∧ c ≤ 'f' then some (c.toNat - 87)
  else if 'A' ≤ c ∧ c ≤ 'F' then some (c.toNat - 55)
  else none

/-- `n` in lower case hexadecimal without leading zeros. -/
def hex (n : UInt32) : String :=
  let digits := (hexDigits 8 n.toNat).dropWhile (· == '0')
  if digits.isEmpty then "0" else String.ofList digits

/-- `n` as all eight hexadecimal digits after `0x`. -/
def hexWord (n : UInt32) : String :=
  "0x" ++ String.ofList (hexDigits 8 n.toNat)

/-- An id as it is written in listings and messages. -/
def idText (id : UInt32) : String :=
  "%" ++ toString id

end ShaderGraft.Text
