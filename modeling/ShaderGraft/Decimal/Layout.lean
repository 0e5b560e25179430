import ShaderGraft.Decimal.Shortest

/-!
Floating point numbers in text. Values whose leading digit stands between 10^-4 and 10^5 are written
positionally and the others with a signed exponent of at least two digits; there is no point without
a digit after it.
-/

namespace ShaderGraft.Decimal

/-- Which exponents of the leading digit are written positionally, and how wide an exponent is. -/
structure NumberStyle where
  plainFrom : Int
  plainBelow : Int
  exponentWidth : Nat

/-- The style of all numbers in messages and listings. -/
def numberStyle : NumberStyle where
  plainFrom := -4
  plainBelow := 6
  exponentWidth := 2

/-- A digit string and the exponent of its first digit. -/
structure Significand where
  digits : List Char
  exponent : Int

/-- The digits of a decimal without zeros at the end. -/
def Scaled.significand (d : Scaled) : Significand :=
  let digits := (toString d.digits).toList
  { digits := (digits.reverse.dropWhile (· == '0')).reverse
    exponent := d.exponent + digits.length - 1 }

/-- Digits with a point after the first `whole` of them, if any follow. -/
def withPoint (whole : Nat) (digits : List Char) : List Char :=
  match digits.drop whole with
  | [] => digits
  | fraction => digits.take whole ++ '.' :: fraction

/-- `n` in decimal with at least `width` digits. -/
def padded (width n : Nat) : List Char :=
  let digits := (toString n).toList
  List.replicate (width - digits.length) '0' ++ digits

namespace NumberStyle

/-- A positive number in the given style. -/
def layout (style : NumberStyle) (s : Significand) : List Char :=
  if s.exponent < style.plainFrom || style.plainBelow ≤ s.exponent then
    withPoint 1 s.digits ++ 'e' :: (if s.exponent < 0 then '-' else '+') ::
      padded style.exponentWidth s.exponent.natAbs
  else if s.exponent < 0 then
    '0' :: '.' :: List.replicate (s.exponent.natAbs - 1) '0' ++ s.digits
  else
    let whole := s.exponent.toNat + 1
    withPoint whole (s.digits ++ List.replicate (whole - s.digits.length) '0')

end NumberStyle

/-- The text of a bit pattern of the given format. -/
def text (fmt : FloatFormat) (bits : Nat) : String :=
  let signed := fun (negative : Bool) (digits : List Char) =>
    String.ofList (if negative then '-' :: digits else digits)
  match FloatClass.ofBits fmt bits with
  | .nan => "NaN"
  | .infinite negative => if negative then "-Inf" else "+Inf"
  | .zero negative => signed negative ['0']
  | .finite negative x => signed negative (numberStyle.layout x.shortest.significand)

/-- The text of a 32-bit float. -/
def single (x : Float32) : String :=
  text .single x.toBits.toNat

/-- The text of a 64-bit float. -/
def double (x : Float) : String :=
  text .double x.toBits.toNat

end ShaderGraft.Decimal
