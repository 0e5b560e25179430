import ShaderGraft.Numeric.Extrema

/-!
Sine, cosine and tangent in single precision, for arguments below 2^29. The argument is reduced by
the nearest even multiple of a quarter of π, which is subtracted in three parts, and a polynomial of
the remainder is taken. Every operation rounds to single precision.
-/

namespace ShaderGraft.Numeric

/-- A polynomial by its coefficients, the highest first. -/
def horner (coefficients : List UInt32) (x : Float32) : Float32 :=
  match coefficients with
  | [] => 0
  | c :: cs => cs.foldl (fun acc b => acc * x + Float32.ofBits b) (Float32.ofBits c)

/-- An argument without its sign, as an octant and the distance from it. -/
structure Reduced where
  octant : Nat
  rest : Float32

def reduce (x : Float32) : Reduced :=
  let j := (x * Float32.ofBits 0x3fa2f983).toUInt64.toNat
  let (j, y) :=
    if j % 2 == 1 then (j + 1, j.toUInt64.toFloat32 + 1) else (j, j.toUInt64.toFloat32)
  { octant := j
    rest := ((x - y * Float32.ofBits 0x3f490fda) - y * Float32.ofBits 0x33222168) -
      y * Float32.ofBits 0x274234c5 }

def sineCoefficients : List UInt32 :=
  [0x2f2ec7e9, 0xb2d72f2d, 0x3638ef1b, 0xb9500d01, 0x3c088889, 0xbe2aaaab]

def cosineCoefficients : List UInt32 :=
  [0xad47d24d, 0x310f74ec, 0xb493f27c, 0x37d00d01, 0xbab60b61, 0x3d2aaaab]

def smallSine (z : Float32) : Float32 :=
  let zz := z * z
  z + (z * zz) * horner sineCoefficients zz

def smallCosine (z : Float32) : Float32 :=
  let zz := z * z
  (1 - 0.5 * zz) + (zz * zz) * horner cosineCoefficients zz

def smallTangent (z : Float32) : Float32 :=
  let zz := z * z
  if zz > Float32.ofBits 0x283424dc then
    z + z * ((zz * horner [0xc64c96c7, 0x498ccf65, 0xcb88ff57] zz) /
      horner [0x3f800000, 0x4655c52f, 0xc9a13de3, 0x4bbecc7e, 0xcc4d7f02] zz)
  else z

def isInfinite (x : Float32) : Bool :=
  x == positiveInfinity || x == negativeInfinity

def negateIf (negative : Bool) (x : Float32) : Float32 :=
  if negative then -x else x

def sin (x : Float32) : Float32 :=
  if x == 0 || x.isNaN then x
  else if isInfinite x then notANumber
  else
    let r := reduce (abs x)
    let j := r.octant % 8
    let flipped := j > 3
    let j := if flipped then j - 4 else j
    let y := if j == 1 || j == 2 then smallCosine r.rest else smallSine r.rest
    negateIf (signBit x != flipped) y

def cos (x : Float32) : Float32 :=
  if x.isNaN || isInfinite x then notANumber
  else
    let r := reduce (abs x)
    let j := r.octant % 8
    let flipped := j > 3
    let j := if flipped then j - 4 else j
    let flipped := flipped != decide (j > 1)
    let y := if j == 1 || j == 2 then smallSine r.rest else smallCosine r.rest
    negateIf flipped y

def tan (x : Float32) : Float32 :=
  if x == 0 || x.isNaN then x
  else if isInfinite x then notANumber
  else
    let r := reduce (abs x)
    let y := smallTangent r.rest
    let y := if r.octant % 4 ≥ 2 then -1 / y else y
    negateIf (signBit x) y

end ShaderGraft.Numeric
