/-!
The smaller and the larger of two single precision numbers, and the absolute value. An infinity in
its own direction wins over a number that is none, and the zeros are ordered by sign.
-/

namespace ShaderGraft.Numeric

def positiveInfinity : Float32 := Float32.ofBits 0x7f800000

def negativeInfinity : Float32 := Float32.ofBits 0xff800000

def notANumber : Float32 := Float32.ofBits 0x7fc00000

def signBit (x : Float32) : Bool :=
  x.toBits ≥ 0x80000000

/-- The number with its sign bit cleared. -/
def abs (x : Float32) : Float32 :=
  Float32.ofBits (x.toBits &&& 0x7fffffff)

def max (x y : Float32) : Float32 :=
  if x == positiveInfinity || y == positiveInfinity then positiveInfinity
  else if x.isNaN || y.isNaN then notANumber
  else if x == 0 && x == y then (if signBit x then y else x)
  else if x > y then x else y

def min (x y : Float32) : Float32 :=
  if x == negativeInfinity || y == negativeInfinity then negativeInfinity
  else if x.isNaN || y.isNaN then notANumber
  else if x == 0 && x == y then (if signBit x then x else y)
  else if x < y then x else y

end ShaderGraft.Numeric
