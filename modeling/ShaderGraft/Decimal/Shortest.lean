/-!
The fewest decimal digits that read back as a given binary floating point number, and among those
the ones closest to it. All comparisons are exact, over natural numbers.
-/

namespace ShaderGraft.Decimal

/-- The widths of a binary floating point format: fraction bits and exponent bits. -/
structure FloatFormat where
  fraction : Nat
  exponent : Nat

namespace FloatFormat

/-- The 32-bit format. -/
def single : FloatFormat := ⟨23, 8⟩

/-- The 64-bit format. -/
def double : FloatFormat := ⟨52, 11⟩

/-- The amount that a stored exponent is too large by. -/
def bias (fmt : FloatFormat) : Nat :=
  Nat.pow 2 (fmt.exponent - 1) - 1

end FloatFormat

/-- A positive binary number `m * 2 ^ q`. -/
structure Binary where
  m : Nat
  q : Int
  /-- The gap to the number below is half the gap to the number above. -/
  narrowBelow : Bool

/-- What a bit pattern stands for. -/
inductive FloatClass where
  | nan
  | infinite (negative : Bool)
  | zero (negative : Bool)
  | finite (negative : Bool) (x : Binary)

/-- Reads a bit pattern of the given format. -/
def FloatClass.ofBits (fmt : FloatFormat) (bits : Nat) : FloatClass :=
  let f := bits % Nat.pow 2 fmt.fraction
  let e := bits / Nat.pow 2 fmt.fraction % Nat.pow 2 fmt.exponent
  let negative := bits / Nat.pow 2 (fmt.fraction + fmt.exponent) % 2 == 1
  let low : Int := 1 - (fmt.bias : Int) - fmt.fraction
  if e = Nat.pow 2 fmt.exponent - 1 then
    if f = 0 then .infinite negative else .nan
  else if e = 0 then
    if f = 0 then .zero negative else .finite negative ⟨f, low, false⟩
  else .finite negative ⟨Nat.pow 2 fmt.fraction + f, low + e - 1, f == 0 && e > 1⟩

/-- The decimal number `digits * 10 ^ exponent`. -/
structure Scaled where
  digits : Nat
  exponent : Int
deriving DecidableEq, Repr

/-- Compares `a * 10 ^ i` with `n * 2 ^ j`. -/
def compareScaled (a : Nat) (i : Int) (n : Nat) (j : Int) : Ordering :=
  compare (a * Nat.pow 10 i.toNat * Nat.pow 2 (-j).toNat)
    (n * Nat.pow 2 j.toNat * Nat.pow 10 (-i).toNat)

namespace Binary

/-- Whether the decimal is among the reals that round to `x`: those up to halfway to each neighbour,
the halfway points included exactly when `m` is even. -/
def readsBack (x : Binary) (d : Scaled) : Bool :=
  let low := if x.narrowBelow then 4 * x.m - 1 else 4 * x.m - 2
  let even := x.m % 2 == 0
  let atLow := compareScaled d.digits d.exponent low (x.q - 2)
  let atHigh := compareScaled d.digits d.exponent (4 * x.m + 2) (x.q - 2)
  (atLow == .gt || (even && atLow == .eq)) && (atHigh == .lt || (even && atHigh == .eq))

/-- The least `k` of `start, start + 1, …` with `x < 10 ^ k`, after at most `fuel` steps. -/
def scaleFrom (x : Binary) : (fuel : Nat) → (start : Int) → Int
  | 0, k => k
  | fuel + 1, k =>
    if compareScaled 1 k x.m x.q == .gt then k else scaleFrom x fuel (k + 1)

/-- The least `k` with `x < 10 ^ k`. The search starts at a power of ten that is surely too small,
three tenths of the binary exponent being a little less than its decimal value. -/
def scale (x : Binary) : Int :=
  let e := x.q + x.m.log2
  if e < 0 then x.scaleFrom ((-e).toNat / 20 + 4) (e * 31 / 100 - 1)
  else x.scaleFrom (e.toNat / 20 + 4) (e * 3 / 10)

/-- The largest number of the grid `10 ^ k` that is at most `x`, in units of the grid. -/
def floorAt (x : Binary) (k : Int) : Nat :=
  (x.m * Nat.pow 2 x.q.toNat * Nat.pow 10 (-k).toNat) /
    (Nat.pow 10 k.toNat * Nat.pow 2 (-x.q).toNat)

/-- The neighbour of `x` on the grid `10 ^ k` that reads back as `x`, the closer one if both do and
the even one if they are equally close. -/
def nearest? (x : Binary) (k : Int) : Option Scaled :=
  let below : Scaled := ⟨x.floorAt k, k⟩
  let above : Scaled := ⟨below.digits + 1, k⟩
  match x.readsBack below, x.readsBack above with
  | false, false => none
  | true, false => some below
  | false, true => some above
  | true, true =>
    match compareScaled (below.digits + above.digits) k (2 * x.m) x.q with
    | .gt => some below
    | .lt => some above
    | .eq => some (if below.digits % 2 == 0 then below else above)

/-- The exact decimal value of `x`. -/
def exact (x : Binary) : Scaled :=
  ⟨x.m * Nat.pow 2 x.q.toNat * Nat.pow 5 (-x.q).toNat, -((-x.q).toNat : Int)⟩

/-- The decimal with the fewest digits, at most seventeen, that reads back as `x`. -/
def shortest (x : Binary) : Scaled :=
  let k := x.scale
  ((List.range 17).findSome? fun (n : Nat) => x.nearest? (k - 1 - n)).getD x.exact

end Binary

end ShaderGraft.Decimal
