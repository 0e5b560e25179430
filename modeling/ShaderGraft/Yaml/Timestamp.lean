/-!
Timestamps: a date, or a date and a time.
-/

namespace ShaderGraft.Yaml

/-- A number of one or two digits, at least `least` and at most `most`, and what follows it. -/
def shortNumber? (least most : Nat) (cs : List Char) : Option (Nat × List Char) :=
  let digits := (cs.takeWhile Char.isDigit).take 2
  let n := digits.foldl (fun n c => n * 10 + (c.toNat - 48)) 0
  if digits.isEmpty || n < least || most < n then none else some (n, cs.drop digits.length)

def after? (c : Char) : List Char → Option (List Char)
  | d :: rest => if c == d then some rest else none
  | [] => none

def daysIn (year month : Nat) : Nat :=
  if month == 2 then
    if year % 4 == 0 && (year % 100 != 0 || year % 400 == 0) then 29 else 28
  else if [4, 6, 9, 11].contains month then 30
  else 31

/-- What follows a date. The year has four digits. -/
def date? (cs : List Char) : Option (List Char) := do
  let digits := cs.takeWhile Char.isDigit
  if digits.length != 4 then none
  let year := digits.foldl (fun n c => n * 10 + (c.toNat - 48)) 0
  let (month, rest) ← shortNumber? 1 12 (← after? '-' (cs.drop 4))
  let (_, rest) ← shortNumber? 1 (daysIn year month) (← after? '-' rest)
  return rest

/-- What follows a time of day. The seconds may have a fraction. -/
def timeOfDay? (cs : List Char) : Option (List Char) := do
  let (_, rest) ← shortNumber? 0 23 cs
  let (_, rest) ← shortNumber? 0 59 (← after? ':' rest)
  let (_, rest) ← shortNumber? 0 59 (← after? ':' rest)
  match rest with
  | point :: d :: more =>
    if (point == '.' || point == ',') && d.isDigit then return more.dropWhile Char.isDigit
    else return rest
  | _ => return rest

/-- Whether a text is an offset from universal time. -/
def isOffset (cs : List Char) : Bool :=
  match cs with
  | ['Z'] => true
  | [sign, a, b, ':', c, d] =>
    (sign == '+' || sign == '-') && [a, b, c, d].all Char.isDigit &&
      (shortNumber? 0 24 [a, b]).isSome && (shortNumber? 0 60 [c, d]).isSome
  | _ => false

/-- Whether a text is a timestamp. A time after a `T` has an offset, and one after a space has
none. -/
def isTimestamp (cs : List Char) : Bool :=
  match date? cs with
  | none => false
  | some [] => true
  | some (' ' :: rest) => timeOfDay? (rest.dropWhile (· == ' ')) == some []
  | some (c :: rest) => (c == 'T' || c == 't') && (timeOfDay? rest).any isOffset

end ShaderGraft.Yaml
