import ShaderGraft.Text.Base64
import ShaderGraft.Text.Number
import ShaderGraft.Yaml.Node
import ShaderGraft.Yaml.Timestamp

/-!
What scalars stand for. A scalar in quotes is a text. A plain one is a number, a truth value, a
timestamp or nothing at all if it is spelled like one, and its tag can ask for either.
-/

namespace ShaderGraft.Yaml

open Text

inductive Value where
  | null
  | boolean (b : Bool)
  | integer (n : Int)
  | float (x : Float)
  | timestamp
  /-- The key of the mappings that are merged in. -/
  | merge
  | text (bytes : Bytes)

/-- The short tag of the values of a kind. -/
def Value.tag : Value → String
  | .null => "!!null"
  | .boolean _ => "!!bool"
  | .integer _ => "!!int"
  | .float _ => "!!float"
  | .timestamp => "!!timestamp"
  | .merge => "!!merge"
  | .text _ => "!!str"

/-- The values that are written as words. -/
def words : List (String × Value) :=
  let infinity : Float := 1.0 / 0.0
  ["", "~", "null", "Null", "NULL"].map (·, .null) ++
  ["true", "True", "TRUE"].map (·, .boolean true) ++
  ["false", "False", "FALSE"].map (·, .boolean false) ++
  [".nan", ".NaN", ".NAN"].map (·, .float (0.0 / 0.0)) ++
  [".inf", ".Inf", ".INF", "+.inf", "+.Inf", "+.INF"].map (·, .float infinity) ++
  ["-.inf", "-.Inf", "-.INF"].map (·, .float (-infinity)) ++
  [("<<", .merge)]

/-- The value of digits in a base. All values that need more than 64 bits count as the same. -/
def digits? (base : Nat) (cs : List Char) : Option Nat :=
  cs.foldlM (fun n c =>
    match hexValue? c with
    | some d => if d < base then some (min (n * base + d) (2 * int64Limit)) else none
    | none => none) 0

/-- A natural number that tells its base: `0x`, `0o`, `0b`, or a leading zero for octal. -/
def based? : List Char → Option Nat
  | [] => none
  | '0' :: x :: d :: rest =>
    if x == 'x' || x == 'X' then digits? 16 (d :: rest)
    else if x == 'o' || x == 'O' then digits? 8 (d :: rest)
    else if x == 'b' || x == 'B' then digits? 2 (d :: rest)
    else digits? 8 (x :: d :: rest)
  | '0' :: rest => digits? 8 rest
  | cs => digits? 10 cs

/-- Whether a number has a minus sign, and the number without its sign. -/
def sign : List Char → Bool × List Char
  | '-' :: rest => (true, rest)
  | '+' :: rest => (false, rest)
  | cs => (false, cs)

/-- The exponent of a decimal number, which may be left out. -/
def exponent? : List Char → Option Int
  | [] => some 0
  | c :: rest =>
    if c == 'e' || c == 'E' then
      let (negative, digits) := sign rest
      if digits.isEmpty then none
      else (digits? 10 digits).map fun n => if negative then -(n : Int) else n
    else none

/-- Numbers with more digits before the point are out of range, and so are those with more zeros
after it. -/
def maxMagnitude : Nat := 400

/-- The number of digits that can decide how a number is rounded. Of the others it only matters
whether they are all zero. -/
def maxDigits : Nat := 800

/-- The number that digits and a power of ten make, unless it is too large. -/
def scientific? (digits : List Char) (scale : Int) : Option Float :=
  let digits := digits.dropWhile (· == '0')
  let magnitude := digits.length + scale
  if digits.isEmpty || magnitude < -maxMagnitude then some 0.0
  else if (maxMagnitude : Int) < magnitude then none
  else
    let rest := digits.drop maxDigits
    let shown := digits.take maxDigits ++ if rest.any (· != '0') then ['1'] else []
    let n := shown.foldl (fun n c => n * 10 + (c.toNat - 48)) 0
    let scale := magnitude - shown.length
    let x := Float.ofScientific n (scale < 0) scale.natAbs
    if x.isInf then none else some x

/-- A decimal number without sign, perhaps with a point or an exponent. It must not be out of
range. -/
def decimal? (cs : List Char) : Option Float :=
  let whole := cs.takeWhile Char.isDigit
  let afterWhole := cs.drop whole.length
  let (fraction, rest) := match afterWhole with
    | '.' :: more => (more.takeWhile Char.isDigit, more.dropWhile Char.isDigit)
    | more => ([], more)
  if whole.isEmpty && fraction.isEmpty then none
  else do
    let e ← exponent? rest
    scientific? (whole ++ fraction) (e - fraction.length)

/-- Whether every underscore stands between two digits. `digit` tells whether one is before. -/
def separated (digit : Bool) : List Char → Bool
  | [] => true
  | '_' :: rest => digit && rest.head?.any Char.isDigit && separated false rest
  | c :: rest => separated c.isDigit rest

def fits64 (n : Int) : Bool :=
  -(int64Limit : Int) ≤ n && n < int64Limit

/-- An integer with its sign between the letter of its base and its digits. -/
def innerSigned? (cs : List Char) : Option Int := do
  let (base, signed) ← match cs with
    | '0' :: 'b' :: rest => some (2, rest)
    | '0' :: 'o' :: rest => some (8, rest)
    | _ => none
  let (negative, digits) := sign signed
  let n : Int ← digits? base digits
  if digits.isEmpty then none
  let n := if negative then -n else n
  if fits64 n then some n else none

/-- The value of a number. Underscores are left out. An integer has 64 bits, with or without a
sign; other numbers need not be exact. -/
def number? (text : List Char) : Option Value :=
  let cs := text.filter (· != '_')
  let (negative, digits) := sign cs
  let integer := (based? digits).bind fun n =>
    let n : Int := if negative then -n else n
    if fits64 n || (cs == digits && n < 2 * int64Limit) then some (.integer n) else none
  let float := (decimal? digits).map fun x => .float (if negative then -x else x)
  integer <|> float <|> (innerSigned? cs).map .integer

/-- The value of a plain scalar. `timestamps` tells whether it can be a timestamp. -/
def plainValue (timestamps : Bool) (cs : List Char) : Value :=
  let spelled := words.lookup (String.ofList cs)
  let other := match cs with
    | '.' :: _ =>
      if separated false cs then (decimal? (cs.filter (· != '_'))).map .float else none
    | c :: _ =>
      if c.isDigit || c == '+' || c == '-' then
        if timestamps && isTimestamp cs then some .timestamp else number? cs
      else none
    | [] => none
  (spelled <|> other).getD (.text (utf8 (String.ofList cs)))

/-- The start of the tags that have a short form. -/
def standardTag : List Char := "tag:yaml.org,2002:".toList

def shortTag (tag : List Char) : String :=
  if standardTag.isPrefixOf tag then String.ofList ('!' :: '!' :: tag.drop standardTag.length)
  else String.ofList tag

/-- The value of a scalar. A tag that does not fit is refused; the tag `!` says nothing, and an
integer can be made a float. -/
def scalarValue? (tag : Option (List Char)) (style : Style) (text : List Char) : Option Value :=
  match tag.map shortTag with
  | none | some "!" =>
    some (if style == .plain then plainValue true text else .text (utf8 (String.ofList text)))
  | some "!!str" => some (.text (utf8 (String.ofList text)))
  | some "!!binary" => (base64? text).map .text
  | some tag =>
    let value := plainValue (tag == "!!timestamp") text
    if value.tag == tag then some value
    else match tag, value with
      | "!!float", .integer n => if fits64 n then some (.float (Float.ofInt n)) else none
      | _, _ => none

/-- The node itself, or the one that it refers to. -/
def Node.resolved : Node → Node
  | .reference _ target => target
  | n => n

def Node.value? (n : Node) : Option Value :=
  match n.resolved with
  | .scalar tag style text => scalarValue? tag style text
  | _ => none

/-- The text of a node if it is a scalar. A value that is no text is taken as it is written, and a
null has no text. -/
def Node.text? (n : Node) : Option (Option Bytes) :=
  match n.resolved with
  | .scalar tag style text => (scalarValue? tag style text).map fun
    | .null => none
    | .text bytes => some bytes
    | _ => some (utf8 (String.ofList text))
  | _ => none

/-- Whether a key merges mappings into its own. -/
def Node.isMerge : Node → Bool
  | .scalar tag style text =>
    text == "<<".toList && match tag.map shortTag with
      | none | some "!" => style == .plain
      | some tag => tag == "!!merge"
  | _ => false

/-- Whether two keys of a mapping are spelled the same. -/
def Node.sameKey : Node → Node → Bool
  | .scalar _ _ a, .scalar _ _ b => a == b
  | .reference a _, .reference b _ => a == b
  | .sequence _, .sequence _ | .mapping _, .mapping _ => true
  | _, _ => false

end ShaderGraft.Yaml
