import ShaderGraft.Text.Quoted

/-!
Flags on the command line. Long flags are `--name value` or `--name=value`, short ones are single
letters after a dash and can be joined. Flags and arguments may come in any order, and `--` ends the
flags.
-/

namespace ShaderGraft.CommandLine

open Text

/-- A flag. A switch has no value of its own and may still be given one after an equals sign. -/
structure Flag where
  name : String
  shorthand : Option Char := none
  isSwitch : Bool := false
deriving DecidableEq, Repr

/-- Why flags cannot be read. -/
inductive FlagError where
  | badForm (argument : Bytes)
  | unknown (name : Bytes)
  | unknownShorthand (letter : UInt8) (group : Bytes)
  | needsArgument (argument : Bytes)
  | shorthandNeedsArgument (letter : UInt8) (group : Bytes)
  | badSwitch (value : Bytes) (flag : Flag)

/-- The character that a byte is the number of. -/
def byteChar (b : UInt8) : Char :=
  Char.ofNat b.toNat

/-- A flag as it is called in messages. -/
def Flag.title (f : Flag) : String :=
  match f.shorthand with
  | some letter => "-" ++ toString letter ++ ", --" ++ f.name
  | none => "--" ++ f.name

def FlagError.message : FlagError → Bytes
  | .badForm argument => utf8 "bad flag syntax: " ++ argument
  | .unknown name => utf8 "unknown flag: --" ++ name
  | .unknownShorthand letter group =>
    utf8 ("unknown shorthand flag: " ++ quoteChar (byteChar letter) ++ " in -") ++ group
  | .needsArgument argument => utf8 "flag needs an argument: " ++ argument
  | .shorthandNeedsArgument letter group =>
    utf8 ("flag needs an argument: " ++ quoteChar (byteChar letter) ++ " in -") ++ group
  | .badSwitch value flag =>
    utf8 ("invalid argument " ++ quote value ++ " for " ++ quote (utf8 flag.title) ++
      " flag: strconv.ParseBool: parsing " ++ quote value ++ ": invalid syntax")

structure Setting where
  flag : Flag
  value : Bytes

/-- Flags and arguments, each in order. -/
structure Parsed where
  settings : List Setting := []
  arguments : List Bytes := []

def switchValue? (value : Bytes) : Option Bool :=
  if ["1", "t", "T", "TRUE", "true", "True"].any (utf8 · == value) then some true
  else if ["0", "f", "F", "FALSE", "false", "False"].any (utf8 · == value) then some false
  else none

def dash : UInt8 := 45

def equals : UInt8 := 61

def startsWith (front s : Bytes) : Bool :=
  front.isPrefixOf s

def byName? (flags : List Flag) (name : Bytes) : Option Flag :=
  flags.find? fun f => utf8 f.name == name

def byLetter? (flags : List Flag) (letter : UInt8) : Option Flag :=
  flags.find? fun f => f.shorthand == some (byteChar letter)

/-- The setting of a flag, if it takes the value. -/
def setting (flag : Flag) (value : Bytes) : Except FlagError Setting :=
  if flag.isSwitch && (switchValue? value).isNone then .error (.badSwitch value flag)
  else .ok { flag, value }

/-- Reads a long flag: its setting, and whether it takes the next argument. -/
def long (flags : List Flag) (argument : Bytes) (next : Option Bytes) :
    Except FlagError (Setting × Bool) := do
  let body := argument.drop 2
  if body.head? == some dash || body.head? == some equals then throw (.badForm argument)
  let (name, rest) := body.span (· != equals)
  match byName? flags name with
  | none => throw (.unknown name)
  | some flag =>
    match rest with
    | _ :: value => return (← setting flag value, false)
    | [] =>
      if flag.isSwitch then return (← setting flag (utf8 "true"), false)
      else match next with
        | some value => return (← setting flag value, true)
        | none => throw (.needsArgument argument)

/-- Reads a group of short flags: their settings, and whether the last one takes the next
argument. -/
def short (flags : List Flag) (next : Option Bytes) :
    Bytes → Except FlagError (List Setting × Bool)
  | [] => return ([], false)
  | letter :: rest => do
    if startsWith (utf8 "test.") (letter :: rest) then return ([], false)
    match byLetter? flags letter with
    | none => throw (.unknownShorthand letter (letter :: rest))
    | some flag =>
      match rest with
      | b :: c :: value =>
        if b == equals then return ([← setting flag (c :: value)], false)
        if flag.isSwitch then
          let one ← setting flag (utf8 "true")
          let (more, taken) ← short flags next rest
          return (one :: more, taken)
        else return ([← setting flag rest], false)
      | [_] =>
        if flag.isSwitch then
          let one ← setting flag (utf8 "true")
          let (more, taken) ← short flags next rest
          return (one :: more, taken)
        else return ([← setting flag rest], false)
      | [] =>
        if flag.isSwitch then return ([← setting flag (utf8 "true")], false)
        match next with
        | some value => return ([← setting flag value], true)
        | none => throw (.shorthandNeedsArgument letter (letter :: rest))

/-- Reads flags and arguments. With `skip` the first argument is the value of a flag already read. -/
def parse (flags : List Flag) : (skip : Bool) → List Bytes → Except FlagError Parsed
  | _, [] => .ok {}
  | true, _ :: rest => parse flags false rest
  | false, s :: rest => do
    if s.length < 2 || s.head? != some dash then
      let p ← parse flags false rest
      return { p with arguments := s :: p.arguments }
    else if s == [dash, dash] then return { arguments := rest }
    else if startsWith [dash, dash] s then
      let (one, taken) ← long flags s rest.head?
      let p ← parse flags taken rest
      return { p with settings := one :: p.settings }
    else
      let (group, taken) ← short flags rest.head? s.tail
      let p ← parse flags taken rest
      return { p with settings := group ++ p.settings }

/-- Whether an argument is a flag that is followed by its value. Unknown flags count as such. -/
def takesNext (flags : List Flag) (s : Bytes) : Bool :=
  let isSwitch := fun flag? : Option Flag => (flag?.map Flag.isSwitch).getD false
  ! s.contains equals &&
    ((startsWith [dash, dash] s && ! isSwitch (byName? flags (s.drop 2))) ||
      (s.length == 2 && s.head? == some dash &&
        ! isSwitch ((s.drop 1).head?.bind (byLetter? flags))))

/-- The arguments that are neither flags nor their values. The value of a flag at the very end is not
looked for. -/
def stripped (flags : List Flag) : (skip : Bool) → List Bytes → List Bytes
  | _, [] => []
  | true, _ :: rest => stripped flags false rest
  | false, s :: rest =>
    if s == [dash, dash] then []
    else if takesNext flags s then
      if rest.length ≤ 1 then [] else stripped flags true rest
    else if ! s.isEmpty && s.head? != some dash then s :: stripped flags false rest
    else stripped flags false rest

/-- The arguments without the first that is `x` and neither a flag nor the value of one. -/
def without (flags : List Flag) (x : Bytes) : (skip : Bool) → List Bytes → List Bytes
  | _, [] => []
  | true, s :: rest => s :: without flags x false rest
  | false, s :: rest =>
    if s == [dash, dash] then s :: rest
    else if takesNext flags s then s :: without flags x true rest
    else if s == x && s.head? != some dash then rest
    else s :: without flags x false rest

end ShaderGraft.CommandLine
