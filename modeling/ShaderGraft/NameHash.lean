import ShaderGraft.Word

/-!
The hash that ties a variable's name to a runtime parameter. The caller of a function tags each
argument with it and the compiler of a tree finds the parameter by it.
-/

namespace ShaderGraft

/-- The hash of `s` whose first byte stands at position `i` of the name: each byte goes into the
byte of the word that its position selects, cyclically, by exclusive or. -/
def nameHashFrom (i : Nat) : Bytes → Word
  | [] => 0
  | b :: rest => (b.toUInt32 <<< (8 * (i % 4)).toUInt32) ^^^ nameHashFrom (i + 1) rest

/-- The hash of a variable's name. -/
def nameHash (s : Bytes) : Word :=
  nameHashFrom 0 s

end ShaderGraft
