import ShaderGraft.Word

/-!
Literal strings inside instructions. The bytes are packed four to a word, least significant first,
and followed by at least one zero byte, so the last word tells the end.
-/

namespace ShaderGraft.Literal

/-- The words of a literal string. The last one has room for the closing zero byte. -/
def encode : Bytes → List Word
  | [] => [0]
  | [a] => [Word.ofBytes a 0 0 0]
  | [a, b] => [Word.ofBytes a b 0 0]
  | [a, b, c] => [Word.ofBytes a b c 0]
  | a :: b :: c :: d :: rest => Word.ofBytes a b c d :: encode rest

/-- The string at the start of `ws`, up to the first zero byte, and the number of words it takes.
Without a zero byte it takes all of them. -/
def decode : List Word → Bytes × Nat
  | [] => ([], 0)
  | w :: ws =>
    let part := (Word.toBytes w).takeWhile (· != 0)
    if part.length < 4 then (part, 1)
    else
      let (rest, n) := decode ws
      (part ++ rest, n + 1)

end ShaderGraft.Literal
