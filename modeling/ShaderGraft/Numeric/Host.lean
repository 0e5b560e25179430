import ShaderGraft.Evaluator.Host
import ShaderGraft.Numeric.Trigonometry

/-!
The machine that the program runs on.
-/

namespace ShaderGraft.Numeric

def host : Host where
  abs := abs
  sqrt := Float32.sqrt
  sin := sin
  cos := cos
  tan := tan
  min := min
  max := max
  room := 1 <<< 24
  textRoom := 1 <<< 28

end ShaderGraft.Numeric
