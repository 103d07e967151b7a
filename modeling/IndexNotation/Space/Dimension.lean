import IndexNotation.Counting
import IndexNotation.Space.Basic

namespace IndexNotation.Space

mutual

/-- The dimension. The exponent of a tensor power counts modulo `2 ^ 32`. -/
def dimension : Space → Except Fault Nat
  | .based v => Size.checked v.size
  | .tensorProduct factors => do Size.product (← dimensions factors)
  | .tensorPower order factor => do Size.pow (← dimension factor) (order % Nat.pow 2 32)
  | .symmetricPower order factor => do Counting.symmetricDimension order (← dimension factor)
  | .exteriorPower order factor => do Counting.exteriorDimension order (← dimension factor)
  | .directSum summands => do Size.sum (← dimensions summands)
  | .diagonal left right => do
    let a ← dimension left
    return min a (← dimension right)

def dimensions : List Space → Except Fault (List Nat)
  | [] => .ok []
  | s :: rest => do
    let dim ← dimension s
    return dim :: (← dimensions rest)

end

end IndexNotation.Space
