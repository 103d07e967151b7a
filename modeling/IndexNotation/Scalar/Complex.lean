import IndexNotation.Scalar.Real
import IndexNotation.Text.Quoted

namespace IndexNotation

structure Complex (α : Type) where
  re : α
  im : α
deriving DecidableEq

namespace Complex

open Scalar

variable {α : Type} [RealScalar α]

def mul (a b : Complex α) : Except Fault (Complex α) := do
  let re ← sub (← Scalar.mul a.re b.re) (← Scalar.mul a.im b.im)
  let im ← add (← Scalar.mul a.re b.im) (← Scalar.mul a.im b.re)
  return ⟨re, im⟩

/-- The quotient through the squared modulus of the divisor. -/
def div (a b : Complex α) : Except Fault (Complex α) := do
  let norm ← add (← Scalar.mul b.re b.re) (← Scalar.mul b.im b.im)
  let re ← add (← Scalar.mul a.re b.re) (← Scalar.mul a.im b.im)
  let im ← sub (← Scalar.mul a.im b.re) (← Scalar.mul a.re b.im)
  return ⟨← Scalar.div re norm, ← Scalar.div im norm⟩

/-- The text of a part without its sign; a part that is not negative keeps what sign it shows. -/
def partText (x : α) : String :=
  if RealScalar.isNegative x then
    match negate x with
    | .ok opposite => text opposite
    | .error _ => text x
  else text x

def text (z : Complex α) : String :=
  (if RealScalar.isNegative z.re then "-" else "") ++ partText z.re ++
    (if RealScalar.isNegative z.im then "-" else "+") ++ partText z.im ++ "i"

instance : Scalar (Complex α) where
  zero := ⟨zero, zero⟩
  one := ⟨one, zero⟩
  add a b := do return ⟨← add a.re b.re, ← add a.im b.im⟩
  sub a b := do return ⟨← sub a.re b.re, ← sub a.im b.im⟩
  mul := mul
  div := div
  same a b := same a.re b.re && same a.im b.im
  ofNat n := ⟨ofNat n, zero⟩
  text := text
  detail z := Text.record "Complex" [("re", detail z.re), ("im", detail z.im)]
  width := 2 * width α
  bytes z := bytes z.re ++ bytes z.im
  magnitude z := magnitude z.re

end Complex

end IndexNotation
