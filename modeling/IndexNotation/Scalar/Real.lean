import IndexNotation.Decimal.Layout
import IndexNotation.Scalar.Basic

namespace IndexNotation

class RealScalar (α : Type) extends Scalar α where
  /-- Below zero; a negative zero is not. -/
  isNegative : α → Bool

def doubleValue (x : Float) : Decimal.BinaryValue := .ofBits .double x.toBits.toNat

def singleValue (x : Float32) : Decimal.BinaryValue := .ofBits .single x.toBits.toNat

instance : RealScalar Float where
  zero := 0
  one := 1
  add a b := .ok (a + b)
  sub a b := .ok (a - b)
  mul a b := .ok (a * b)
  div a b := .ok (a / b)
  same a b := a == b
  ofNat n := (UInt64.ofNat n).toFloat
  text x := Decimal.Layout.plain.text (doubleValue x)
  detail x := Decimal.Layout.marked.text (doubleValue x)
  width := 8
  bytes x := Scalar.littleEndian 8 x.toBits.toNat
  magnitude x := .double x
  isNegative x := x < 0

instance : RealScalar Float32 where
  zero := 0
  one := 1
  add a b := .ok (a + b)
  sub a b := .ok (a - b)
  mul a b := .ok (a * b)
  div a b := .ok (a / b)
  same a b := a == b
  ofNat n := (UInt64.ofNat n).toFloat32
  text x := Decimal.Layout.plain.text (singleValue x)
  detail x := Decimal.Layout.marked.text (singleValue x)
  width := 4
  bytes x := Scalar.littleEndian 4 x.toBits.toNat
  magnitude x := .single x
  isNegative x := x < 0

end IndexNotation
