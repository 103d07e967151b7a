import IndexNotation.Decimal.Shortest

namespace IndexNotation.Decimal

structure Layout where
  /-- What follows the digits of a whole number. -/
  wholeMark : String
  /-- Whether a number is written without an exponent, by the exponent of its first digit. -/
  isPlain : Int → Bool

namespace Layout

def plain : Layout := ⟨"", fun _ => true⟩

/-- Whole numbers keep a zero after the point, and numbers below `10 ^ -4` or from `10 ^ 16` on have an
exponent. -/
def marked : Layout := ⟨".0", fun magnitude => -4 ≤ magnitude && magnitude < 16⟩

def zeros (count : Nat) : String := String.ofList (List.replicate count '0')

def positional (layout : Layout) (digits : String) (exponent : Int) : String :=
  let point := digits.length + exponent
  if 0 ≤ exponent then digits ++ zeros exponent.toNat ++ layout.wholeMark
  else if 0 < point then
    (digits.take point.toNat).toString ++ "." ++ (digits.drop point.toNat).toString
  else "0." ++ zeros (-point).toNat ++ digits

def scientific (digits : String) (magnitude : Int) : String :=
  (digits.take 1).toString ++ (if digits.length = 1 then "" else "." ++ (digits.drop 1).toString) ++
    "e" ++ toString magnitude

def unsigned (layout : Layout) (d : DecimalNumber) : String :=
  let digits := toString d.digits
  let magnitude := digits.length - 1 + d.exponent
  if layout.isPlain magnitude then layout.positional digits d.exponent
  else scientific digits magnitude

def text (layout : Layout) : BinaryValue → String
  | .notANumber => "NaN"
  | .infinite negative => (if negative then "-" else "") ++ "inf"
  | .finite negative significand exponent firstOfBinade =>
    (if negative then "-" else "") ++
      if significand = 0 then "0" ++ layout.wholeMark
      else layout.unsigned (shortest significand exponent firstOfBinade)

end Layout

end IndexNotation.Decimal
