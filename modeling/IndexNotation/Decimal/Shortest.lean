import IndexNotation.Decimal.Binary
/-!
The shortest decimal that reads back as a given binary number: of the decimals inside its rounding
interval one with the fewest digits, of those the nearest to the number, of two equally near the larger.
-/
namespace IndexNotation.Decimal

/-- The number `digits * 10 ^ exponent`. -/
structure DecimalNumber where
  digits : Nat
  exponent : Int
deriving DecidableEq

/-- Take trailing zeros into the exponent, at most `fuel` of them. -/
def DecimalNumber.trimmed : (fuel : Nat) → DecimalNumber → DecimalNumber
  | 0, d => d
  | fuel + 1, d =>
    if d.digits ≠ 0 ∧ d.digits % 10 = 0 then trimmed fuel ⟨d.digits / 10, d.exponent + 1⟩ else d

/-- A positive binary number with the interval of numbers that round to it, in quarters of its last
bit: `value`, `low` and `high` count units of `2 ^ unit`. -/
structure RoundingInterval where
  low : Nat
  value : Nat
  high : Nat
  unit : Int
  /-- The ends round to the number too. -/
  closed : Bool

/-- Half a unit of the last bit on either side, but only a quarter below the first of a binade. -/
def RoundingInterval.around (significand : Nat) (exponent : Int) (firstOfBinade : Bool) :
    RoundingInterval :=
  { low := 4 * significand - if firstOfBinade then 1 else 2
    value := 4 * significand
    high := 4 * significand + 2
    unit := exponent - 2
    closed := significand % 2 = 0 }

namespace RoundingInterval

/-- What a unit of the interval weighs against a decimal step of `10 ^ exponent`: their ratio is
`(scales exponent).1` to `(scales exponent).2`. -/
def scales (r : RoundingInterval) (exponent : Int) : Nat × Nat :=
  (Nat.pow 2 r.unit.toNat * Nat.pow 10 (-exponent).toNat,
    Nat.pow 2 (-r.unit).toNat * Nat.pow 10 exponent.toNat)

def holds (r : RoundingInterval) (d : DecimalNumber) : Bool :=
  let (binary, decimal) := r.scales d.exponent
  let scaled := d.digits * decimal
  if r.closed then r.low * binary ≤ scaled && scaled ≤ r.high * binary
  else r.low * binary < scaled && scaled < r.high * binary

def floor (r : RoundingInterval) (exponent : Int) : Nat :=
  let (binary, decimal) := r.scales exponent
  r.value * binary / decimal

/-- The decimal with step `10 ^ exponent` that rounds to the number and lies nearest to it. -/
def onGrid (r : RoundingInterval) (exponent : Int) : Option DecimalNumber :=
  let (binary, decimal) := r.scales exponent
  let below : DecimalNumber := ⟨r.floor exponent, exponent⟩
  let above : DecimalNumber := ⟨r.floor exponent + 1, exponent⟩
  let toBelow := r.value * binary - below.digits * decimal
  let toAbove := above.digits * decimal - r.value * binary
  if r.holds below && (toBelow < toAbove || !r.holds above) then some below
  else if r.holds above then some above
  else none

def magnitudeFrom (r : RoundingInterval) : (fuel : Nat) → (start : Int) → Int
  | 0, start => start
  | fuel + 1, start => if r.floor (start + 1) = 0 then start else magnitudeFrom r fuel (start + 1)

/-- The exponent of the first decimal digit, found from just below an estimate by the binary one. -/
def magnitude (r : RoundingInterval) : Int :=
  r.magnitudeFrom 8 (((Nat.log2 r.value : Int) + r.unit) * 1233 / 4096 - 2)

def search (r : RoundingInterval) : (fuel : Nat) → (exponent : Int) → DecimalNumber
  | 0, exponent => ⟨r.floor exponent, exponent⟩
  | fuel + 1, exponent => (r.onGrid exponent).getD (search r fuel (exponent - 1))

end RoundingInterval

/-- The shortest decimal of a positive binary number; seventeen digits always suffice. -/
def shortest (significand : Nat) (exponent : Int) (firstOfBinade : Bool) : DecimalNumber :=
  let interval := RoundingInterval.around significand exponent firstOfBinade
  DecimalNumber.trimmed 20 (interval.search 17 interval.magnitude)

end IndexNotation.Decimal
