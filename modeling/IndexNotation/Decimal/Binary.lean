/-!
Binary floating-point numbers as they lie in a word: sign, exponent and fraction, and the number that
they stand for.
-/
namespace IndexNotation.Decimal

structure BinaryFormat where
  fractionBits : Nat
  exponentBits : Nat

namespace BinaryFormat

def single : BinaryFormat := ⟨23, 8⟩

def double : BinaryFormat := ⟨52, 11⟩

/-- The exponent of two of the last bit of the smallest numbers. -/
def leastExponent (f : BinaryFormat) : Int := 2 - Nat.pow 2 (f.exponentBits - 1) - f.fractionBits

end BinaryFormat

inductive BinaryValue where
  | notANumber
  | infinite (negative : Bool)
  /-- The number `significand * 2 ^ exponent`; the numbers below it lie closer than those above when
  it is the first of its binade. -/
  | finite (negative : Bool) (significand : Nat) (exponent : Int) (firstOfBinade : Bool)
deriving DecidableEq

def BinaryValue.ofBits (f : BinaryFormat) (word : Nat) : BinaryValue :=
  let hidden := Nat.pow 2 f.fractionBits
  let exponents := Nat.pow 2 f.exponentBits
  let fraction := word % hidden
  let biased := word / hidden % exponents
  let negative := word / (hidden * exponents) % 2 = 1
  if biased = exponents - 1 then
    if fraction = 0 then .infinite negative else .notANumber
  else if biased = 0 then .finite negative fraction f.leastExponent false
  else .finite negative (hidden + fraction) (f.leastExponent + (biased - 1))
    (fraction = 0 && 1 < biased)

end IndexNotation.Decimal
