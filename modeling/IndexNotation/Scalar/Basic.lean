import IndexNotation.Fault

namespace IndexNotation

inductive Magnitude where
  | single (x : Float32)
  | double (x : Float)

def Magnitude.sqrt : Magnitude → Magnitude
  | single x => single x.sqrt
  | double x => double x.sqrt

class Scalar (α : Type) where
  zero : α
  one : α
  add : α → α → Except Fault α
  sub : α → α → Except Fault α
  mul : α → α → Except Fault α
  div : α → α → Except Fault α
  /-- Equality as the scalar's own arithmetic has it: no number that is not a number equals itself. -/
  same : α → α → Bool
  /-- The scalar that counts `n` ones, wrapped around its range or rounded where it has none. -/
  ofNat : Nat → α
  /-- The text by which a component is shown. -/
  text : α → String
  /-- The text that tells a whole real number from an integer. -/
  detail : α → String
  /-- The bytes that a component takes in memory. -/
  width : Nat
  /-- The component in memory, least significant byte first. -/
  bytes : α → List UInt8
  /-- The real number that the scalar stands for; a complex one loses its imaginary part. -/
  magnitude : α → Magnitude

namespace Scalar

variable {α : Type} [Scalar α]

/-- The additive inverse, as a difference from zero: only zero has one among the unsigned integers. -/
def negate (x : α) : Except Fault α := sub zero x

def sum (xs : List α) : Except Fault α := xs.foldlM add zero

def addOnes : (count : Nat) → (acc : α) → Except Fault α
  | 0, acc => .ok acc
  | count + 1, acc => do addOnes count (← add acc one)

def littleEndian : (width n : Nat) → List UInt8
  | 0, _ => []
  | width + 1, n => UInt8.ofNat n :: littleEndian width (n / 256)

theorem addOnes_eq_foldlM (count : Nat) (acc : α) :
    addOnes count acc = (List.replicate count one).foldlM add acc := by
  induction count generalizing acc with
  | zero => rfl
  | succ count ih => simp [addOnes, List.replicate_succ, ih]

end Scalar

end IndexNotation
