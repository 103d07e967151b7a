import IndexNotation.Scalar.Basic

namespace IndexNotation

structure IntegerRange where
  least : Int
  greatest : Int
  width : Nat
  least_le_zero : least ≤ 0 := by decide
  one_le_greatest : 1 ≤ greatest := by decide

namespace IntegerRange

def signed32 : IntegerRange := { least := -0x80000000, greatest := 0x7fffffff, width := 4 }

def signed64 : IntegerRange :=
  { least := -0x8000000000000000, greatest := 0x7fffffffffffffff, width := 8 }

def unsigned32 : IntegerRange := { least := 0, greatest := 0xffffffff, width := 4 }

def unsigned64 : IntegerRange := { least := 0, greatest := 0xffffffffffffffff, width := 8 }

end IntegerRange

structure Bounded (r : IntegerRange) where
  val : Int
  inRange : r.least ≤ val ∧ val ≤ r.greatest
deriving DecidableEq

namespace Bounded

variable {r : IntegerRange}

def ofInt (n : Int) : Except Fault (Bounded r) :=
  if h : r.least ≤ n ∧ n ≤ r.greatest then .ok ⟨n, h⟩ else .error .overflow

/-- The integer of the range that differs from `n` by a multiple of the range's size. -/
def wrap (n : Int) : Bounded r where
  val := r.least + (n - r.least) % (r.greatest - r.least + 1)
  inRange := by
    have lower := Int.emod_nonneg (n - r.least)
      (show r.greatest - r.least + 1 ≠ 0 by have := r.least_le_zero; have := r.one_le_greatest; omega)
    have upper := Int.emod_lt_of_pos (n - r.least)
      (show 0 < r.greatest - r.least + 1 by
        have := r.least_le_zero; have := r.one_le_greatest; omega)
    omega

def zero : Bounded r where
  val := 0
  inRange := by have := r.least_le_zero; have := r.one_le_greatest; omega

def one : Bounded r where
  val := 1
  inRange := by have := r.least_le_zero; have := r.one_le_greatest; omega

def div (a b : Bounded r) : Except Fault (Bounded r) :=
  if b.val = 0 then .error .divisionByZero else ofInt (a.val.tdiv b.val)

/-- The nearest double, ties to even. -/
def toFloat (a : Bounded r) : Float :=
  if a.val < 0 then (Int64.ofInt a.val).toFloat else (UInt64.ofNat a.val.toNat).toFloat

theorem ofInt_eq_ok_iff {n : Int} {a : Bounded r} : ofInt n = .ok a ↔ a.val = n := by
  unfold ofInt
  split
  · rename_i h
    constructor
    · intro same
      cases same
      rfl
    · rintro rfl
      rfl
  · rename_i outside
    constructor
    · intro same
      cases same
    · rintro rfl
      exact absurd a.inRange outside

end Bounded

instance (r : IntegerRange) : Scalar (Bounded r) where
  zero := .zero
  one := .one
  add a b := Bounded.ofInt (a.val + b.val)
  sub a b := Bounded.ofInt (a.val - b.val)
  mul a b := Bounded.ofInt (a.val * b.val)
  div := Bounded.div
  same a b := a == b
  ofNat n := .wrap n
  text a := toString a.val
  detail a := toString a.val
  width := r.width
  bytes a := Scalar.littleEndian r.width (a.val % Nat.pow 256 r.width).toNat
  magnitude a := .double a.toFloat

end IndexNotation
