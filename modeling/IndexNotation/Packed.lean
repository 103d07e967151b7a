import IndexNotation.Counting
/-!
Packed numbering of symmetric and exterior powers. A symmetric power keeps one component for each
non-increasing tuple, an exterior power one for each strictly decreasing tuple, both numbered by sums
of binomial coefficients. A tuple in any order is first sorted; an exterior one takes the sign of the
sorting permutation.
-/
namespace IndexNotation

inductive Sign where
  | positive
  | negative
deriving DecidableEq

def Sign.flip : Sign → Sign
  | positive => negative
  | negative => positive

namespace Packed

/-- Insert before the first entry that is not larger, flipping the sign at each one passed. -/
def insertDescending (x : Nat) (sign : Sign) : List Nat → List Nat × Sign
  | [] => ([x], sign)
  | y :: rest =>
    if x < y then
      let (sorted, sign) := insertDescending x sign.flip rest
      (y :: sorted, sign)
    else (x :: y :: rest, sign)

def sortDescending : List Nat → List Nat × Sign
  | [] => ([], .positive)
  | x :: rest =>
    let (sorted, sign) := sortDescending rest
    insertDescending x sign sorted

def hasEqualNeighbours : List Nat → Bool
  | x :: y :: rest => x == y || hasEqualNeighbours (y :: rest)
  | _ => false

/-- Add up the numbers of the values of a non-increasing tuple that is the tail of one of length
`order`: a value with `r` places from it to the end counts the tuples of length `r` over smaller
values. -/
def symmetricNumber (order : Nat) : (sorted : List Nat) → (acc : Nat) → Except Fault Nat
  | [], acc => .ok acc
  | value :: rest, acc => do
    -- the value is added to the whole order before the places in front are taken off
    let _ ← Size.add value order
    let places := rest.length + 1
    symmetricNumber order rest (← Size.add acc (← Counting.binomial (value + places - 1) places))

def exteriorNumber : (sorted : List Nat) → (acc : Nat) → Except Fault Nat
  | [], acc => .ok acc
  | value :: rest, acc => do
    exteriorNumber rest (← Size.add acc (← Counting.binomial value (rest.length + 1)))

def symmetricFlat (parts : List Nat) : Except Fault Nat :=
  symmetricNumber parts.length (sortDescending parts).1 0

/-- The component of an exterior power that holds `parts` and its sign; none when a value repeats,
where antisymmetric components vanish. -/
def exteriorFlat (parts : List Nat) : Except Fault (Option (Nat × Sign)) :=
  let (sorted, sign) := sortDescending parts
  if hasEqualNeighbours sorted then .ok none
  else do return some (← exteriorNumber sorted 0, sign)

/-- From `top` upwards, the last number whose binomial coefficient over `r` is at most `flat`, looking
at no more than `fuel` of them. -/
def lastFitting (flat r : Nat) : (fuel top : Nat) → Except Fault Nat
  | 0, top => .ok top
  | fuel + 1, top => do
    if (← Counting.binomial (top + 1) r) ≤ flat then lastFitting flat r fuel (top + 1) else .ok top

/-- The greatest number whose binomial coefficient over `r` is at most `flat`, and what is left of
`flat`. It is below `r + flat`, since the coefficients grow by at least one. -/
def takeOff (flat r : Nat) : Except Fault (Nat × Nat) := do
  let top ← lastFitting flat r (flat + 1) (r - 1)
  return (top, flat - (← Counting.binomial top r))

/-- The values of a non-increasing tuple, the first of which has `places` places from it to the end. -/
def symmetricValues (flat : Nat) : (places : Nat) → Except Fault (List Nat)
  | 0 => .ok []
  | places + 1 => do
    let (top, rest) ← takeOff flat (places + 1)
    return (top - places) :: (← symmetricValues rest places)

def exteriorValues (flat : Nat) : (places : Nat) → Except Fault (List Nat)
  | 0 => .ok []
  | places + 1 => do
    let (top, rest) ← takeOff flat (places + 1)
    return top :: (← exteriorValues rest places)

/-- The non-increasing tuple of length `order` at a component of a symmetric power, for which room is
made first. -/
def symmetricParts (flat order : Nat) : Except Fault (List Nat) := do
  Size.reserve order 8
  symmetricValues flat order

def exteriorParts (flat order : Nat) : Except Fault (List Nat) := do
  Size.reserve order 8
  exteriorValues flat order

end Packed

end IndexNotation
