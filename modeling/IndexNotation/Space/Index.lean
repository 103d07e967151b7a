import IndexNotation.Packed
import IndexNotation.RowMajor
import IndexNotation.Space.Dimension

namespace IndexNotation.Space

/-- The bytes of a space that stands in a list of spaces. -/
def width : Nat := 72

/-- Room for the list of the tensor factors, in which a power has as many copies of its factor as its
order says. -/
def reserveTensorFactors : Space → Except Fault Unit
  | .tensorPower order _ => Size.reserve order width
  | _ => .ok ()

def reserveSplitFactors : Space → Except Fault Unit
  | .symmetricPower order _ | .exteriorPower order _ => Size.reserve order width
  | s => s.reserveTensorFactors

mutual

/-- Room for the lists of tensor factors that flattening goes through. -/
def reserveFlattened : Space → Except Fault Unit
  | .tensorProduct factors => reserveAllFlattened factors
  | .tensorPower order factor => do
    Size.reserve order width
    -- only a copy that is there is flattened itself
    if 0 < order then reserveFlattened factor
  | _ => .ok ()

def reserveAllFlattened : List Space → Except Fault Unit
  | [] => .ok ()
  | s :: rest => do
    reserveFlattened s
    reserveAllFlattened rest

end

def splitDimensions (s : Space) : Except Fault (List Nat) :=
  match s.splitFactors with
  | some factors => dimensions factors
  | none => do return [← s.dimension]

/-- The component that holds `parts`, one value per split factor, with its sign; none when the tensors
of the space vanish there. -/
def bundleIndex (s : Space) (parts : List Nat) : Except Fault (Option (Nat × Sign)) :=
  match s with
  | .symmetricPower _ _ => do return some (← Packed.symmetricFlat parts, .positive)
  | .exteriorPower _ _ => Packed.exteriorFlat parts
  | .diagonal _ _ =>
    match parts with
    | p :: q :: _ => .ok (if p = q then some (p, .positive) else none)
    | _ => .error .outOfBounds
  | s => do
    s.reserveSplitFactors
    let dims ← s.splitDimensions
    return some (← RowMajor.offset parts dims, .positive)

def splitIndex (s : Space) (flat : Nat) : Except Fault (List Nat) :=
  match s with
  | .symmetricPower order _ => Packed.symmetricParts flat order
  | .exteriorPower order _ => Packed.exteriorParts flat order
  | .diagonal _ _ => .ok [flat, flat]
  | s => do
    s.reserveSplitFactors
    return RowMajor.split flat (← s.splitDimensions)

end IndexNotation.Space
