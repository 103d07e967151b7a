import IndexNotation.DirectSum

namespace IndexNotation

/-- `g p q`, the inner product of basis tensors `p` and `q`. -/
abbrev Metric (α : Type) := Nat → Nat → Except Fault α

namespace Metric

variable {α : Type} [Scalar α]

open Scalar

def identity : Metric α := fun p q => .ok (if p = q then one else zero)

/-- The metric of a product, for indices that are a head index times `width` plus a body index. -/
def product (head body : Metric α) (width : Nat) : Metric α := fun p q => do
  let headComponent ← head (← Size.div p width) (← Size.div q width)
  mul headComponent (← body (← Size.mod p width) (← Size.mod q width))

def tensorPower (factor : Space) (metric : Metric α) : (order : Nat) → Except Fault (Metric α)
  | 0 => refuse .orderMustBePositive
  | 1 => .ok metric
  | order + 2 => do
    let body ← tensorPower factor metric (order + 1)
    return product metric body (← (Space.tensorPower (order + 1) factor).dimension)

/-- The weight of component `p` of a symmetric or exterior power: how many tuples it stands for, times
the squared lengths of the basis vectors in one of them. -/
def packedWeight (power : Space) (metric : Metric α) (p : Nat) : Except Fault α := do
  let parts ← power.splitIndex p
  let orderings ← addOnes (← Counting.orderings parts) zero
  parts.foldlM (fun acc part => do mul acc (← metric part part)) orderings

def packed (power : Space) (metric : Metric α) : Metric α := fun p q =>
  if p = q then packedWeight power metric p else .ok zero

def directSum (summands : List Space) (metrics : List (Metric α)) : Metric α := fun p q => do
  let (n, localP) ← DirectSum.locate summands p
  let (m, localQ) ← DirectSum.locate summands q
  if n = m then
    match metrics[n]? with
    | some metric => metric localP localQ
    | none => throw .outOfBounds
  else return zero

def ofPower (power : Space) (order : Nat) (factor : Space) (metric : Except Fault (Metric α)) :
    Except Fault (Metric α) := do
  if order = 0 then refuse .orderMustBePositive
  if !factor.isEuclidean then refuse (.noInnerProduct power)
  return packed power (← metric)

mutual

def ofSpace : Space → Except Fault (Metric α)
  | .based v => if v.basis.isStandard then .ok identity else refuse (.noInnerProduct (.based v))
  | .tensorProduct factors => ofFactors factors
  | .tensorPower order factor =>
    if order = 0 then refuse .orderMustBePositive
    else do tensorPower factor (← ofSpace factor) order
  | .symmetricPower order factor =>
    ofPower (.symmetricPower order factor) order factor (ofSpace factor)
  | .exteriorPower order factor =>
    ofPower (.exteriorPower order factor) order factor (ofSpace factor)
  | .directSum summands => do return directSum summands (← ofSummands summands)
  | .diagonal left right =>
    if left.isEuclidean && right.isEuclidean then .ok identity
    else refuse (.noInnerProduct (.diagonal left right))

def ofFactors : List Space → Except Fault (Metric α)
  | [] => .ok fun _ _ => .ok one
  | [factor] => ofSpace factor
  | head :: next :: rest => do
    let headMetric ← ofSpace head
    let body ← ofFactors (next :: rest)
    return product headMetric body (← (Space.tensorProduct (next :: rest)).dimension)

def ofSummands : List Space → Except Fault (List (Metric α))
  | [] => .ok []
  | s :: rest => do
    let metric ← ofSpace s
    return metric :: (← ofSummands rest)

end

end Metric

namespace InnerProduct

variable {α : Type} [Scalar α]

/-- The inner product as a generator: component `flat` of the symmetric square is the metric at the pair
that it stands for. -/
def generator (space : Space) : Except Fault (Generator α) := do
  let metric ← Metric.ofSpace space
  let dimension ← (Space.symmetricPower 2 space.dual).dimension
  return .ofFunction (Text.applied "inner_product" [space.text]) dimension fun flat => do
    match ← Packed.symmetricParts flat 2 with
    | p :: q :: _ => metric p q
    | _ => throw .outOfBounds

def tensor (space : Space) : Except Fault (Tensor α) := do
  Tensor.procedural (.symmetricPower 2 space.dual) (← generator space)

def term (g : Generator α) (x : Array α) (p q : Nat) : CountM α := do
  match x[p]?, x[q]? with
  | some left, some right =>
    let product ← CountM.ofExcept (Scalar.mul left right)
    let metric ← g.evaluate (← CountM.ofExcept (Packed.symmetricFlat [p, q]))
    CountM.ofExcept (Scalar.mul product metric)
  | _, _ => throw .outOfBounds

def quadraticSum (g : Generator α) (x : Array α) : CountM α :=
  RowMajor.foldTuples (m := CountM)
    (fun pair acc => do
      match pair with
      | [p, q] => CountM.ofExcept (Scalar.add acc (← term g x p q))
      | _ => throw .outOfBounds)
    [x.size, x.size] Scalar.zero

def squaredSum (space : Space) (components : EvalM α (Array α)) : EvalM α α := do
  let g ← EvalM.ofExcept (generator space)
  let x ← components
  EvalM.ofCountM (quadraticSum g x)

/-- The squared norm as a real number. It says little about complex components. -/
def squaredNorm (space : Space) (components : EvalM α (Array α)) : EvalM α Magnitude := do
  return Scalar.magnitude (← squaredSum space components)

end InnerProduct

namespace Tensor

variable {α : Type} [Scalar α]

def squaredNorm (t : Tensor α) : EvalM α Magnitude := InnerProduct.squaredNorm t.space t.toArray

def norm (t : Tensor α) : EvalM α Magnitude := do return (← t.squaredNorm).sqrt

end Tensor

end IndexNotation
