import IndexNotation.Expression.Build
import IndexNotation.InnerProduct
import IndexNotation.MultiIndex

namespace IndexNotation

variable {α : Type}

abbrev EvalM.foldTuples {β : Type} (step : List Nat → β → EvalM α β) (dims : List Nat) (acc : β) :
    EvalM α β :=
  RowMajor.foldTuples step dims acc

def Source.gather (sources : List Source) (free summed : List Nat) : Except Fault (List Nat) :=
  sources.mapM (Source.value free summed)

def valuesAt (values : List Nat) (positions : List Nat) : Except Fault (List Nat) :=
  positions.mapM fun position =>
    match values[position]? with
    | some value => .ok value
    | none => .error .outOfBounds

def placed (into : List Nat) (positions values : List Nat) : List Nat :=
  (positions.zip values).foldl (fun into (position, value) => into.set position value) into

def Bundling.operandValues (b : Bundling) (values : List Nat) : Except Fault (List Nat) := do
  match values[b.kept.length]? with
  | none => throw .outOfBounds
  | some last =>
    let parts ← if b.isProduct then .ok (RowMajor.split last b.mergedDims) else b.target.splitIndex last
    let zeros := List.replicate (b.kept.length + b.merged.length) 0
    return placed (placed zeros b.kept values) b.merged parts

def Splitting.operandValues (s : Splitting) (values : List Nat) :
    Except Fault (Option (List Nat × Sign)) := do
  let stop := s.position + s.count
  if values.length < stop then throw .outOfBounds
  match ← s.source.bundleIndex ((values.drop s.position).take s.count) with
  | none => return none
  | some (flat, sign) =>
    return some (values.take s.position ++ flat :: values.drop stop, sign)

variable [Scalar α]

def Scaling.apply (x : α) : Scaling α → Except Fault α
  | .times factor => Scalar.mul x factor
  | .divided divisor => Scalar.div x divisor
  | .negated => Scalar.negate x

def Sign.apply (x : α) : Sign → Except Fault α
  | .positive => .ok x
  | .negative => Scalar.negate x

def Leaf.slotComponent (leaf : Leaf α) (values summed : List Nat) : EvalM α α := do
  let slots ← EvalM.ofExcept (Source.gather leaf.slots values summed)
  leaf.tensor.component (← EvalM.ofExcept (RowMajor.offset slots leaf.slotDims))

def Leaf.component (leaf : Leaf α) (values : List Nat) : EvalM α α :=
  if leaf.summedDims.isEmpty then leaf.slotComponent values []
  else
    EvalM.foldTuples
      (fun summed acc => do EvalM.ofExcept (Scalar.add acc (← leaf.slotComponent values summed)))
      leaf.summedDims Scalar.zero

section Caching

-- evaluation itself, or a monad that it is part of
variable {m : Type → Type} [Monad m] [MonadLiftT (EvalM α) m]

@[specialize] def materialize (space : Space) (dims : List Nat) (component : List Nat → m α) : m (Array α) := do
  let dimension ← (EvalM.ofExcept space.dimension : EvalM α Nat)
  (EvalM.ofExcept (Size.reserve dimension (Scalar.width α)) : EvalM α Unit)
  RowMajor.foldTuples
    (fun values acc => do
      let offset ← (EvalM.ofExcept (RowMajor.offset values dims) : EvalM α Nat)
      let x ← component values
      return acc.setIfInBounds offset x)
    dims (Array.replicate dimension Scalar.zero)

@[specialize] def cachedComponent (cache : Nat) (space : Space) (dims : List Nat) (component : List Nat → m α)
    (values : List Nat) : m α := do
  let components ← EvalM.once cache (materialize space dims component)
  let offset ← (EvalM.ofExcept (RowMajor.offset values dims) : EvalM α Nat)
  (EvalM.ofExcept
    (match components[offset]? with
      | some x => .ok x
      | none => .error .outOfBounds) : EvalM α α)

@[specialize] def cachedComponents (cache : Nat) (space : Space) (dims : List Nat) (component : List Nat → m α) :
    m (Option (Array α)) := do
  return some (← EvalM.once cache (materialize space dims component))

end Caching

namespace Expression

/-- The component at the given values of the free indices, one for each, every one below its index's
dimension. -/
def component : Expression α → List Nat → EvalM α α
  | indexed leaf, values => leaf.component values
  | product left right contraction, values =>
    EvalM.foldTuples
      (fun summed acc => do
        let leftValues ← EvalM.ofExcept (Source.gather contraction.leftSources values summed)
        let rightValues ← EvalM.ofExcept (Source.gather contraction.rightSources values summed)
        let x ← component left leftValues
        let y ← component right rightValues
        EvalM.ofExcept do Scalar.add acc (← Scalar.mul x y))
      contraction.summedDims Scalar.zero
  | sum left right isDifference matching, values => do
    let rightValues ← EvalM.ofExcept (valuesAt values matching.positions)
    let x ← component left values
    let y ← component right rightValues
    EvalM.ofExcept (if isDifference then Scalar.sub x y else Scalar.add x y)
  | scaled operand scaling, values => do
    let x ← component operand values
    EvalM.ofExcept (scaling.apply x)
  | bundled operand bundling, values => do
    let operandValues ← EvalM.ofExcept (bundling.operandValues values)
    component operand operandValues
  | split operand splitting, values => do
    match ← EvalM.ofExcept (splitting.operandValues values) with
    | none => return Scalar.zero
    | some (operandValues, sign) =>
      let x ← component operand operandValues
      EvalM.ofExcept (sign.apply x)
  | renamed operand _ _, values => component operand values
  | cached operand cache dims, values => cachedComponent cache operand.space dims (component operand) values

def toArray (e : Expression α) : EvalM α (Array α) := do
  let dims ← EvalM.ofExcept e.freeDims
  materialize e.space dims e.component

/-- The components that a cache keeps, evaluated now if none have been asked for; none for any other
node. -/
def value? : Expression α → EvalM α (Option (Array α))
  | cached operand cache dims => cachedComponents cache operand.space dims operand.component
  | _ => return none

def componentAt (e : Expression α) (m : MultiIndex) : EvalM α α := do
  let dims ← EvalM.ofExcept e.freeDims
  if m.dims = dims then e.component m.values
  else EvalM.ofExcept (.error (.wrongDimensions m.dims))

def toScalar (e : Expression α) : EvalM α α :=
  if e.free.isEmpty then e.component [] else EvalM.ofExcept (refuse (.notAScalar e.free.length))

def squaredNorm (e : Expression α) : EvalM α Magnitude := do
  let components ← e.toArray
  InnerProduct.squaredNorm e.space (pure components)

def norm (e : Expression α) : EvalM α Magnitude := do return (← e.squaredNorm).sqrt

/-- Evaluating a component may read memory in the given range. A filled cache reads none. -/
def usesMemory : Expression α → ByteRange → EvalM α Bool
  | indexed leaf, range => fun memory => do
    match ← ExceptT.mk (pure (leaf.tensor.components.range? memory)) with
    | some own => return own.overlaps range
    | none => return false
  | product left right _, range => do
    if ← usesMemory left range then return true else usesMemory right range
  | sum left right _ _, range => do
    if ← usesMemory left range then return true else usesMemory right range
  | scaled operand _, range => usesMemory operand range
  | bundled operand _, range => usesMemory operand range
  | split operand _, range => usesMemory operand range
  | renamed operand _ _, range => usesMemory operand range
  | cached operand cache _, range => do
    if (← EvalM.cached? cache).isSome then return false else usesMemory operand range

end Expression

end IndexNotation
