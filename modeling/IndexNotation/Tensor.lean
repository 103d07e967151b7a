import IndexNotation.Components
import IndexNotation.Space.Index

namespace IndexNotation

structure Tensor (α : Type) where
  space : Space
  components : Components α

namespace Tensor

variable {α : Type}

/-- A tensor on given components. Their number is checked against the dimension unless the caller
vouches for it. -/
def ofComponents (space : Space) (components : Components α) (check : Bool) :
    Except Fault (Tensor α) := do
  if check then
    let dimension ← space.dimension
    if components.length ≠ dimension then
      refuse (.componentCountMismatch dimension components.length)
  return ⟨space, components⟩

def dimension (t : Tensor α) : Except Fault Nat := t.space.dimension

def component (t : Tensor α) (index : Nat) : EvalM α α := t.components.get index

def isWritable (t : Tensor α) : Bool := t.components.isWritable

def detail (t : Tensor α) : Except Fault String := do
  return Text.record "Tensor" [("concept", t.space.detail), ("dimension", toString (← t.dimension)),
    ("array", Text.quoted t.components.kind)]

def slice? (t : Tensor α) (memory : Memory α) : Except Fault (Option (Array α)) := do
  match ← t.components.slice? memory with
  | none => return none
  | some cells =>
    let dimension ← t.dimension
    if dimension ≤ cells.size then return some (cells.extract 0 dimension)
    else throw .outOfBounds

section Scalar

variable [Scalar α]

def toArray (t : Tensor α) : EvalM α (Array α) := do
  let dimension ← EvalM.ofExcept t.dimension
  EvalM.ofExcept (Size.reserve dimension (Scalar.width α))
  t.components.first dimension

def bytes? (t : Tensor α) (memory : Memory α) : Except Fault (Option (List UInt8)) := do
  return (← t.slice? memory).map fun cells => cells.toList.flatMap Scalar.bytes

def allocation (t : Tensor α) (memory : Memory α) : Except Fault Nat := do
  match ← t.components.range? memory with
  | none => return 0
  | some _ => Size.mul (← t.dimension) (Scalar.width α)

def member (space : Space) (values : Array α) : StoreM α (Tensor α) := do
  let components ← Components.store .member values
  StoreM.ofExcept (ofComponents space components true)

def zeros (space : Space) : StoreM α (Tensor α) := do
  return ⟨space, ← Components.zeros (← StoreM.ofExcept space.dimension)⟩

def copy (t : Tensor α) : StoreM α (Tensor α) := do
  let values ← StoreM.ofEvalM t.toArray
  return ⟨t.space, ← Components.store .member values⟩

def procedural (space : Space) (generator : Generator α) : Except Fault (Tensor α) :=
  ofComponents space (.generated generator) true

def zero (space : Space) : Except Fault (Tensor α) := do
  return ⟨space, .generated (.zero (← space.dimension))⟩

def basisVector (space : Space) (k : Nat) : Except Fault (Tensor α) := do
  let dimension ← space.dimension
  if dimension ≤ k then refuse (.indexOutOfRange k dimension)
  else return ⟨space, .generated (.characteristic dimension k)⟩

/-- The tensor frozen as it is now: later writes to memory do not reach it. -/
def freeze (t : Tensor α) : StoreM α (Tensor α) := do
  return ⟨t.space, .generated (← t.components.freeze (← StoreM.ofExcept t.dimension))⟩

end Scalar

/-- The generator of a tensor that has no cells and is no window. -/
def generator? (t : Tensor α) : Option (Generator α) :=
  match t.components with
  | .generated generator => some generator
  | _ => none

end Tensor

end IndexNotation
