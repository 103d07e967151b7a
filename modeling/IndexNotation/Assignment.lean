import IndexNotation.Expression.Component
/-!
Assignment of an expression into the components of a tensor, by way of a temporary, or directly. Through
the temporary every component is evaluated before the first is written, so that the expression may read
the cells it is assigned to; directly, later components see what earlier ones have written.
-/
namespace IndexNotation

variable {α : Type}

structure Target (α : Type) where
  tensor : Tensor α
  free : List FreeIndex
  dims : List Nat

def Tensor.target (t : Tensor α) (symbols : IndexList) : Except Fault (Target α) := do
  if let some s := symbols.firstRepeat then refuse (.duplicateFreeIndex s)
  let factors ← t.space.indexedFactors symbols
  let dims ← Space.dimensions factors
  return ⟨t, symbols.zipWith FreeIndex.mk factors, dims⟩

namespace Target

variable [Scalar α]

def evaluate (target : Target α) (e : Expression α) (positions : List Nat) :
    EvalM α (Array (Nat × α)) :=
  EvalM.foldTuples
    (fun values acc => do
      let operandValues ← EvalM.ofExcept (valuesAt values positions)
      let offset ← EvalM.ofExcept (RowMajor.offset values target.dims)
      return acc.push (offset, ← e.component operandValues))
    target.dims #[]

/-- Evaluate all of the expression, then write it. Its free indices are the target's, in any order. -/
def assign (target : Target α) (e : Expression α) : StoreM α Unit := do
  let positions ← StoreM.ofExcept (FreeIndex.align target.free e.free)
  let dimension ← StoreM.ofExcept target.tensor.dimension
  -- each component waits beside its offset, aligned to eight bytes
  StoreM.ofExcept (Size.reserve dimension (8 + (Scalar.width α + 7) / 8 * 8))
  let values ← StoreM.ofEvalM (target.evaluate e positions)
  values.forM fun (offset, x) => target.tensor.components.set offset x

/-- Write each component as soon as it is evaluated. -/
def assignDirectly (target : Target α) (e : Expression α) : StoreM α Unit := do
  let positions ← StoreM.ofExcept (FreeIndex.align target.free e.free)
  RowMajor.foldTuples (m := StoreM α)
    (fun values _ => do
      let operandValues ← StoreM.ofExcept (valuesAt values positions)
      let offset ← StoreM.ofExcept (RowMajor.offset values target.dims)
      let x ← StoreM.ofEvalM (e.component operandValues)
      target.tensor.components.set offset x)
    target.dims ()

end Target

end IndexNotation
