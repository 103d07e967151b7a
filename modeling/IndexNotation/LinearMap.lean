import IndexNotation.Assignment
/-!
Linear maps between two spaces, stored as tensors over the codomain and the dual of the domain, a row
for each component of the codomain. Their vectors are tensors with a single index.
-/
namespace IndexNotation

structure LinearMap (α : Type) where
  domain : Space
  codomain : Space
  tensor : Tensor α

namespace LinearMap

variable {α : Type}

def space (domain codomain : Space) : Space := .tensorProduct [codomain, domain.dual]

def index (map : LinearMap α) (row column : Symbol) : Except Fault (Expression α) :=
  insist (Expression.index map.tensor [row, column])

variable [Scalar α]

def zero (domain codomain : Space) : StoreM α (LinearMap α) := do
  return ⟨domain, codomain, ← Tensor.zeros (space domain codomain)⟩

def ofComponents (domain codomain : Space) (values : Array α) : StoreM α (LinearMap α) := do
  return ⟨domain, codomain, ← Tensor.member (space domain codomain) values⟩

/-- The image of a vector: the product of the two, summed over the column. -/
def apply (map : LinearMap α) (vector : Tensor α) : StoreM α (Tensor α) := do
  let row ← StoreM.freshSymbol
  let column ← StoreM.freshSymbol
  let result ← Tensor.zeros map.codomain
  let matrix ← StoreM.ofExcept (map.index row column)
  let operand ← StoreM.ofExcept (insist (Expression.index vector [column]))
  let image ← StoreM.ofExcept (matrix.mul operand)
  let target ← StoreM.ofExcept (insist (result.target [row]))
  target.assign image
  return result

/-- Overwrite the map with an expression of two free indices: the first becomes the row and the second
the column, whatever their symbols. -/
def assign (map : LinearMap α) (e : Expression α) : StoreM α Unit := do
  let symbols := e.freeSymbols
  if symbols.length ≠ 2 then
    StoreM.ofExcept (refuse (.lengthMustBeExactly 2 symbols.length))
  let row ← StoreM.freshSymbol
  let column ← StoreM.freshSymbol
  let renamed ← e.reindex symbols [row, column]
  let target ← StoreM.ofExcept (insist (map.tensor.target [row, column]))
  target.assign renamed

end LinearMap

end IndexNotation
