import IndexNotation.Tensor
/-!
Direct sums. The components of a direct sum are those of its summands laid end to end, so that each
summand is a window onto the whole, and blocks put along a diagonal make a tensor over two sums.
-/
namespace IndexNotation

namespace DirectSum

def offset (summands : List Space) (n : Nat) : Except Fault Nat :=
  if n < summands.length then do Size.sum (← Space.dimensions (summands.take n))
  else refuse (.pastListEnd n summands.length)

def locateFrom (start : Nat) : (summands : List Space) → (n rest : Nat) → Except Fault (Nat × Nat)
  | [], _, rest => .error (.offsetTooLarge start (start - rest))
  | s :: summands, n, rest => do
    let dimension ← s.dimension
    if rest < dimension then return (n, rest)
    else locateFrom start summands (n + 1) (rest - dimension)

def locate (summands : List Space) (component : Nat) : Except Fault (Nat × Nat) :=
  if summands.isEmpty then .error .emptyDirectSum
  else locateFrom component summands 0 component

end DirectSum

namespace Tensor

variable {α : Type}

def summand (t : Tensor α) (n : Nat) : Except Fault (Tensor α) := do
  match t.space.summands with
  | none => refuse (.notADirectSum t.space)
  | some summands =>
    let offset ← DirectSum.offset summands n
    match summands[n]? with
    | none => refuse (.pastListEnd n summands.length)
    | some space =>
      let dimension ← space.dimension
      ofComponents space (← t.components.window? offset dimension) true

def summandAlong (t : Tensor α) (path : List Nat) : Except Fault (Tensor α) := path.foldlM summand t

end Tensor

namespace DirectSum

variable {α : Type}

def rowAndColumn (space : Space) : Except Fault (Space × Space) := do
  space.reserveSplitFactors
  match space.splitFactors with
  | some [row, column] => .ok (row, column)
  | _ => refuse (.notATwoTensor space)

variable [Scalar α]

def blockComponent (space : Space) (generator : Generator α) (row column : Nat) : CountM α := do
  match ← CountM.ofExcept (space.bundleIndex [row, column]) with
  | none => return Scalar.zero
  | some (flat, .positive) => generator.evaluate flat
  | some (flat, .negative) => CountM.ofExcept (Scalar.negate (← generator.evaluate flat))

theorem steady_blockComponent (space : Space) (generator : Generator α) (row column : Nat) :
    (blockComponent space generator row column).Steady := by
  unfold blockComponent
  refine (CountM.steady_ofExcept _).bind fun found => ?_
  split
  · exact CountM.steady_pure _
  · exact generator.steady_evaluate _
  · exact (generator.steady_evaluate _).bind fun _ => CountM.steady_ofExcept _

/-- The component of a block-diagonal tensor at a flat index: each summand of `rows` and `columns`
belongs to the block of its number, and `width` is the dimension of all columns. -/
def diagonalComponent (blocks : List (Space × Generator α)) (rows columns : List Space)
    (width flat : Nat) : CountM α := do
  let (n, row) ← CountM.ofExcept do locate rows (← Size.div flat width)
  let (m, column) ← CountM.ofExcept do locate columns (← Size.mod flat width)
  if n ≠ m then return Scalar.zero
  else
    match blocks[n]? with
    | none => throw .outOfBounds
    | some (block, generator) => blockComponent block generator row column

theorem steady_diagonalComponent (blocks : List (Space × Generator α)) (rows columns : List Space)
    (width flat : Nat) : (diagonalComponent blocks rows columns width flat).Steady := by
  unfold diagonalComponent
  refine (CountM.steady_ofExcept _).bind fun row => ?_
  refine (CountM.steady_ofExcept _).bind fun column => ?_
  dsimp only
  split
  · exact CountM.steady_pure _
  · split
    · exact CountM.steady_throw _
    · exact steady_blockComponent _ _ _ _

/-- The 2-tensors `blocks` along the diagonal of a tensor over the sum of their row factors and the sum
of their column factors. Off the diagonal blocks it is zero. -/
def blockDiagonal (blocks : List (Space × Generator α)) : Except Fault (Tensor α) := do
  let factors ← blocks.mapM fun (space, _) => rowAndColumn space
  let rows := factors.map Prod.fst
  let columns := factors.map Prod.snd
  let width ← (Space.directSum columns).dimension
  let space := Space.tensorProduct [.directSum rows, .directSum columns]
  let dimension ← space.dimension
  Tensor.procedural space
    { id := Text.applied "direct_sum_of_2tensors" [space.text]
      dimension
      evaluator := diagonalComponent blocks rows columns width
      steady := steady_diagonalComponent blocks rows columns width }

end DirectSum

end IndexNotation
