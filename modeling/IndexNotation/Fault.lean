import IndexNotation.Symbol
import IndexNotation.Space.Text
/-!
What can go wrong: a composition or a construction is refused because it is ill-formed, or a
computation fails. Every cause has its own constructor and its wording stands in one place.
-/
namespace IndexNotation

inductive Refusal where
  | dimensionMismatch (symbol : Symbol) (left right : Nat)
  | factorMismatch (symbol : Symbol) (left right : List Space)
  | notNaturalPairing (symbol : Symbol) (left right : Space)
  | duplicateFreeIndex (symbol : Symbol)
  | indexNotFree (symbol : Symbol)
  | bundleIndicesMustBeDistinct (symbol : Symbol)
  | bundleAndResultMustBeDistinct (symbol : Symbol)
  | sourceAndSplitMustBeDistinct (symbol : Symbol)
  | bundleNeedsTwo (given : Nat)
  | freeIndexCollidesWithUsed (symbol : Symbol)
  | indexUsedMoreThanTwice (symbol : Symbol)
  | differentFreeIndices (left right : IndexList)
  | lengthMismatch (left right : Nat)
  | lengthMustBeExactly (expected actual : Nat)
  | indexCountMismatch (space : Space) (actual : Nat)
  | indexOutOfRange (value dimension : Nat)
  | notAScalar (freeIndices : Nat)
  | notSplittable (space : Space)
  | notBundleTarget (space : Space)
  | pastListEnd (index length : Nat)
  | componentCountMismatch (expected actual : Nat)
  | notADirectSum (space : Space)
  | notATwoTensor (space : Space)
  | noInnerProduct (space : Space)
  | orderMustBePositive
deriving DecidableEq

def Refusal.name : Refusal → String
  | dimensionMismatch .. => "DimensionMismatch"
  | factorMismatch .. => "FactorMismatch"
  | notNaturalPairing .. => "NotNaturalPairing"
  | duplicateFreeIndex .. => "DuplicateFreeIndex"
  | indexNotFree .. => "IndexNotFree"
  | bundleIndicesMustBeDistinct .. => "BundleIndicesMustBeDistinct"
  | bundleAndResultMustBeDistinct .. => "BundleAndResultingMustBeDistinct"
  | sourceAndSplitMustBeDistinct .. => "SourceAndSplitMustBeDistinct"
  | bundleNeedsTwo .. => "CanOnlyBundleAtLeastTwo"
  | freeIndexCollidesWithUsed .. => "FreeIndexCollidesWithUsed"
  | indexUsedMoreThanTwice .. => "IndexUsedMoreThanTwice"
  | differentFreeIndices .. => "OperandsHaveDifferentFreeIndices"
  | lengthMismatch .. => "LengthMismatch"
  | lengthMustBeExactly .. => "LengthMustBeExactly"
  | indexCountMismatch .. => "IndexCountMismatch"
  | indexOutOfRange .. => "IndexOutOfRange"
  | notAScalar .. => "NotAScalar"
  | notSplittable .. => "NotSplittable"
  | notBundleTarget .. => "NotBundleTarget"
  | pastListEnd .. => "AttemptedAccessPastListEnd"
  | componentCountMismatch .. => "ComponentCountMismatch"
  | notADirectSum .. => "NotADirectSum"
  | notATwoTensor .. => "NotA2Tensor"
  | noInnerProduct .. => "NoInnerProduct"
  | orderMustBePositive => "OrderMustBePositive"

def Refusal.message : Refusal → String
  | dimensionMismatch symbol left right =>
    "dimension mismatch for index " ++ symbol.text ++ ": " ++ toString left ++ " vs " ++
      toString right
  | factorMismatch symbol left right =>
    "factor mismatch for index " ++ symbol.text ++ ": " ++ Space.factorsText left ++ " vs " ++
      Space.factorsText right
  | notNaturalPairing symbol left right =>
    "summation over " ++ symbol.text ++ " is not a natural pairing: " ++ left.text ++ " with " ++
      right.text
  | duplicateFreeIndex symbol => "free index " ++ symbol.text ++ " appears more than once"
  | indexNotFree symbol => "index " ++ symbol.text ++ " is not free in the operand"
  | bundleIndicesMustBeDistinct symbol =>
    "bundled indices must be pairwise distinct, " ++ symbol.text ++ " repeats"
  | bundleAndResultMustBeDistinct symbol =>
    "resulting index " ++ symbol.text ++ " must be distinct from the operand's indices"
  | sourceAndSplitMustBeDistinct symbol =>
    "split index " ++ symbol.text ++ " must be distinct from the operand's indices"
  | bundleNeedsTwo given => "bundling needs at least 2 indices, got " ++ toString given
  | freeIndexCollidesWithUsed symbol =>
    "free index " ++ symbol.text ++
      " collides with an index already summed in the other operand"
  | indexUsedMoreThanTwice symbol => "index " ++ symbol.text ++ " is used more than twice"
  | differentFreeIndices left right =>
    "operands have different free indices: " ++ left.quoted ++ " vs " ++ right.quoted
  | lengthMismatch left right =>
    "index lists must have equal lengths: " ++ toString left ++ " vs " ++ toString right
  | lengthMustBeExactly expected actual =>
    "index list length must be exactly " ++ toString expected ++ ", got " ++ toString actual
  | indexCountMismatch space actual =>
    space.text ++ " cannot be indexed by " ++ toString actual ++ " indices"
  | indexOutOfRange value dimension =>
    "component index " ++ toString value ++ " out of range for dimension " ++ toString dimension
  | notAScalar freeIndices =>
    "only expressions without free indices convert to scalars, this one has " ++
      toString freeIndices
  | notSplittable space => space.text ++ " has no factor structure to split into"
  | notBundleTarget space => space.text ++ " cannot be the target of a bundle"
  | pastListEnd index length =>
    "attempted access to element " ++ toString index ++ " of a list of length " ++ toString length
  | componentCountMismatch expected actual =>
    "component count " ++ toString actual ++ " does not match dimension " ++ toString expected
  | notADirectSum space => space.text ++ " is not a direct sum"
  | notATwoTensor space => space.text ++ " is not a 2-tensor"
  | noInnerProduct space => "no inner product is defined on " ++ space.text
  | orderMustBePositive => "order must be positive"

inductive Fault where
  /-- The operation is ill-formed. -/
  | refused (reason : Refusal)
  /-- The caller vouched for a composition that is ill-formed. -/
  | insisted (reason : Refusal)
  /-- A size or an integer component leaves its range. -/
  | overflow
  | divisionByZero
  /-- A list or a store of components is read or written past its end. -/
  | outOfBounds
  /-- A caller broke the terms of an operation that does not word them. -/
  | termsBroken
  /-- More storage is asked for than can be addressed. -/
  | capacity
  | wrongDimensions (given : List Nat)
  | valueOutOfRange (value dimension : Nat)
  | windowTooLong (start stop length : Nat)
  | generatorOutOfRange (index : Nat) (id : String) (dimension : Nat)
  | emptyDirectSum
  | offsetTooLarge (offset dimension : Nat)
deriving DecidableEq

def Fault.message? : Fault → Option String
  | refused reason => some reason.message
  | insisted reason => some reason.message
  | overflow | divisionByZero | outOfBounds | termsBroken => none
  | capacity => some "capacity overflow"
  | wrongDimensions given =>
    some ("Multi-index dimensions " ++ Text.bracketed (given.map toString) ++
      " don't match free dimensions")
  | valueOutOfRange value dimension =>
    some ("Component index " ++ toString value ++ " out of range for dimension " ++
      toString dimension)
  | windowTooLong start stop length =>
    some ("View [" ++ toString start ++ ", " ++ toString stop ++ ") exceeds array of length " ++
      toString length)
  | generatorOutOfRange index id dimension =>
    some ("Component " ++ toString index ++ " out of range for generator " ++ id ++
      " of dimension " ++ toString dimension)
  | emptyDirectSum => some "Direct sum has no summands"
  | offsetTooLarge offset dimension =>
    some ("Offset " ++ toString offset ++ " exceeds direct sum dimension " ++ toString dimension)

def refuse {α : Type} (reason : Refusal) : Except Fault α := .error (.refused reason)

/-- Treat a refusal as the fault of a caller who vouched for the composition. -/
def insist {α : Type} : Except Fault α → Except Fault α
  | .error (.refused reason) => .error (.insisted reason)
  | other => other

end IndexNotation
