import IndexNotation.Tensor
/-!
Index expressions: tensors with a symbol at each slot, and the nodes that combine them. An expression
has free indices, over which its components range, and used symbols, which are summed inside it.
-/
namespace IndexNotation

structure FreeIndex where
  symbol : Symbol
  factor : Space
deriving DecidableEq

namespace FreeIndex

def symbols (free : List FreeIndex) : IndexList := free.map symbol

def dimensions (free : List FreeIndex) : Except Fault (List Nat) :=
  Space.dimensions (free.map factor)

def position? (free : List FreeIndex) (s : Symbol) : Option Nat := (symbols free).idxOf? s

theorem symbols_zipWith_mk {names : IndexList} {factors : List Space}
    (same : names.length = factors.length) : symbols (names.zipWith mk factors) = names := by
  induction names generalizing factors with
  | nil => rfl
  | cons s rest ih =>
    cases factors with
    | nil => cases same
    | cons factor factors => simpa [symbols] using ih (Nat.succ.inj same)

theorem factors_zipWith_mk {names : IndexList} {factors : List Space}
    (same : names.length = factors.length) : (names.zipWith mk factors).map factor = factors := by
  induction names generalizing factors with
  | nil => exact (List.length_eq_zero_iff.mp same.symm).symm
  | cons s rest ih =>
    cases factors with
    | nil => cases same
    | cons factor factors => simpa using ih (Nat.succ.inj same)

/-- The space of tensors with these indices: the one factor, or the product of all. -/
def space : List FreeIndex → Space
  | [index] => index.factor
  | free => .tensorProduct (free.map factor)

end FreeIndex

/-- Where an operand's slot takes its value from: the free values of the node, or the summed ones. -/
inductive Source where
  | free (position : Nat)
  | summed (position : Nat)
deriving DecidableEq

def Source.of (free summed : IndexList) (s : Symbol) : Source :=
  match summed.idxOf? s with
  | some position => .summed position
  | none => .free (free.idxOf s)

def Source.value (free summed : List Nat) (source : Source) : Except Fault Nat :=
  let found := match source with
    | .free position => free[position]?
    | .summed position => summed[position]?
  match found with
  | some value => .ok value
  | none => .error .outOfBounds

/-- A tensor with a symbol at each slot; a symbol that stands at two slots is summed. -/
structure Leaf (α : Type) where
  tensor : Tensor α
  free : List FreeIndex
  used : IndexList
  slots : List Source
  slotDims : List Nat
  summedDims : List Nat

/-- How a product sums the symbols that are free in both operands. -/
structure Contraction where
  free : List FreeIndex
  used : IndexList
  contracted : IndexList
  summedDims : List Nat
  leftSources : List Source
  rightSources : List Source

structure Matching where
  used : IndexList
  /-- For each index of the right operand, its position among the free indices. -/
  positions : List Nat

inductive Scaling (α : Type) where
  | times (x : α)
  | divided (x : α)
  | negated

/-- Several free indices merged into a last one over `target`. -/
structure Bundling where
  free : List FreeIndex
  /-- The operand's positions that stay as they are. -/
  kept : List Nat
  /-- The operand's positions that are merged. -/
  merged : List Nat
  mergedDims : List Nat
  target : Space
  /-- A product's values are told apart row-major, those of any other target by its canonical tuples. -/
  isProduct : Bool

/-- One free index replaced in place by one for each factor of its space. -/
structure Splitting where
  free : List FreeIndex
  position : Nat
  count : Nat
  source : Space

inductive Expression (α : Type) where
  | indexed (leaf : Leaf α)
  | product (left right : Expression α) (contraction : Contraction)
  | sum (left right : Expression α) (isDifference : Bool) (matching : Matching)
  | scaled (operand : Expression α) (scaling : Scaling α)
  | bundled (operand : Expression α) (bundling : Bundling)
  | split (operand : Expression α) (splitting : Splitting)
  | renamed (operand : Expression α) (free : List FreeIndex) (used : IndexList)
  /-- All components are evaluated once, at the first request, and kept in a cache. -/
  | cached (operand : Expression α) (cache : Nat) (dims : List Nat)

namespace Expression

variable {α : Type}

/-- The indices over which the components range, in the order in which they take values. -/
def free : Expression α → List FreeIndex
  | indexed leaf => leaf.free
  | product _ _ contraction => contraction.free
  | sum left _ _ _ => left.free
  | scaled operand _ => operand.free
  | bundled _ bundling => bundling.free
  | split _ splitting => splitting.free
  | renamed _ free _ => free
  | cached operand _ _ => operand.free

def used : Expression α → IndexList
  | indexed leaf => leaf.used
  | product _ _ contraction => contraction.used
  | sum _ _ _ matching => matching.used
  | scaled operand _ => operand.used
  | bundled operand _ => operand.used
  | split operand _ => operand.used
  | renamed _ _ used => used
  | cached operand _ _ => operand.used

def freeSymbols (e : Expression α) : IndexList := FreeIndex.symbols e.free

def freeDims (e : Expression α) : Except Fault (List Nat) := FreeIndex.dimensions e.free

def space (e : Expression α) : Space := FreeIndex.space e.free

def mentions (e : Expression α) (s : Symbol) : Bool := e.freeSymbols.contains s || e.used.contains s

end Expression

end IndexNotation
