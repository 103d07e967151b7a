import IndexNotation.Scalar.Basic
import IndexNotation.Store
import IndexNotation.Text.Quoted
/-!
Generators: components computed on demand from their flat index, known by an id. Two generators with
equal ids and dimensions pass for the same.
-/
namespace IndexNotation

structure Generator (α : Type) where
  id : String
  dimension : Nat
  /-- The component at an index, asked for only below the dimension. -/
  evaluator : Nat → CountM α
  /-- A generator is a function of the index. -/
  steady : ∀ index, (evaluator index).Steady

namespace Generator

variable {α : Type}

def evaluate (g : Generator α) (index : Nat) : CountM α :=
  if index < g.dimension then g.evaluator index
  else throw (.generatorOutOfRange index g.id g.dimension)

theorem steady_evaluate (g : Generator α) (index : Nat) : (g.evaluate index).Steady := by
  unfold evaluate
  split
  · exact g.steady index
  · exact CountM.steady_throw _

def same (g h : Generator α) : Bool := g.id == h.id && g.dimension == h.dimension

def detail (g : Generator α) : String :=
  Text.record "ComponentGenerator" [("id", Text.applied "GeneratorId" [Text.quoted g.id]),
    ("dimension", toString g.dimension)]

def ofFunction (id : String) (dimension : Nat) (component : Nat → Except Fault α) : Generator α :=
  ⟨id, dimension, fun index => CountM.ofExcept (component index), fun _ => CountM.steady_ofExcept _⟩

def counting (id : String) (dimension counter : Nat) (component : Nat → Except Fault α) :
    Generator α where
  id := id
  dimension := dimension
  evaluator index := do
    CountM.tick counter
    CountM.ofExcept (component index)
  steady _ := (CountM.steady_tick counter).bind fun _ => CountM.steady_ofExcept _

/-- A copy of `values`; the serial number keeps its id apart from all others. -/
def snapshot (serial : Nat) (values : Array α) : Generator α :=
  ofFunction ("snapshot#" ++ toString serial) values.size fun index =>
    match values[index]? with
    | some x => .ok x
    | none => .error .outOfBounds

variable [Scalar α]

open Scalar

def zero (dimension : Nat) : Generator α := ofFunction "zero" dimension fun _ => .ok Scalar.zero

def constant (dimension : Nat) (x : α) : Generator α :=
  ofFunction (Text.applied "constant" [Scalar.detail x]) dimension fun _ => .ok x

def characteristic (dimension k : Nat) : Generator α :=
  ofFunction (Text.applied "characteristic" [toString k]) dimension fun index =>
    .ok (if index = k then one else Scalar.zero)

def identity (n : Nat) : Except Fault (Generator α) := do
  let dimension ← Size.mul n n
  return ofFunction "identity" dimension fun index => do
    let row ← Size.div index n
    let column ← Size.mod index n
    return if row = column then one else Scalar.zero

def ramp (id : String) (dimension : Nat) (step start : α) : Generator α :=
  ofFunction id dimension fun index => do add (← mul (ofNat index) step) start

end Generator

end IndexNotation
