import IndexNotation.RowMajor

namespace IndexNotation

structure Coordinate where
  value : Nat
  dim : Nat
deriving DecidableEq

namespace Coordinate

/-- A coordinate in range; anything else is the caller's fault. -/
def inRange (value dim : Nat) : Except Fault Coordinate :=
  if value < dim then .ok ⟨value, dim⟩ else .error (.valueOutOfRange value dim)

/-- A coordinate in range; anything else is refused. -/
def inRange? (value dim : Nat) : Except Fault Coordinate :=
  if value < dim then .ok ⟨value, dim⟩ else refuse (.indexOutOfRange value dim)

def isAtEnd (c : Coordinate) : Bool := c.dim ≤ c.value

def increment (c : Coordinate) : Except Fault Coordinate := do
  return { c with value := ← Size.add c.value 1 }

def reset (c : Coordinate) : Coordinate := { c with value := 0 }

end Coordinate

/-- A position in the walk through all tuples below some dimensions, or its end. -/
structure MultiIndex where
  coordinates : List Coordinate
  isAtEnd : Bool
deriving DecidableEq

namespace MultiIndex

def values (m : MultiIndex) : List Nat := m.coordinates.map Coordinate.value

def dims (m : MultiIndex) : List Nat := m.coordinates.map Coordinate.dim

def size (m : MultiIndex) : Nat := m.coordinates.length

def start (dims : List Nat) : MultiIndex := ⟨dims.map fun dim => ⟨0, dim⟩, dims.contains 0⟩

/-- The tuple at a flat offset; the end when the offset is past the last. -/
def ofFlat (flat : Nat) (dims : List Nat) : Except Fault MultiIndex := do
  let total ← Size.product dims
  return ⟨(RowMajor.split flat dims).zipWith Coordinate.mk dims, total ≤ flat⟩

/-- The given coordinates; one of them at its end puts the whole at the end. -/
def ofCoordinates (coordinates : List Coordinate) : MultiIndex :=
  ⟨coordinates, coordinates.any Coordinate.isAtEnd⟩

def coordinate (m : MultiIndex) (position : Nat) : Except Fault Coordinate :=
  match m.coordinates[position]? with
  | some c => .ok c
  | none => .error .outOfBounds

def reset (m : MultiIndex) : MultiIndex :=
  ⟨m.coordinates.map Coordinate.reset, m.dims.contains 0⟩

/-- Add one at the last position and carry to the left; true when the carry leaves the first. -/
def carry : List Coordinate → List Coordinate × Bool
  | [] => ([], true)
  | c :: rest =>
    match carry rest with
    | (rest, false) => (c :: rest, false)
    | (rest, true) =>
      if c.value + 1 < c.dim then ({ c with value := c.value + 1 } :: rest, false)
      else (c.reset :: rest, true)

def increment (m : MultiIndex) : MultiIndex :=
  if m.isAtEnd then m
  else
    let (coordinates, finished) := carry m.coordinates
    ⟨coordinates, finished⟩

def advance : (count : Nat) → MultiIndex → MultiIndex
  | 0, m => m
  | count + 1, m => if m.isAtEnd then m else advance count m.increment

def flat (m : MultiIndex) : Except Fault Nat := RowMajor.offset m.values m.dims

def count (m : MultiIndex) : Except Fault Nat := Size.product m.dims

def walkWithin : (fuel : Nat) → MultiIndex → Except Fault (List (List Nat × Nat) × MultiIndex)
  | 0, m => .ok ([], m)
  | fuel + 1, m =>
    if m.isAtEnd then .ok ([], m)
    else do
      let flat ← m.flat
      let (rest, last) ← walkWithin fuel m.increment
      return ((m.values, flat) :: rest, last)

/-- The tuples from here to the end with their offsets, and the index at its end. No walk is longer
than the product of the dimensions. -/
def walk (m : MultiIndex) : Except Fault (List (List Nat × Nat) × MultiIndex) :=
  walkWithin (m.dims.foldr (· * ·) 1) m

@[simp] theorem values_start (dims : List Nat) :
    (start dims).values = List.replicate dims.length 0 := by
  simp [start, values, Function.comp_def, List.map_const']

@[simp] theorem dims_start (dims : List Nat) : (start dims).dims = dims := by
  simp [start, MultiIndex.dims, Function.comp_def]

theorem carry_dims (coordinates : List Coordinate) :
    (carry coordinates).1.map Coordinate.dim = coordinates.map Coordinate.dim := by
  induction coordinates with
  | nil => rfl
  | cons c rest ih =>
    simp only [carry]
    split
    · rename_i step
      rw [step] at ih
      simpa using ih
    · rename_i step
      rw [step] at ih
      split <;> simpa [Coordinate.reset] using ih

@[simp] theorem dims_increment (m : MultiIndex) : m.increment.dims = m.dims := by
  unfold increment
  split
  · rfl
  · exact carry_dims m.coordinates

end MultiIndex

end IndexNotation
