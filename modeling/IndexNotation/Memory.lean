import IndexNotation.Size
/-!
Memory: blocks of cells, each cell holding one component, and the byte ranges they take. Blocks are
only ever added and cells overwritten, so a location stays good once it is.
-/
namespace IndexNotation

/-- A half-open range of byte addresses. Narrowing past the end leaves `start` above `stop`. -/
structure ByteRange where
  start : Nat
  stop : Nat
deriving DecidableEq

namespace ByteRange

def size (r : ByteRange) : Except Fault Nat := Size.sub r.stop r.start

def isEmpty (r : ByteRange) : Bool := r.start == r.stop

/-- The part `count` bytes long that starts `offset` bytes in, clipped at the end of the range. -/
def narrow (r : ByteRange) (offset count : Nat) : Except Fault ByteRange := do
  let start ← Size.add r.start offset
  return ⟨start, min (← Size.add start count) r.stop⟩

def overlaps (r s : ByteRange) : Bool :=
  !r.isEmpty && !s.isEmpty && r.start < s.stop && s.start < r.stop

end ByteRange

structure Block (α : Type) where
  address : Nat
  cells : Array α

structure Location where
  block : Nat
  cell : Nat
deriving DecidableEq

structure Memory (α : Type) where
  blocks : Array (Block α)
  nextAddress : Nat

namespace Memory

variable {α : Type}

/-- No blocks yet; addresses start high, as on a machine. -/
def empty : Memory α := ⟨#[], Nat.pow 2 46⟩

def read? (memory : Memory α) (location : Location) : Option α :=
  memory.blocks[location.block]?.bind fun block => block.cells[location.cell]?

def read (memory : Memory α) (location : Location) : Except Fault α :=
  match memory.read? location with
  | some x => .ok x
  | none => .error .outOfBounds

def write (memory : Memory α) (location : Location) (x : α) : Memory α :=
  { memory with
    blocks := memory.blocks.modify location.block fun block =>
      { block with cells := block.cells.setIfInBounds location.cell x } }

def allocate (memory : Memory α) (cells : Array α) (width : Nat) : Nat × Memory α :=
  (memory.blocks.size,
    { blocks := memory.blocks.push ⟨memory.nextAddress, cells⟩
      nextAddress := memory.nextAddress + cells.size * width + 16 })

def cells (memory : Memory α) (block : Nat) : Array α :=
  (memory.blocks[block]?.map Block.cells).getD #[]

def range (memory : Memory α) (block offset length width : Nat) : ByteRange :=
  let start := (memory.blocks[block]?.map Block.address).getD 0 + offset * width
  ⟨start, start + length * width⟩

theorem read?_write_self {memory : Memory α} {location : Location} {old : α}
    (present : memory.read? location = some old) (x : α) :
    (memory.write location x).read? location = some x := by
  simp only [read?, Option.bind_eq_some_iff] at present
  obtain ⟨block, found, cell⟩ := present
  obtain ⟨inside, rfl⟩ := Array.getElem?_eq_some_iff.mp found
  obtain ⟨bound, -⟩ := Array.getElem?_eq_some_iff.mp cell
  simp [read?, write, inside, bound, Array.getElem_modify_self]

theorem read?_write_of_ne (memory : Memory α) {location other : Location} (apart : location ≠ other)
    (x : α) : (memory.write location x).read? other = memory.read? other := by
  simp only [read?, write, Array.getElem?_modify]
  by_cases same : location.block = other.block
  · have cells : location.cell ≠ other.cell := by
      intro cells
      apply apart
      cases location
      cases other
      simp_all
    simp only [same, if_true, Option.bind_map, Function.comp_def]
    simp [cells]
  · simp [same]

end Memory

end IndexNotation
