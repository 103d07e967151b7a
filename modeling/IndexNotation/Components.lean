import IndexNotation.Generator
import IndexNotation.RowMajor
/-!
Where the components of a tensor live: in stored cells, in a generator, or in a window onto another such
place. A window has no cell of its own and never reaches outside its bounds.
-/
namespace IndexNotation

inductive Storage where
  | member
  | preallocated
  /-- Owned by the caller and read only. -/
  | constant
  /-- Owned by the caller, and open to several tensors at once. -/
  | shared
deriving DecidableEq

def Storage.text : Storage → String
  | member => "member"
  | preallocated => "preallocated"
  | constant => "const-preallocated"
  | shared => "shared"

inductive Components (α : Type) where
  /-- The cells of `block` from `offset` on. -/
  | stored (storage : Storage) (block offset length : Nat)
  | generated (generator : Generator α)
  | window (base : Components α) (offset length : Nat)

namespace Components

variable {α : Type}

def length : Components α → Nat
  | stored _ _ _ length => length
  | generated generator => generator.dimension
  | window _ _ length => length

def kind : Components α → String
  | stored storage _ _ _ => storage.text
  | generated _ => "procedural"
  | window base _ _ => base.kind

def isWritable : Components α → Bool
  | stored storage _ _ _ => storage ≠ .constant
  | generated _ => false
  | window base _ _ => base.isWritable

def window? (base : Components α) (offset length : Nat) : Except Fault (Components α) := do
  let stop ← Size.add offset length
  if stop ≤ base.length then .ok (.window base offset length)
  else .error (.windowTooLong offset stop base.length)

def locate : Components α → Nat → Except Fault Location
  | stored _ block offset length, index =>
    if index < length then .ok ⟨block, offset + index⟩ else .error .outOfBounds
  | generated _, _ => .error .termsBroken
  | window base offset length, index =>
    if index < length then base.locate (offset + index) else .error .termsBroken

def get : Components α → Nat → EvalM α α
  | stored _ block offset length, index =>
    if index < length then EvalM.read ⟨block, offset + index⟩ else EvalM.ofExcept (.error .outOfBounds)
  | generated generator, index => EvalM.ofCountM (generator.evaluate index)
  | window base offset length, index =>
    if index < length then base.get (offset + index) else EvalM.ofExcept (.error .termsBroken)

def set (c : Components α) (index : Nat) (x : α) : StoreM α Unit := do
  StoreM.write (← StoreM.ofExcept (c.locate index)) x

def first (c : Components α) (count : Nat) : EvalM α (Array α) :=
  RowMajor.foldFrom (fun index acc => do return acc.push (← c.get index)) count 0 #[]

/-- The stored cells as one piece of memory, where they can be lent out as that: shared cells and
generated components cannot. -/
def slice? : Components α → Memory α → Except Fault (Option (Array α))
  | stored .shared _ _ _, _ => .ok none
  | stored _ block offset length, memory =>
    .ok (some ((memory.cells block).extract offset (offset + length)))
  | generated _, _ => .ok none
  | window base offset length, memory => do
    match ← base.slice? memory with
    | none => return none
    | some cells =>
      if offset + length ≤ cells.size then return some (cells.extract offset (offset + length))
      else throw .outOfBounds

variable [Scalar α]

def range? : Components α → Memory α → Except Fault (Option ByteRange)
  | stored _ block offset length, memory =>
    .ok (some (memory.range block offset length (Scalar.width α)))
  | generated _, _ => .ok none
  | window base offset length, memory => do
    match ← base.range? memory with
    | none => return none
    | some range =>
      return some (← range.narrow (← Size.mul offset (Scalar.width α))
        (← Size.mul length (Scalar.width α)))

/-- A generator of the first `count` components as they are now. Stored cells are copied and a
generator is handed out as it is. A window freezes its whole base and reads that at its offset. -/
def freeze : Components α → Nat → StoreM α (Generator α)
  | c@(stored ..), count => do
    StoreM.ofExcept (Size.reserve count (Scalar.width α))
    let values ← StoreM.ofEvalM (c.first count)
    return Generator.snapshot (← StoreM.freshSnapshot) values
  | generated generator, _ => return generator
  | window base offset _, count => do
    let frozen ← base.freeze base.length
    return { id := frozen.id ++ "[" ++ toString offset ++ "..]"
             dimension := count
             evaluator index := do frozen.evaluate (← CountM.ofExcept (Size.add offset index))
             steady _ := (CountM.steady_ofExcept _).bind fun _ => frozen.steady_evaluate _ }

def store (storage : Storage) (cells : Array α) : StoreM α (Components α) := do
  let block ← StoreM.allocate cells (Scalar.width α)
  return .stored storage block 0 cells.size

def zeros (count : Nat) : StoreM α (Components α) := do
  StoreM.ofExcept (Size.reserve count (Scalar.width α))
  store .member (Array.replicate count Scalar.zero)

end Components

end IndexNotation
