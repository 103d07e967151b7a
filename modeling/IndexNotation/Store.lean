import IndexNotation.Memory
import IndexNotation.Symbol
/-!
What a computation may read and change. Evaluating a component reads memory but cannot write it: all it
leaves behind are filled caches and evaluation counts. Building and assigning work on the whole store.
A failure keeps what was done before it.
-/
namespace IndexNotation

abbrev Counts := Array Nat

/-- A computation that may fail and count evaluations, but knows no memory. -/
abbrev CountM (β : Type) := ExceptT Fault (StateM Counts) β

/-- What evaluation leaves behind: the components in each cache that is filled, and the counts. -/
structure Scratch (α : Type) where
  caches : Array (Option (Array α))
  counts : Counts

abbrev EvalM (α β : Type) := ReaderT (Memory α) (ExceptT Fault (StateM (Scratch α))) β

structure Store (α : Type) where
  memory : Memory α
  scratch : Scratch α
  nextSymbol : Nat
  nextSnapshot : Nat

abbrev StoreM (α β : Type) := ExceptT Fault (StateM (Store α)) β

variable {α β : Type}

def Store.empty : Store α := ⟨.empty, ⟨#[], #[]⟩, 0, 0⟩

namespace CountM

def tick (counter : Nat) : CountM Unit := ExceptT.lift (modify fun counts => counts.modify counter (· + 1))

def ofExcept (x : Except Fault β) : CountM β := ExceptT.mk (pure x)

/-- The outcome is the same whatever has been counted before. -/
def Steady (x : CountM β) : Prop := ∀ counts counts', (x counts).1 = (x counts').1

theorem steady_pure (a : β) : Steady (pure a) := fun _ _ => rfl

theorem steady_throw (fault : Fault) : Steady (throw fault : CountM β) := fun _ _ => rfl

theorem steady_tick (counter : Nat) : Steady (tick counter) := fun _ _ => rfl

theorem steady_ofExcept (x : Except Fault β) : Steady (ofExcept x) := fun _ _ => rfl

theorem Steady.bind {γ : Type} {x : CountM β} {f : β → CountM γ} (steady : Steady x)
    (rest : ∀ a, Steady (f a)) : Steady (x >>= f) := by
  intro counts counts'
  have same := steady counts counts'
  change ((ExceptT.bindCont f (x counts).1) (x counts).2).1 =
    ((ExceptT.bindCont f (x counts').1) (x counts').2).1
  rw [same]
  cases (x counts').1 with
  | error fault => rfl
  | ok a => exact rest a _ _

end CountM

namespace EvalM

def ofExcept (x : Except Fault β) : EvalM α β := fun _ => ExceptT.mk (pure x)

def ofCountM (x : CountM β) : EvalM α β := fun _ scratch =>
  let (result, counts) := x scratch.counts
  (result, { scratch with counts })

def read (location : Location) : EvalM α α := fun memory => ExceptT.mk (pure (memory.read location))

def cached? (cache : Nat) : EvalM α (Option (Array α)) := fun _ => ExceptT.lift do
  return (← get).caches[cache]?.join

def fill (cache : Nat) (components : Array α) : EvalM α Unit := fun _ => ExceptT.lift do
  modify fun scratch =>
    { scratch with caches := scratch.caches.setIfInBounds cache (some components) }

/-- The components in a cache; `evaluate` fills it first if nothing has. Evaluation may be part of another monad, such
as one that keeps a record besides. -/
@[specialize] def once {m : Type → Type} [Monad m] [MonadLiftT (EvalM α) m] (cache : Nat)
    (evaluate : m (Array α)) : m (Array α) := do
  match ← (cached? cache : EvalM α (Option (Array α))) with
  | some components => pure components
  | none => do
    let components ← evaluate
    fill cache components
    pure components

end EvalM

namespace StoreM

def ofExcept (x : Except Fault β) : StoreM α β := ExceptT.mk (pure x)

def ofEvalM (x : EvalM α β) : StoreM α β := fun store =>
  let (result, scratch) := x store.memory store.scratch
  (result, { store with scratch })

def memory : StoreM α (Memory α) := ExceptT.lift do return (← get).memory

def write (location : Location) (x : α) : StoreM α Unit := ExceptT.lift do
  modify fun store => { store with memory := store.memory.write location x }

def allocate (cells : Array α) (width : Nat) : StoreM α Nat := ExceptT.lift do
  modifyGet fun store =>
    let (block, memory) := store.memory.allocate cells width
    (block, { store with memory })

def freshSymbol : StoreM α Symbol := ExceptT.lift do
  modifyGet fun store => (.fresh store.nextSymbol, { store with nextSymbol := store.nextSymbol + 1 })

def freshSnapshot : StoreM α Nat := ExceptT.lift do
  modifyGet fun store => (store.nextSnapshot, { store with nextSnapshot := store.nextSnapshot + 1 })

def newCache : StoreM α Nat := ExceptT.lift do
  modifyGet fun store =>
    (store.scratch.caches.size,
      { store with scratch := { store.scratch with caches := store.scratch.caches.push none } })

def newCounter : StoreM α Nat := ExceptT.lift do
  modifyGet fun store =>
    (store.scratch.counts.size,
      { store with scratch := { store.scratch with counts := store.scratch.counts.push 0 } })

def count (counter : Nat) : StoreM α Nat := ExceptT.lift do
  return (← get).scratch.counts[counter]?.getD 0

end StoreM

end IndexNotation
