import IndexNotation.Expression.Component
import IndexNotation.Proofs.ByteRange
import IndexNotation.Proofs.Components
import IndexNotation.Proofs.Evaluation
/-!
Which cells an expression reads. Components that avoid some cells do not change when those cells do, and
an expression that uses no memory of a byte range avoids all cells in it: a window is narrowed to the bytes
that it can reach, and a filled cache stays filled.
-/
namespace IndexNotation

variable {α : Type}

def Memory.byte (memory : Memory α) (width : Nat) (location : Location) : Nat :=
  (memory.blocks[location.block]?.map Block.address).getD 0 + location.cell * width

namespace Components

variable [Scalar α]

theorem byte_of_range? {memory : Memory α} {c : Components α} {range : Option ByteRange} {index : Nat}
    {location : Location} (computed : c.range? memory = .ok range)
    (located : c.locate index = .ok location) :
    ∃ own, range = some own ∧ memory.byte (Scalar.width α) location = own.start + index * Scalar.width α ∧
      memory.byte (Scalar.width α) location + Scalar.width α ≤ own.stop := by
  induction c generalizing range index with
  | stored storage block offset length =>
      rw [locate] at located
      split at located
      · rename_i inside
        cases located
        cases computed
        have fits : (index + 1) * Scalar.width α ≤ length * Scalar.width α :=
          Nat.mul_le_mul_right _ inside
        rw [Nat.add_mul, Nat.one_mul] at fits
        refine ⟨_, rfl, ?_, ?_⟩
        · simp only [Memory.range, Memory.byte, Nat.add_mul]
          omega
        · simp only [Memory.range, Memory.byte, Nat.add_mul]
          omega
      · cases located
  | generated generator => cases located
  | window base offset length ih =>
      rw [locate] at located
      split at located
      · rename_i inside
        rw [range?] at computed
        obtain ⟨outer, whole, rest⟩ := bind_eq_ok_iff.mp computed
        obtain ⟨own, rfl, starts, within⟩ := ih whole located
        obtain ⟨skipped, first, rest⟩ := bind_eq_ok_iff.mp rest
        obtain ⟨count, second, rest⟩ := bind_eq_ok_iff.mp rest
        obtain ⟨narrowed, part, rest⟩ := bind_eq_ok_iff.mp rest
        cases rest
        obtain ⟨rfl, _⟩ := ByteRange.narrow_eq_ok_iff.mp part
        obtain ⟨rfl, _⟩ := Size.mul_eq_ok_iff.mp first
        obtain ⟨rfl, _⟩ := Size.mul_eq_ok_iff.mp second
        have fits : (index + 1) * Scalar.width α ≤ length * Scalar.width α :=
          Nat.mul_le_mul_right _ inside
        rw [Nat.add_mul, Nat.one_mul] at fits
        rw [Nat.add_mul] at starts
        refine ⟨_, rfl, ?_, ?_⟩
        · dsimp only
          omega
        · dsimp only
          omega
      · cases located

end Components

def Memory.SameOff (cells : Location → Prop) (memory other : Memory α) : Prop :=
  ∀ location, ¬ cells location → other.read? location = memory.read? location

def FilledSince (caches now : Caches α) : Prop :=
  ∀ cache : Nat, caches[cache]?.join.isSome → now[cache]?.join.isSome

theorem FilledSince.fill {caches now : Caches α} (since : FilledSince caches now) (cache : Nat)
    (components : Array α) : FilledSince caches (now.setIfInBounds cache (some components)) := by
  intro other filled
  have before := since other filled
  rw [Array.getElem?_setIfInBounds]
  split
  · rename_i same
    subst same
    split
    · rfl
    · rename_i outside
      simp [Array.getElem?_eq_none (Nat.le_of_not_lt outside)] at before
  · exact before

namespace EvalM

variable {β γ : Type}

/-- Once the caches of `caches` are filled, the computation runs the same on both memories. -/
def Alike (caches : Caches α) (memory other : Memory α) (x : EvalM α β) : Prop :=
  ∀ scratch, FilledSince caches scratch.caches →
    x other scratch = x memory scratch ∧ FilledSince caches (x memory scratch).2.caches

variable {caches : Caches α} {memory other : Memory α}

theorem alike_ofExcept (outcome : Except Fault β) : Alike caches memory other (ofExcept outcome) :=
  fun _ since => ⟨rfl, since⟩

theorem alike_pure (b : β) : Alike caches memory other (pure b) := fun _ since => ⟨rfl, since⟩

theorem alike_ofCountM (x : CountM β) : Alike caches memory other (ofCountM x) :=
  fun _ since => ⟨rfl, since⟩

theorem alike_read {location : Location} (same : other.read? location = memory.read? location) :
    Alike caches memory other (read location) := by
  intro scratch since
  refine ⟨?_, since⟩
  change (other.read location, scratch) = (memory.read location, scratch)
  rw [Memory.read, Memory.read, same]

theorem Alike.bind {x : EvalM α β} {f : β → EvalM α γ} (first : Alike caches memory other x)
    (rest : ∀ b, Alike caches memory other (f b)) : Alike caches memory other (x >>= f) := by
  intro scratch since
  obtain ⟨same, since'⟩ := first scratch since
  rw [bind_run, bind_run, same]
  rcases ran : x memory scratch with ⟨outcome, middle⟩
  rw [ran] at since'
  cases outcome with
  | error fault => exact ⟨rfl, since'⟩
  | ok b => exact rest b middle since'

theorem Alike.ofExcept_bind {outcome : Except Fault β} {f : β → EvalM α γ}
    (rest : ∀ b, Alike caches memory other (f b)) :
    Alike caches memory other (ofExcept outcome >>= f) :=
  (alike_ofExcept outcome).bind rest

theorem Alike.foldlM {steps : List γ} {f : β → γ → EvalM α β} {acc : β}
    (each : ∀ acc step, Alike caches memory other (f acc step)) :
    Alike caches memory other (steps.foldlM f acc) := by
  induction steps generalizing acc with
  | nil => exact alike_pure acc
  | cons step steps ih =>
      rw [List.foldlM_cons]
      exact (each acc step).bind fun next => ih

theorem Alike.foldTuples {dims : List Nat} {f : List Nat → β → EvalM α β} {acc : β}
    (each : ∀ values acc, Alike caches memory other (f values acc)) :
    Alike caches memory other (RowMajor.foldTuples f dims acc) := by
  rw [RowMajor.foldTuples_eq_foldlM]
  exact Alike.foldlM fun acc values => each values acc

theorem alike_once {cache : Nat} {evaluate : EvalM α (Array α)}
    (filling : caches[cache]?.join.isSome ∨ Alike caches memory other evaluate) :
    Alike caches memory other (once cache evaluate) := by
  intro scratch since
  rw [once_run, once_run]
  cases found : scratch.caches[cache]?.join with
  | some components => exact ⟨rfl, since⟩
  | none =>
      rcases filling with filled | alike
      · have now := since cache filled
        rw [found] at now
        cases now
      · obtain ⟨same, since'⟩ := alike scratch since
        dsimp only
        rw [same]
        rcases ran : evaluate memory scratch with ⟨outcome, later⟩
        rw [ran] at since'
        cases outcome with
        | error fault => exact ⟨rfl, since'⟩
        | ok components => exact ⟨rfl, since'.fill cache components⟩

end EvalM

namespace Components

def Avoids (cells : Location → Prop) (c : Components α) : Prop :=
  ∀ index location, c.locate index = .ok location → ¬ cells location

theorem get_alike {caches : Caches α} {memory other : Memory α} {cells : Location → Prop}
    (same : memory.SameOff cells other) {c : Components α} {index : Nat}
    (avoids : ∀ location, c.locate index = .ok location → ¬ cells location) :
    EvalM.Alike caches memory other (c.get index) := by
  induction c generalizing index with
  | stored storage block offset length =>
      rw [get]
      split
      · rename_i inside
        apply EvalM.alike_read
        apply same
        apply avoids
        rw [locate, if_pos inside]
      · exact EvalM.alike_ofExcept _
  | generated generator => exact EvalM.alike_ofCountM _
  | window base offset length ih =>
      rw [get]
      split
      · rename_i inside
        apply ih
        intro location located
        apply avoids
        rw [locate, if_pos inside, located]
      · exact EvalM.alike_ofExcept _

end Components

section Avoids

variable {cells : Location → Prop} {caches : Caches α} {memory other : Memory α}

/-- No leaf has components in the given cells, except below a filled cache. -/
def Expression.Avoids (cells : Location → Prop) (caches : Caches α) : Expression α → Prop
  | indexed leaf => leaf.tensor.components.Avoids cells
  | product left right _ => left.Avoids cells caches ∧ right.Avoids cells caches
  | sum left right _ _ => left.Avoids cells caches ∧ right.Avoids cells caches
  | scaled operand _ => operand.Avoids cells caches
  | bundled operand _ => operand.Avoids cells caches
  | split operand _ => operand.Avoids cells caches
  | renamed operand _ _ => operand.Avoids cells caches
  | cached operand cache _ => caches[cache]?.join.isSome ∨ operand.Avoids cells caches

variable [Scalar α]

theorem Leaf.component_alike (same : memory.SameOff cells other) {leaf : Leaf α}
    (avoids : leaf.tensor.components.Avoids cells) (values : List Nat) :
    EvalM.Alike caches memory other (leaf.component values) := by
  have slot (summed : List Nat) : EvalM.Alike caches memory other (leaf.slotComponent values summed) := by
    apply EvalM.Alike.ofExcept_bind
    intro slots
    apply EvalM.Alike.ofExcept_bind
    intro offset
    exact Components.get_alike same (avoids offset)
  rw [Leaf.component]
  split
  · exact slot []
  · apply EvalM.Alike.foldTuples
    intro summed acc
    exact (slot summed).bind fun x => EvalM.alike_ofExcept _

theorem materialize_alike {space : Space} {dims : List Nat} {component : List Nat → EvalM α α}
    (each : ∀ values, EvalM.Alike caches memory other (component values)) :
    EvalM.Alike caches memory other (materialize space dims component) := by
  apply EvalM.Alike.ofExcept_bind
  intro dimension
  apply EvalM.Alike.ofExcept_bind
  intro _
  apply EvalM.Alike.foldTuples
  intro values acc
  apply EvalM.Alike.ofExcept_bind
  intro offset
  exact (each values).bind fun x => EvalM.alike_pure _

/-- What is written to cells that an expression avoids does not change its components. -/
theorem Expression.component_alike (same : memory.SameOff cells other) {e : Expression α}
    (avoids : e.Avoids cells caches) (values : List Nat) :
    EvalM.Alike caches memory other (e.component values) := by
  induction e generalizing values with
  | indexed leaf => exact Leaf.component_alike same avoids values
  | product left right contraction ihLeft ihRight =>
      apply EvalM.Alike.foldTuples
      intro summed acc
      apply EvalM.Alike.ofExcept_bind
      intro leftValues
      apply EvalM.Alike.ofExcept_bind
      intro rightValues
      apply (ihLeft avoids.1 leftValues).bind
      intro x
      exact (ihRight avoids.2 rightValues).bind fun y => EvalM.alike_ofExcept _
  | sum left right isDifference matching ihLeft ihRight =>
      apply EvalM.Alike.ofExcept_bind
      intro rightValues
      apply (ihLeft avoids.1 values).bind
      intro x
      exact (ihRight avoids.2 rightValues).bind fun y => EvalM.alike_ofExcept _
  | scaled operand scaling ih => exact (ih avoids values).bind fun x => EvalM.alike_ofExcept _
  | bundled operand bundling ih => exact EvalM.Alike.ofExcept_bind fun operandValues => ih avoids operandValues
  | split operand splitting ih =>
      apply EvalM.Alike.ofExcept_bind
      intro found
      match found with
      | none => exact EvalM.alike_pure _
      | some (operandValues, sign) => exact (ih avoids operandValues).bind fun x => EvalM.alike_ofExcept _
  | renamed operand free used ih => exact ih avoids values
  | cached operand cache dims ih =>
      have filling : caches[cache]?.join.isSome ∨
          EvalM.Alike caches memory other (materialize operand.space dims operand.component) := by
        rcases avoids with filled | below
        · exact Or.inl filled
        · exact Or.inr (materialize_alike (ih below))
      apply (EvalM.alike_once filling).bind
      intro components
      exact EvalM.Alike.ofExcept_bind fun offset => EvalM.alike_ofExcept _

end Avoids

section UsesMemory

variable [Scalar α] {c : Components α} {range : ByteRange} {memory : Memory α}

theorem Components.avoids_of_overlaps (wide : 0 < Scalar.width α)
    (computed : c.range? memory = .ok (some range)) {leaf : Components α} {own : Option ByteRange}
    (read : leaf.range? memory = .ok own) (apart : own.any (·.overlaps range) = false) :
    leaf.Avoids c.Owns := by
  intro index location located owned
  rcases owned with ⟨place, _, there⟩
  rcases byte_of_range? read located with ⟨bytes, rfl, starts, within⟩
  rcases byte_of_range? computed there with ⟨whole, same, starts', within'⟩
  cases same
  have shared : memory.byte (Scalar.width α) location ∈ bytes ∧ memory.byte (Scalar.width α) location ∈ range := by
    rw [ByteRange.mem_iff, ByteRange.mem_iff]
    omega
  rw [Option.any_some, ByteRange.overlaps_iff_straddles.mpr (Or.inl ⟨_, shared⟩)] at apart
  cases apart

theorem Expression.usesMemory_indexed (leaf : Leaf α) (scratch : Scratch α) :
    (indexed leaf).usesMemory range memory scratch =
      (do return (← leaf.tensor.components.range? memory).any (·.overlaps range), scratch) := by
  rw [usesMemory]
  dsimp only
  cases leaf.tensor.components.range? memory with
  | error fault => rfl
  | ok own =>
      cases own with
      | none => rfl
      | some bytes => rfl

theorem Expression.usesMemory_both {left right : Expression α} {scratch later : Scratch α}
    (apart : (do if ← left.usesMemory range then return true else right.usesMemory range :
      EvalM α Bool) memory scratch = (.ok false, later)) :
    ∃ middle, left.usesMemory range memory scratch = (.ok false, middle) ∧
      right.usesMemory range memory middle = (.ok false, later) := by
  rw [EvalM.bind_run] at apart
  rcases ran : left.usesMemory range memory scratch with ⟨outcome, middle⟩
  rw [ran] at apart
  cases outcome with
  | error fault => cases apart
  | ok used =>
      cases used with
      | true => cases apart
      | false => exact ⟨middle, rfl, apart⟩

/-- An expression that uses no memory of the range of some components avoids them. -/
theorem Expression.avoids_of_usesMemory (wide : 0 < Scalar.width α)
    (computed : c.range? memory = .ok (some range)) {e : Expression α} {scratch later : Scratch α}
    (apart : e.usesMemory range memory scratch = (.ok false, later)) :
    later = scratch ∧ e.Avoids c.Owns scratch.caches := by
  induction e generalizing later with
  | indexed leaf =>
      rw [usesMemory_indexed] at apart
      rcases Prod.mk.inj apart with ⟨answered, same⟩
      rcases bind_eq_ok_iff.mp answered with ⟨own, read, unused⟩
      exact ⟨same.symm, Components.avoids_of_overlaps wide computed read (Except.ok.inj unused)⟩
  | product left right contraction ihLeft ihRight =>
      rcases usesMemory_both apart with ⟨middle, first, second⟩
      rcases ihLeft first with ⟨rfl, avoids⟩
      rcases ihRight second with ⟨rfl, avoids'⟩
      exact ⟨rfl, avoids, avoids'⟩
  | sum left right isDifference matching ihLeft ihRight =>
      rcases usesMemory_both apart with ⟨middle, first, second⟩
      rcases ihLeft first with ⟨rfl, avoids⟩
      rcases ihRight second with ⟨rfl, avoids'⟩
      exact ⟨rfl, avoids, avoids'⟩
  | scaled operand scaling ih => exact ih apart
  | bundled operand bundling ih => exact ih apart
  | split operand splitting ih => exact ih apart
  | renamed operand free used ih => exact ih apart
  | cached operand cache dims ih =>
      have looked : EvalM.cached? cache memory scratch = (.ok scratch.caches[cache]?.join, scratch) := rfl
      rw [usesMemory, EvalM.bind_run, looked] at apart
      cases found : scratch.caches[cache]?.join with
      | some components =>
          rw [found] at apart
          cases apart
          exact ⟨rfl, Or.inl (by rw [found]; rfl)⟩
      | none =>
          rw [found] at apart
          rcases ih apart with ⟨same, avoids⟩
          exact ⟨same, Or.inr avoids⟩

end UsesMemory

end IndexNotation
