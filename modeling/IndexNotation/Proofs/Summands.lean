import IndexNotation.Proofs.ByteRange
import IndexNotation.Proofs.SummandOffsets
import IndexNotation.Proofs.WriteFrame
import Mathlib.Algebra.Order.BigOperators.Group.List
import Mathlib.Algebra.Order.Group.Nat

namespace IndexNotation

variable {α : Type}

theorem flatMap_ranges {β : Type} (f : Nat → β) (lengths : List Nat) :
    (List.range lengths.length).flatMap (fun n =>
        (List.range (lengths.getD n 0)).map fun k => f ((lengths.take n).sum + k)) =
      (List.range lengths.sum).map f := by
  induction lengths generalizing f with
  | nil => rfl
  | cons length lengths ih =>
      have first : (List.range ((length :: lengths).getD 0 0)).map
          (fun k => f (((length :: lengths).take 0).sum + k)) = (List.range length).map f := by
        simp
      have rest := ih fun k => f (length + k)
      rw [List.length_cons, List.range_succ_eq_map, List.flatMap_cons, List.flatMap_map, first, List.sum_cons,
        List.range_add, List.map_append, List.map_map, Function.comp_def, ← rest]
      simp only [Nat.succ_eq_add_one, List.getD_cons_succ, List.take_succ_cons, List.sum_cons, Nat.add_assoc]

theorem Space.eq_directSum {s : Space} {summands : List Space} (sum : s.summands = some summands) :
    s = .directSum summands := by
  cases s with
  | directSum others =>
      cases sum
      rfl
  | based _ | tensorProduct _ | tensorPower _ _ | symmetricPower _ _ | exteriorPower _ _ | diagonal _ _ => cases sum

namespace Tensor

def eachComponent (t : Tensor α) : List (EvalM α α) := (List.range t.components.length).map t.component

/-- A checked tensor over a direct sum, with the dimensions of the summands. -/
structure Laid (t : Tensor α) (memory : Memory α) (summands : List Space) (lengths : List Nat) : Prop where
  checked : t.Checked memory
  sum : t.space.summands = some summands
  sized : Space.dimensions summands = .ok lengths

theorem Checked.exists_laid {t : Tensor α} {memory : Memory α} {summands : List Space}
    (checked : t.Checked memory) (sum : t.space.summands = some summands) :
    ∃ lengths, t.Laid memory summands lengths := by
  have sized := checked.length
  rw [Space.eq_directSum sum] at sized
  obtain ⟨lengths, computed, _⟩ := DirectSum.exists_lengths sized
  exact ⟨lengths, checked, sum, computed⟩

namespace Laid

variable {t u : Tensor α} {memory : Memory α} {summands : List Space} {lengths : List Nat} {n : Nat}
  (laid : t.Laid memory summands lengths)

include laid

theorem length_eq : summands.length = lengths.length :=
  (Space.dimensions_eq_ok_iff.mp laid.sized).length_eq

theorem total : lengths.sum = t.components.length ∧ t.components.length < Size.bound := by
  have sized := laid.checked.length
  have small := Space.dimension_lt sized
  rw [Space.eq_directSum laid.sum] at sized
  exact ⟨(DirectSum.dimension_directSum laid.sized sized).symm, small⟩

theorem exists_at (inside : n < lengths.length) :
    ∃ space length, summands[n]? = some space ∧ lengths[n]? = some length ∧ space.dimension = .ok length := by
  have stands := List.getElem?_eq_getElem inside
  obtain ⟨space, here, own⟩ := (Space.getElem?_dimensions_iff laid.sized).mp stands
  exact ⟨space, lengths[n], here, stands, own⟩

theorem stop_le {length : Nat} (stands : lengths[n]? = some length) :
    (lengths.take n).sum + length ≤ t.components.length := by
  obtain ⟨inside, rfl⟩ := List.getElem?_eq_some_iff.mp stands
  calc (lengths.take n).sum + lengths[n] = (lengths.take (n + 1)).sum :=
        (List.sum_take_succ lengths n inside).symm
    _ ≤ (lengths.take lengths.length).sum := List.monotone_sum_take lengths inside
    _ = t.components.length := by rw [List.take_length, laid.total.1]

omit laid in
theorem stop_le_start {m length : Nat} (stands : lengths[n]? = some length) (before : n < m) :
    (lengths.take n).sum + length ≤ (lengths.take m).sum := by
  obtain ⟨inside, rfl⟩ := List.getElem?_eq_some_iff.mp stands
  rw [← List.sum_take_succ lengths n inside]
  exact List.monotone_sum_take lengths before

theorem offset_eq (inside : n < lengths.length) :
    DirectSum.offset summands n = .ok (lengths.take n).sum := by
  have small : lengths.sum < Size.bound := laid.total.1 ▸ laid.total.2
  exact DirectSum.offset_eq laid.sized small (laid.length_eq ▸ inside)

theorem summand_eq {space : Space} {length : Nat} (here : summands[n]? = some space)
    (stands : lengths[n]? = some length) :
    t.summand n = .ok ⟨space, .window t.components (lengths.take n).sum length⟩ := by
  obtain ⟨inside, rfl⟩ := List.getElem?_eq_some_iff.mp stands
  obtain ⟨space', length', here', stands', sized⟩ := laid.exists_at inside
  cases here.symm.trans here'
  cases stands.symm.trans stands'
  have stop := laid.stop_le stands
  have small := laid.total.2
  have added : Size.add (lengths.take n).sum lengths[n] = .ok ((lengths.take n).sum + lengths[n]) :=
    Size.add_eq_ok_iff.mpr ⟨rfl, by omega⟩
  have windowed : t.components.window? (lengths.take n).sum lengths[n] =
      .ok (.window t.components (lengths.take n).sum lengths[n]) := by
    rw [Components.window?, added, ok_bind, if_pos stop]
  rw [Tensor.summand, laid.sum]
  dsimp only
  rw [laid.offset_eq inside, ok_bind, here]
  dsimp only
  rw [sized, ok_bind, windowed, ok_bind, ofComponents, sized]
  simp [Components.length]

theorem lt_of_summand (accepted : t.summand n = .ok u) : n < lengths.length := by
  rw [Tensor.summand, laid.sum] at accepted
  dsimp only at accepted
  obtain ⟨start, begun, _⟩ := bind_eq_ok_iff.mp accepted
  rw [DirectSum.offset] at begun
  split at begun
  · exact laid.length_eq ▸ ‹_›
  · cases begun

theorem exists_of_summand (accepted : t.summand n = .ok u) :
    ∃ length, lengths[n]? = some length ∧ summands[n]? = some u.space ∧
      u.components = .window t.components (lengths.take n).sum length := by
  obtain ⟨space, length, here, stands, _⟩ := laid.exists_at (laid.lt_of_summand accepted)
  cases (laid.summand_eq here stands).symm.trans accepted
  exact ⟨length, stands, here, rfl⟩

theorem exists_parts :
    ∃ parts, (List.range summands.length).mapM t.summand = .ok parts ∧ parts.map space = summands ∧
      parts.flatMap eachComponent = t.eachComponent := by
  let part (n : Nat) : Tensor α :=
    ⟨summands.getD n (.directSum []), .window t.components (lengths.take n).sum (lengths.getD n 0)⟩
  refine ⟨(List.range summands.length).map part, ?_, ?_, ?_⟩
  · rw [mapM_eq_ok_iff, List.forall₂_map_right_iff, List.forall₂_same]
    intro n present
    obtain ⟨space, length, here, stands, _⟩ :=
      laid.exists_at (laid.length_eq ▸ List.mem_range.mp present)
    rw [laid.summand_eq here stands]
    simp [part, here, stands]
  · rw [List.map_map]
    apply List.ext_getElem (by simp)
    intro n _ inside
    simp [part, inside]
  · have each : ∀ n ∈ List.range lengths.length, (part n).eachComponent =
        (List.range (lengths.getD n 0)).map fun k => t.component ((lengths.take n).sum + k) := by
      intro n _
      apply List.map_congr_left
      intro k inside
      exact if_pos (List.mem_range.mp inside)
    rw [List.flatMap_map, laid.length_eq, List.flatMap_congr each, flatMap_ranges t.component, laid.total.1]
    rfl

end Laid

section Inside

variable {t u part : Tensor α} {n : Nat} {path : List Nat} {memory : Memory α}

theorem window_of_summand (accepted : t.summand n = .ok u) :
    ∃ offset length, u.components = .window t.components offset length := by
  rw [Tensor.summand] at accepted
  split at accepted
  · cases accepted
  · obtain ⟨offset, _, rest⟩ := bind_eq_ok_iff.mp accepted
    split at rest
    · cases rest
    · obtain ⟨dimension, _, later⟩ := bind_eq_ok_iff.mp rest
      obtain ⟨c, windowed, made⟩ := bind_eq_ok_iff.mp later
      obtain ⟨_, rfl⟩ := Components.window?_eq_ok windowed
      obtain ⟨_, rfl⟩ := ofComponents_eq_ok made
      exact ⟨offset, dimension, rfl⟩

theorem owns_of_summand (accepted : t.summand n = .ok u) {location : Location}
    (owned : u.components.Owns location) : t.components.Owns location := by
  obtain ⟨offset, length, windowed⟩ := window_of_summand accepted
  obtain ⟨index, inside, located⟩ := owned
  rw [windowed, Components.locate] at located
  split at located
  · exact ⟨offset + index, Components.lt_of_locate located, located⟩
  · cases located

theorem isWritable_summand (accepted : t.summand n = .ok u) (writable : t.isWritable) : u.isWritable := by
  obtain ⟨offset, length, windowed⟩ := window_of_summand accepted
  rw [isWritable, windowed]
  exact writable

/-- What holds of a tensor and of the summands of each tensor it holds of, holds along every path. -/
theorem summandAlong_induction {motive : Tensor α → Prop} (here : motive t)
    (step : ∀ (whole : Tensor α) (n : Nat) (u : Tensor α), motive whole → whole.summand n = .ok u → motive u)
    (accepted : t.summandAlong path = .ok part) : motive part := by
  induction path generalizing t with
  | nil =>
      cases accepted
      exact here
  | cons n path ih =>
      rw [summandAlong, List.foldlM_cons] at accepted
      obtain ⟨u, first, rest⟩ := bind_eq_ok_iff.mp accepted
      exact ih (step t n u here first) rest

theorem Checked.summandAlong (checked : t.Checked memory) (accepted : t.summandAlong path = .ok part) :
    part.Checked memory :=
  summandAlong_induction (motive := fun u => u.Checked memory) checked
    (fun _ _ _ checked accepted => checked.summand accepted) accepted

theorem isWritable_summandAlong (writable : t.isWritable) (accepted : t.summandAlong path = .ok part) :
    part.isWritable :=
  summandAlong_induction (motive := fun u => u.isWritable) writable
    (fun _ _ _ writable accepted => isWritable_summand accepted writable) accepted

theorem owns_of_summandAlong (accepted : t.summandAlong path = .ok part) {location : Location}
    (owned : part.components.Owns location) : t.components.Owns location := by
  have within : ∀ location, part.components.Owns location → t.components.Owns location :=
    summandAlong_induction (motive := fun u => ∀ location, u.components.Owns location → t.components.Owns location)
      (fun _ owned => owned)
      (fun _ _ _ within accepted location owned => within location (owns_of_summand accepted owned)) accepted
  exact within location owned

end Inside

end Tensor

/-- An assignment to a part of a tensor: the path to the part, the symbols that name its slots, what is
assigned, and whether it is written directly. -/
structure Edit (α : Type) where
  path : List Nat
  symbols : IndexList
  expression : Expression α
  direct : Bool

variable [Scalar α]

def Edit.run (edit : Edit α) (t : Tensor α) : StoreM α Unit := do
  let part ← StoreM.ofExcept (t.summandAlong edit.path)
  if edit.direct then part.assignDirectly edit.symbols edit.expression
  else part.assign edit.symbols edit.expression

/-- A run of accepted assignments to parts of `t`. Between them anything else may be done that leaves the cells
there are as they are. -/
inductive Tensor.Edited (t : Tensor α) : List (Edit α) → Store α → Store α → Prop
  | done (store : Store α) : Edited t [] store store
  | other {edits : List (Edit α)} {store middle later : Store α} :
      store.memory.Extends middle.memory → Edited t edits middle later → Edited t edits store later
  | edit {edit : Edit α} {edits : List (Edit α)} {store middle later : Store α} :
      edit.run t store = (.ok (), middle) → Edited t edits middle later → Edited t (edit :: edits) store later

def Tensor.TouchedBy (t : Tensor α) (edits : List (Edit α)) (location : Location) : Prop :=
  ∃ edit ∈ edits, ∃ part, t.summandAlong edit.path = .ok part ∧ part.components.Owns location

namespace Tensor

variable {t : Tensor α} {edit : Edit α} {edits : List (Edit α)} {store later : Store α}

omit [Scalar α] in
theorem owns_of_touchedBy {location : Location} (touched : t.TouchedBy edits location) :
    t.components.Owns location := by
  obtain ⟨edit, _, part, accepted, owned⟩ := touched
  exact owns_of_summandAlong accepted owned

theorem writesOnly_edit (t : Tensor α) (edit : Edit α) (edits : List (Edit α)) (present : edit ∈ edits) :
    StoreM.WritesOnly (t.TouchedBy edits) (edit.run t) := by
  apply StoreM.WritesOnly.ofExcept_bind
  intro part accepted
  have inside : ∀ location, part.components.Owns location → t.TouchedBy edits location :=
    fun location owned => ⟨edit, present, part, accepted, owned⟩
  split
  · exact (part.writesOnly_assignDirectly edit.symbols edit.expression).mono inside
  · exact (part.writesOnly_assign edit.symbols edit.expression).mono inside

/-- A run of assignments changes the cells of the parts that are assigned and no others. -/
theorem Edited.changesOnly (edited : t.Edited edits store later) :
    store.memory.ChangesOnly (t.TouchedBy edits) later.memory := by
  induction edited with
  | done store => exact .refl _ store.memory
  | other kept _ ih => exact (Memory.ChangesOnly.of_extends kept).trans ih
  | @edit edit edits store middle later ran _ ih =>
      have step := t.writesOnly_edit edit (edit :: edits) List.mem_cons_self store
      rw [ran] at step
      refine step.trans (ih.mono ?_)
      intro location touched
      obtain ⟨other, present, part, accepted, owned⟩ := touched
      exact ⟨other, List.mem_cons_of_mem edit present, part, accepted, owned⟩

theorem Edited.checked (edited : t.Edited edits store later) (checked : t.Checked store.memory) :
    t.Checked later.memory := checked.mono edited.changesOnly.present

theorem Edited.exists_cut {before after : List (Edit α)}
    (edited : t.Edited (before ++ edit :: after) store later) :
    ∃ first second, t.Edited before store first ∧ edit.run t first = (.ok (), second) ∧
      t.Edited after second later := by
  generalize whole : before ++ edit :: after = edits at edited
  induction edited generalizing before with
  | done store => simp at whole
  | other kept _ ih =>
      obtain ⟨first, second, start, ran, rest⟩ := ih whole
      exact ⟨first, second, .other kept start, ran, rest⟩
  | edit ran rest ih =>
      cases before with
      | nil =>
          cases whole
          exact ⟨_, _, .done _, ran, rest⟩
      | cons head before =>
          cases whole
          obtain ⟨first, second, start, ran', rest'⟩ := ih rfl
          exact ⟨first, second, .edit ran start, ran', rest'⟩

/-- An accepted assignment is read back from its part. A direct one must not read what it writes. -/
theorem exists_assigned (writable : t.isWritable) (checked : t.Checked store.memory)
    (ran : edit.run t store = (.ok (), later)) :
    ∃ part, t.summandAlong edit.path = .ok part ∧
      (edit.expression.freeSymbols.Nodup → CachesApart [edit.expression] →
        (edit.direct → edit.expression.Avoids part.components.Owns store.scratch.caches) →
        part.Assigned edit.symbols edit.expression store later) := by
  obtain ⟨part, middle, found, assigned⟩ := StoreM.bind_run_eq_ok_iff.mp ran
  obtain ⟨accepted, rfl⟩ := StoreM.ofExcept_run_eq_ok found
  refine ⟨part, accepted, ?_⟩
  intro distinct apart avoids
  have partChecked := checked.summandAlong accepted
  have partWritable := isWritable_summandAlong writable accepted
  split at assigned
  · rename_i direct
    exact assigned_of_assignDirectly partWritable partChecked distinct apart (avoids direct) assigned
  · exact assigned_of_assign partWritable partChecked distinct apart assigned

end Tensor

namespace Components

/-- The components are stored, or windows onto stored ones, and their bytes have addresses. -/
def Addressed (memory : Memory α) : Components α → Prop
  | stored _ block offset length => (memory.range block offset length (Scalar.width α)).stop < Size.bound
  | generated _ => False
  | window base _ _ => base.Addressed memory

theorem range?_window {base : Components α} {memory : Memory α} {range : ByteRange} {offset length : Nat}
    (computed : base.range? memory = .ok (some range)) (size : range.stop = range.start + base.length * Scalar.width α)
    (small : range.stop < Size.bound) (inside : offset + length ≤ base.length) :
    (window base offset length).range? memory =
      .ok (some ⟨range.start + offset * Scalar.width α, range.start + (offset + length) * Scalar.width α⟩) := by
  have fits : (offset + length) * Scalar.width α ≤ base.length * Scalar.width α :=
    Nat.mul_le_mul_right _ inside
  rw [Nat.add_mul] at fits
  have skipped : Size.mul offset (Scalar.width α) = .ok (offset * Scalar.width α) :=
    Size.mul_eq_ok_iff.mpr ⟨rfl, by omega⟩
  have counted : Size.mul length (Scalar.width α) = .ok (length * Scalar.width α) :=
    Size.mul_eq_ok_iff.mpr ⟨rfl, by omega⟩
  have begun : Size.add range.start (offset * Scalar.width α) = .ok (range.start + offset * Scalar.width α) :=
    Size.add_eq_ok_iff.mpr ⟨rfl, by omega⟩
  have ended : Size.add (range.start + offset * Scalar.width α) (length * Scalar.width α) =
      .ok (range.start + (offset + length) * Scalar.width α) :=
    Size.add_eq_ok_iff.mpr ⟨by rw [Nat.add_mul, Nat.add_assoc], by rw [Nat.add_mul]; omega⟩
  have clipped : min (range.start + (offset + length) * Scalar.width α) range.stop =
      range.start + (offset + length) * Scalar.width α := by
    rw [Nat.add_mul]
    omega
  rw [range?, computed, ok_bind]
  dsimp only
  rw [skipped, ok_bind, counted, ok_bind, ByteRange.narrow, begun, ok_bind, ended, ok_bind, clipped]
  rfl

theorem exists_range {c : Components α} {memory : Memory α} (fits : c.Fits memory) (addressed : c.Addressed memory) :
    ∃ range, c.range? memory = .ok (some range) ∧ range.stop = range.start + c.length * Scalar.width α ∧
      range.stop < Size.bound := by
  induction c with
  | stored storage block offset length => exact ⟨_, rfl, rfl, addressed⟩
  | generated generator => cases addressed
  | window base offset length ih =>
      obtain ⟨range, computed, size, small⟩ := ih fits.2 addressed
      have stop : (offset + length) * Scalar.width α ≤ base.length * Scalar.width α :=
        Nat.mul_le_mul_right _ fits.1
      refine ⟨_, range?_window computed size small fits.1, ?_, ?_⟩
      · rw [Nat.add_mul, ← Nat.add_assoc]
        rfl
      · dsimp only
        omega

/-- Windows are opened inside of their bases, so the ranges that aliasing is judged by are never narrowed past an end:
they overlap just when the components share a byte. -/
theorem overlaps_iff_of_fits {c d : Components α} {memory : Memory α} (fits : c.Fits memory)
    (addressed : c.Addressed memory) (fits' : d.Fits memory) (addressed' : d.Addressed memory) :
    ∃ r s, c.range? memory = .ok (some r) ∧ d.range? memory = .ok (some s) ∧
      (r.overlaps s = true ↔ ∃ byte, byte ∈ r ∧ byte ∈ s) := by
  obtain ⟨r, computed, size, _⟩ := exists_range fits addressed
  obtain ⟨s, computed', size', _⟩ := exists_range fits' addressed'
  have ordered : r.start ≤ r.stop := by omega
  have ordered' : s.start ≤ s.stop := by omega
  exact ⟨r, s, computed, computed', ByteRange.overlaps_iff_of_le ordered ordered'⟩

end Components

namespace Tensor

namespace Laid

variable {t u v : Tensor α} {memory later : Memory α} {summands : List Space} {lengths : List Nat} {n m : Nat}
  (laid : t.Laid memory summands lengths)

include laid

omit [Scalar α] in
theorem length_summand (accepted : t.summand n = .ok u) : lengths[n]? = some u.components.length := by
  obtain ⟨length, stands, _, windowed⟩ := laid.exists_of_summand accepted
  rw [windowed]
  exact stands

omit [Scalar α] in
theorem exists_index_of_owns (accepted : t.summand n = .ok u) {location : Location}
    (owned : u.components.Owns location) :
    ∃ k < u.components.length, t.components.locate ((lengths.take n).sum + k) = .ok location := by
  obtain ⟨length, _, _, windowed⟩ := laid.exists_of_summand accepted
  obtain ⟨k, inside, located⟩ := owned
  refine ⟨k, inside, ?_⟩
  rw [windowed] at inside located
  have small : k < length := inside
  rwa [Components.locate, if_pos small] at located

omit [Scalar α] in
theorem value_eq (accepted : t.summand n = .ok u) {cells : Location → Prop}
    (within : ∀ location, cells location → u.components.Owns location) (changes : memory.ChangesOnly cells later)
    {k : Nat} (outside : k < (lengths.take n).sum ∨ (lengths.take n).sum + u.components.length ≤ k) :
    t.components.value later k = t.components.value memory k := by
  apply changes.value_eq laid.checked.fits
  intro location located touched
  obtain ⟨j, inside, there⟩ := laid.exists_index_of_owns accepted (within location touched)
  have same := Components.locate_injective located there
  omega

theorem range?_summand (accepted : t.summand n = .ok u) {range : ByteRange}
    (computed : t.components.range? memory = .ok (some range))
    (size : range.stop = range.start + t.components.length * Scalar.width α) (small : range.stop < Size.bound) :
    u.components.range? memory = .ok (some
      ⟨range.start + (lengths.take n).sum * Scalar.width α,
        range.start + ((lengths.take n).sum + u.components.length) * Scalar.width α⟩) := by
  obtain ⟨length, stands, _, windowed⟩ := laid.exists_of_summand accepted
  rw [windowed]
  exact Components.range?_window computed size small (laid.stop_le stands)

theorem overlaps_summands (accepted : t.summand n = .ok u) (accepted' : t.summand m = .ok v) (apart : m ≠ n)
    (start : Nat) :
    ByteRange.overlaps
      ⟨start + (lengths.take n).sum * Scalar.width α,
        start + ((lengths.take n).sum + u.components.length) * Scalar.width α⟩
      ⟨start + (lengths.take m).sum * Scalar.width α,
        start + ((lengths.take m).sum + v.components.length) * Scalar.width α⟩ = false := by
  apply ByteRange.overlaps_eq_false
  rcases Nat.lt_or_gt_of_ne apart with before | after
  · right
    exact Nat.add_le_add_left (Nat.mul_le_mul_right _
      (stop_le_start (laid.length_summand accepted') before)) start
  · left
    exact Nat.add_le_add_left (Nat.mul_le_mul_right _
      (stop_le_start (laid.length_summand accepted) after)) start

end Laid

/-- The summands of a checked tensor over a direct sum. Their components, end to end, are the tensor's. However
one of them is assigned, as a whole or in summands of its own, all other components and all cells outside the
tensor stay what they are; each assignment is read back, and a component stays what was assigned to it until a
later assignment covers its cell. The bytes of stored summands lie inside the tensor's, as many as their
components take, and no byte belongs to two of them. -/
theorem summands_laid_out {t : Tensor α} {store : Store α} {summands : List Space}
    (checked : t.Checked store.memory) (sum : t.space.summands = some summands) :
    (∃ parts, (List.range summands.length).mapM t.summand = .ok parts ∧ parts.map space = summands ∧
      parts.flatMap eachComponent = t.eachComponent) ∧
    (t.isWritable → ∀ n u, t.summand n = .ok u → ∃ start, DirectSum.offset summands n = .ok start ∧
      ∀ edits later, u.Edited edits store later →
        (∀ k, k < start ∨ start + u.components.length ≤ k →
          t.components.value later.memory k = t.components.value store.memory k) ∧
        (∀ location, ¬ t.components.Owns location → ∀ x, store.memory.read? location = some x →
          later.memory.read? location = some x) ∧
        ∀ before edit after, edits = before ++ edit :: after → ∃ part first second,
          u.summandAlong edit.path = .ok part ∧ u.Edited before store first ∧
          edit.run u first = (.ok (), second) ∧ u.Edited after second later ∧
          (edit.expression.freeSymbols.Nodup → CachesApart [edit.expression] →
            (edit.direct → edit.expression.Avoids part.components.Owns first.scratch.caches) →
            part.Assigned edit.symbols edit.expression first second) ∧
          ∀ k, (∀ location, part.components.locate k = .ok location → ¬ u.TouchedBy after location) →
            part.components.value later.memory k = part.components.value second.memory k) ∧
    (t.components.Addressed store.memory → ∃ range, t.components.range? store.memory = .ok (some range) ∧
      ∀ n u, t.summand n = .ok u → ∃ own, u.components.range? store.memory = .ok (some own) ∧
        own.stop = own.start + u.components.length * Scalar.width α ∧
        range.start ≤ own.start ∧ own.stop ≤ range.stop ∧
        ∀ m v, m ≠ n → t.summand m = .ok v → ∃ other,
          v.components.range? store.memory = .ok (some other) ∧ own.overlaps other = false) := by
  obtain ⟨lengths, laid⟩ := checked.exists_laid sum
  refine ⟨laid.exists_parts, ?_, ?_⟩
  · intro writable n u accepted
    refine ⟨_, laid.offset_eq (laid.lt_of_summand accepted), ?_⟩
    intro edits later edited
    have changes := edited.changesOnly
    have within : ∀ location, u.TouchedBy edits location → u.components.Owns location :=
      fun _ touched => owns_of_touchedBy touched
    refine ⟨fun k outside => laid.value_eq accepted within changes outside, ?_, ?_⟩
    · intro location foreign
      exact changes.kept location fun touched => foreign (owns_of_summand accepted (within location touched))
    · rintro before edit after rfl
      obtain ⟨first, second, start, ran, rest⟩ := edited.exists_cut
      have here := start.checked (checked.summand accepted)
      obtain ⟨part, found, assigned⟩ := exists_assigned (isWritable_summand accepted writable) here ran
      refine ⟨part, first, second, found, start, ran, rest, assigned, ?_⟩
      intro k spared
      have there : u.Edited [edit] first second := .edit ran (.done second)
      exact rest.changesOnly.value_eq ((there.checked here).summandAlong found).fits spared
  · intro addressed
    obtain ⟨range, computed, size, small⟩ := Components.exists_range checked.fits addressed
    refine ⟨range, computed, ?_⟩
    intro n u accepted
    have stop := laid.stop_le (laid.length_summand accepted)
    have fits := Nat.mul_le_mul_right (Scalar.width α) stop
    refine ⟨_, laid.range?_summand accepted computed size small, ?_, ?_, ?_, ?_⟩
    · rw [Nat.add_mul, ← Nat.add_assoc]
    · exact Nat.le_add_right _ _
    · dsimp only
      omega
    · intro m v apart accepted'
      exact ⟨_, laid.range?_summand accepted' computed size small, laid.overlaps_summands accepted accepted' apart _⟩

/-- A sum whose second summand is itself one, of nothing and a plane. The plane is assigned twice, through both
sums, first by way of a temporary and then directly. -/
theorem summands_laid_out_nested :
    ∃ (t inner last part : Tensor (Bounded .signed32)) (e f : Expression (Bounded .signed32))
      (store later : Store (Bounded .signed32)) (first second : Store (Bounded .signed32)) (own other : ByteRange),
      t.Checked store.memory ∧ t.summand 1 = .ok inner ∧ t.summand 2 = .ok last ∧
      inner.Edited [⟨[1], [.letter 'i'], e, false⟩, ⟨[1], [.letter 'j'], f, true⟩] store later ∧
      inner.summandAlong [1] = .ok part ∧ part.Assigned [.letter 'j'] f first second ∧
      (∀ k, k < 1 ∨ 3 ≤ k → t.components.value later.memory k = t.components.value store.memory k) ∧
      (store.memory.cells 0).map (·.val) = #[7, 1, 2, 9] ∧ (later.memory.cells 0).map (·.val) = #[7, 3, 4, 9] ∧
      inner.components.range? store.memory = .ok (some own) ∧
      last.components.range? store.memory = .ok (some other) ∧ own.overlaps other = false := by
  let plane : Space := .standard 2 "C"
  let t : Tensor (Bounded .signed32) :=
    ⟨.directSum [.standard 1 "A", .directSum [.standard 0 "B", plane], .standard 1 "D"], .stored .shared 0 0 4⟩
  let whole : Block (Bounded .signed32) := ⟨64, #[.wrap 7, .wrap 1, .wrap 2, .wrap 9]⟩
  let pairs : Block (Bounded .signed32) := ⟨96, #[.wrap 5, .wrap 6, .wrap 3, .wrap 4]⟩
  let store : Store (Bounded .signed32) := { Store.empty with memory := ⟨#[whole, pairs], 128⟩ }
  let one : Tensor (Bounded .signed32) := ⟨plane, .stored .member 1 0 2⟩
  let two : Tensor (Bounded .signed32) := ⟨plane, .stored .member 1 2 2⟩
  let f : Expression (Bounded .signed32) := two.indexed [.letter 'j'] [plane] [2]
  have named : Expression.index two [.letter 'j'] = .ok f := rfl
  obtain ⟨inner, last, part, e, between, later, summand, summand', along, size, ran, ran', cells⟩ :
      ∃ inner last part e between later, t.summand 1 = .ok inner ∧ t.summand 2 = .ok last ∧
        inner.summandAlong [1] = .ok part ∧ inner.components.length = 2 ∧
        Edit.run ⟨[1], [.letter 'i'], e, false⟩ inner store = (.ok (), between) ∧
        Edit.run ⟨[1], [.letter 'j'], f, true⟩ inner between = (.ok (), later) ∧
        (later.memory.cells 0).map (·.val) = #[7, 3, 4, 9] :=
    ⟨_, _, _, one.indexed [.letter 'i'] [plane] [2], _, _, rfl, rfl, rfl, rfl, rfl, rfl, by decide +kernel⟩
  have checked : t.Checked store.memory :=
    ⟨rfl, Components.fits_stored (b := whole) rfl .shared (Nat.le_refl 4)⟩
  have edited : inner.Edited [⟨[1], [.letter 'i'], e, false⟩, ⟨[1], [.letter 'j'], f, true⟩] store later :=
    .edit ran (.edit ran' (.done later))
  have avoids : two.components.Avoids part.components.Owns := by
    intro index location located owned
    have block : location.block = 1 :=
      Components.block_of_owns ⟨index, Components.lt_of_locate located, located⟩
    have block' : location.block = 0 :=
      Components.block_of_owns (owns_of_summand summand (owns_of_summandAlong along owned))
    omega
  obtain ⟨_, frame, ranges⟩ := summands_laid_out checked rfl
  obtain ⟨start, begun, frame⟩ := frame rfl 1 inner summand
  obtain rfl : start = 1 := (Except.ok.inj begun).symm
  obtain ⟨outside, _, back⟩ := frame _ later edited
  obtain ⟨part', first, second, found, _, _, _, assigned, _⟩ := back [_] _ [] rfl
  cases along.symm.trans found
  obtain ⟨range, _, apart⟩ := ranges (show (store.memory.range 0 0 4 4).stop < Size.bound by decide)
  obtain ⟨own, bytes, _, _, _, apart⟩ := apart 1 inner summand
  obtain ⟨other, bytes', disjoint⟩ := apart 2 last (by decide) summand'
  refine ⟨t, inner, last, part, e, f, store, later, first, second, own, other, checked, summand, summand', edited,
    along, ?_, ?_, by decide +kernel, cells, bytes, bytes', disjoint⟩
  · exact assigned (Expression.wellIndexed_index named).separated.free
      (cachesApart_of_nil (by simp [Expression.cacheNodes_index named])) fun _ => avoids
  · intro k beyond
    exact outside k (by omega)

end Tensor

end IndexNotation
