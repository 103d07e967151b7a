import IndexNotation.MultiIndex
import IndexNotation.Proofs.RowMajor
import Mathlib.Logic.Function.Iterate
/-!
Walks of multi-indices. A carry counts one up, and when it leaves the first position it has taken off one full
round; so a walk passes the tuples in the order of their offsets and ends behind the last one. A multi-index
that has not ended has all its values in range, whatever it was made from; that it has ended, its coordinates
need not show.
-/
namespace IndexNotation.MultiIndex

open RowMajor (Below number split)

section Coordinates

variable {m m' : MultiIndex} {values dims : List Nat}

theorem values_zipWith (same : values.length = dims.length) (ended : Bool) :
    MultiIndex.values ⟨values.zipWith Coordinate.mk dims, ended⟩ = values := by
  rw [MultiIndex.values, List.map_zipWith, ← List.map_uncurry_zip_eq_zipWith]
  exact List.map_fst_zip (Nat.le_of_eq same)

theorem dims_zipWith (same : values.length = dims.length) (ended : Bool) :
    MultiIndex.dims ⟨values.zipWith Coordinate.mk dims, ended⟩ = dims := by
  rw [MultiIndex.dims, List.map_zipWith, ← List.map_uncurry_zip_eq_zipWith]
  exact List.map_snd_zip (Nat.le_of_eq same.symm)

theorem coordinates_eq (m : MultiIndex) : m.coordinates = m.values.zipWith Coordinate.mk m.dims := by
  rw [MultiIndex.values, MultiIndex.dims, List.zipWith_map, List.zipWith_self]
  exact (List.map_id _).symm

theorem eq_of_values (values : m.values = m'.values) (dims : m.dims = m'.dims)
    (ended : m.isAtEnd = m'.isAtEnd) : m = m' := by
  have coordinates : m.coordinates = m'.coordinates := by
    rw [coordinates_eq m, coordinates_eq m', values, dims]
  cases m
  cases m'
  cases coordinates
  cases ended
  rfl

theorem below_iff : Below m.values m.dims ↔ ∀ c ∈ m.coordinates, c.value < c.dim := by
  rw [RowMajor.below_iff_forall₂, MultiIndex.values, MultiIndex.dims, List.forall₂_map_left_iff,
    List.forall₂_map_right_iff, List.forall₂_same]

end Coordinates

section Carry

variable {coordinates : List Coordinate}

theorem carry_inside (inside : ∀ c ∈ coordinates, c.value < c.dim) :
    ∀ c ∈ (carry coordinates).1, c.value < c.dim := by
  induction coordinates with
  | nil => exact inside
  | cons c rest ih =>
      obtain ⟨here, later⟩ := List.forall_mem_cons.mp inside
      have next := ih later
      rw [carry]
      split
      · rename_i step
        rw [step] at next
        exact List.forall_mem_cons.mpr ⟨here, next⟩
      · rename_i step
        rw [step] at next
        split
        · rename_i room
          exact List.forall_mem_cons.mpr ⟨room, next⟩
        · exact List.forall_mem_cons.mpr ⟨Nat.zero_lt_of_lt here, next⟩

/-- A carry adds one to the number of the tuple. What it carries out on the left is one round of all tuples. -/
theorem number_carry (inside : ∀ c ∈ coordinates, c.value < c.dim) :
    number ((carry coordinates).1.map Coordinate.value) (coordinates.map Coordinate.dim) +
        (if (carry coordinates).2 then (coordinates.map Coordinate.dim).prod else 0) =
      number (coordinates.map Coordinate.value) (coordinates.map Coordinate.dim) + 1 := by
  induction coordinates with
  | nil => rfl
  | cons c rest ih =>
      obtain ⟨here, later⟩ := List.forall_mem_cons.mp inside
      have next := ih later
      rw [carry]
      split
      · rename_i step
        rw [step] at next
        simp only [List.map_cons, number, Bool.false_eq_true, if_false] at next ⊢
        omega
      · rename_i step
        rw [step] at next
        split
        · simp only [List.map_cons, number, Bool.false_eq_true, if_false, if_true, Nat.succ_mul] at next ⊢
          omega
        · -- the position is at its last value, and goes back to the first
          have last : c.dim = c.value + 1 := by omega
          simp only [List.map_cons, number, if_true, Coordinate.reset, List.prod_cons, Nat.zero_mul] at next ⊢
          rw [last, Nat.succ_mul]
          omega

variable {m : MultiIndex}

theorem increment_spec (before : m.isAtEnd = false) (below : Below m.values m.dims) :
    Below m.increment.values m.dims ∧
      number m.increment.values m.dims = (number m.values m.dims + 1) % m.dims.prod ∧
      (m.increment.isAtEnd = true ↔ m.dims.prod ≤ number m.values m.dims + 1) := by
  have inside := below_iff.mp below
  have stepped : m.increment = ⟨(carry m.coordinates).1, (carry m.coordinates).2⟩ := by
    rw [increment, before]
    rfl
  have next : Below m.increment.values m.dims := by
    rw [← dims_increment m, below_iff, stepped]
    exact carry_inside inside
  have counted : number m.increment.values m.dims + (if m.increment.isAtEnd then m.dims.prod else 0) =
      number m.values m.dims + 1 := by
    rw [stepped]
    exact number_carry inside
  have bound := RowMajor.number_lt next
  have small := RowMajor.number_lt below
  refine ⟨next, ?_⟩
  cases ended : m.increment.isAtEnd with
  | true =>
      rw [ended, if_pos rfl] at counted
      have last : number m.values m.dims + 1 = m.dims.prod := by omega
      rw [last, Nat.mod_self]
      exact ⟨by omega, iff_of_true rfl (Nat.le_refl _)⟩
  | false =>
      rw [ended, if_neg Bool.false_ne_true, Nat.add_zero] at counted
      rw [← counted, Nat.mod_eq_of_lt bound]
      exact ⟨rfl, iff_of_false Bool.false_ne_true (Nat.not_le_of_lt bound)⟩

end Carry

section Walk

variable {dims : List Nat} {flat : Nat}

def atOffset (flat : Nat) (dims : List Nat) : MultiIndex :=
  ⟨(split flat dims).zipWith Coordinate.mk dims, dims.prod ≤ flat⟩

@[simp] theorem values_atOffset (flat : Nat) (dims : List Nat) : (atOffset flat dims).values = split flat dims :=
  values_zipWith (RowMajor.length_split flat dims) _

@[simp] theorem dims_atOffset (flat : Nat) (dims : List Nat) : (atOffset flat dims).dims = dims :=
  dims_zipWith (RowMajor.length_split flat dims) _

@[simp] theorem isAtEnd_atOffset (flat : Nat) (dims : List Nat) :
    (atOffset flat dims).isAtEnd = decide (dims.prod ≤ flat) := rfl

theorem atOffset_before_iff : (atOffset flat dims).isAtEnd = false ↔ flat < dims.prod := by
  rw [isAtEnd_atOffset, decide_eq_false_iff_not, Nat.not_le]

theorem below_atOffset (before : (atOffset flat dims).isAtEnd = false) :
    Below (atOffset flat dims).values (atOffset flat dims).dims := by
  rw [values_atOffset, dims_atOffset]
  exact (RowMajor.split_spec (atOffset_before_iff.mp before)).1

theorem ofFlat_eq {total : Nat} (counted : Size.product dims = .ok total) (flat : Nat) :
    ofFlat flat dims = .ok (atOffset flat dims) := by
  obtain ⟨rfl, _⟩ := RowMajor.product_eq_ok counted
  rw [ofFlat, counted]
  rfl

theorem start_eq_atOffset (dims : List Nat) : start dims = atOffset 0 dims := by
  apply eq_of_values
  · rw [values_start, values_atOffset, split, RowMajor.distribute_zero]
  · rw [dims_start, dims_atOffset]
  · rw [isAtEnd_atOffset, start, Bool.eq_iff_iff]
    simp [List.prod_eq_zero_iff]

theorem increment_atOffset (small : flat < dims.prod) :
    (atOffset flat dims).increment = atOffset (flat + 1) dims := by
  have before := atOffset_before_iff.mpr small
  have step := increment_spec before (below_atOffset before)
  simp only [values_atOffset, dims_atOffset, (RowMajor.split_spec small).2] at step
  obtain ⟨next, counted, ended⟩ := step
  obtain ⟨below, numbered⟩ := RowMajor.split_mod (RowMajor.zero_notMem_of_lt small) (flat + 1)
  apply eq_of_values
  · rw [values_atOffset]
    exact (RowMajor.number_strictMonoOn dims).injOn next below (counted.trans numbered.symm)
  · rw [dims_increment, dims_atOffset, dims_atOffset]
  · rw [isAtEnd_atOffset, Bool.eq_iff_iff, ended, decide_eq_true_iff]

theorem increment_of_atEnd {m : MultiIndex} (ended : m.isAtEnd = true) : m.increment = m := if_pos ended

theorem iterate_increment_of_atEnd {m : MultiIndex} (ended : m.isAtEnd = true) (steps : Nat) :
    increment^[steps] m = m := Function.iterate_fixed (increment_of_atEnd ended) steps

theorem iterate_increment_start {steps : Nat} (within : steps ≤ dims.prod) :
    increment^[steps] (start dims) = atOffset steps dims := by
  induction steps with
  | zero => exact start_eq_atOffset dims
  | succ steps ih =>
      rw [Function.iterate_succ_apply', ih (Nat.le_of_succ_le within), increment_atOffset within]

theorem advance_eq (steps : Nat) (m : MultiIndex) : m.advance steps = increment^[steps] m := by
  induction steps generalizing m with
  | zero => rfl
  | succ steps ih =>
      rw [advance]
      split
      · rename_i ended
        exact (iterate_increment_of_atEnd ended _).symm
      · exact ih m.increment

/-- A walk that starts at zeros is, after each number of steps up to its whole length, where that offset is. Before
its end it has its values in range and the number of steps as its offset, and at its end it stays. -/
theorem walk_eq_ofFlat {total : Nat} (counted : Size.product dims = .ok total) :
    (∀ steps ≤ total, ofFlat steps dims = .ok (increment^[steps] (start dims))) ∧
    (∀ steps < total, (increment^[steps] (start dims)).isAtEnd = false ∧
      Below (increment^[steps] (start dims)).values dims ∧ (increment^[steps] (start dims)).flat = .ok steps) ∧
    (increment^[total] (start dims)).isAtEnd = true ∧
    ∀ m : MultiIndex, m.isAtEnd = true → ∀ steps, increment^[steps] m = m := by
  obtain ⟨rfl, bound⟩ := RowMajor.product_eq_ok counted
  refine ⟨?_, ?_, ?_, fun _ => iterate_increment_of_atEnd⟩
  · intro steps within
    rw [iterate_increment_start within, ofFlat_eq counted]
  · intro steps small
    have before := atOffset_before_iff.mpr small
    have below := below_atOffset before
    rw [values_atOffset, dims_atOffset] at below
    rw [iterate_increment_start (Nat.le_of_lt small), MultiIndex.flat, values_atOffset, dims_atOffset]
    exact ⟨before, below, RowMajor.offset_split (Or.inr small) (Nat.lt_trans small bound)⟩
  · rw [iterate_increment_start (Nat.le_refl _), isAtEnd_atOffset]
    exact decide_eq_true (Nat.le_refl _)

/-- A carry over two positions, the empty tuple, and a dimension without values. -/
theorem walk_eq_ofFlat_carried :
    Size.product [2, 3, 1] = .ok 6 ∧ ofFlat 3 [2, 3, 1] = .ok (increment^[3] (start [2, 3, 1])) ∧
      (increment^[3] (start [2, 3, 1])).values = [1, 0, 0] ∧ (increment^[3] (start [2, 3, 1])).flat = .ok 3 ∧
      increment^[2] (increment^[6] (start [2, 3, 1])) = increment^[6] (start [2, 3, 1]) ∧
      Size.product [] = .ok 1 ∧ (increment^[1] (start [])).isAtEnd = true ∧
      Size.product [3, 0] = .ok 0 ∧ ofFlat 0 [3, 0] = .ok (start [3, 0]) := by
  have counted : Size.product [2, 3, 1] = .ok 6 := rfl
  have single : Size.product [] = .ok 1 := rfl
  have none : Size.product [3, 0] = .ok 0 := rfl
  obtain ⟨same, before, ended, stays⟩ := walk_eq_ofFlat counted
  exact ⟨counted, same 3 (by decide), rfl, (before 3 (by decide)).2.2, stays _ ended 2, single,
    (walk_eq_ofFlat single).2.2.1, none, (walk_eq_ofFlat none).1 0 (Nat.le_refl 0)⟩

end Walk

section Reachable

/-- What can be made of any dimensions, offset or coordinates, by steps and resets in any order. -/
inductive Reachable : MultiIndex → Prop where
  | start (dims : List Nat) : Reachable (start dims)
  | ofFlat {flat : Nat} {dims : List Nat} {m : MultiIndex} (made : ofFlat flat dims = .ok m) : Reachable m
  | ofCoordinates (coordinates : List Coordinate) : Reachable (ofCoordinates coordinates)
  | increment {m : MultiIndex} (reached : Reachable m) : Reachable m.increment
  | reset {m : MultiIndex} (reached : Reachable m) : Reachable m.reset

variable {m : MultiIndex}

theorem reset_eq_start (m : MultiIndex) : m.reset = start m.dims := by
  rw [reset, start, MultiIndex.dims, List.map_map]
  rfl

theorem below_start {dims : List Nat} (before : (start dims).isAtEnd = false) :
    Below (start dims).values (start dims).dims := by
  rw [start_eq_atOffset] at before ⊢
  exact below_atOffset before

theorem ofCoordinates_isAtEnd_iff {coordinates : List Coordinate} :
    (ofCoordinates coordinates).isAtEnd = true ↔ ∃ c ∈ coordinates, c.dim ≤ c.value := by
  simp [ofCoordinates, Coordinate.isAtEnd]

/-- Before its end a multi-index has every value in range, even when it was made of coordinates that nobody
checked: one out of range would have put it at its end. -/
theorem Reachable.inRange (reached : m.Reachable) (before : m.isAtEnd = false) : Below m.values m.dims := by
  induction reached with
  | start dims => exact below_start before
  | @ofFlat flat dims m made =>
      obtain ⟨total, counted, _⟩ := bind_eq_ok_iff.mp made
      cases (ofFlat_eq counted flat).symm.trans made
      exact below_atOffset before
  | ofCoordinates coordinates =>
      rw [below_iff]
      intro c present
      by_contra outside
      have ended := ofCoordinates_isAtEnd_iff.mpr ⟨c, present, Nat.le_of_not_lt outside⟩
      exact Bool.false_ne_true (before.symm.trans ended)
  | @increment m _ ih =>
      cases ended : m.isAtEnd with
      | true =>
          rw [increment_of_atEnd ended] at before
          exact absurd (ended.symm.trans before) (by decide)
      | false =>
          rw [dims_increment]
          exact (increment_spec ended (ih ended)).1
  | @reset m _ _ =>
      rw [reset_eq_start] at before ⊢
      exact below_start before

theorem mapM_coordinate (m : MultiIndex) : (List.range m.size).mapM m.coordinate = .ok m.coordinates := by
  rw [mapM_eq_ok_iff, List.forall₂_iff_get]
  refine ⟨List.length_range, fun position inside inside' => ?_⟩
  simp [coordinate, List.getElem?_eq_getElem inside']

theorem ofCoordinates_eq_iff (reached : m.Reachable) :
    ofCoordinates m.coordinates = m ↔ (m.isAtEnd = true → ∃ c ∈ m.coordinates, c.dim ≤ c.value) := by
  constructor
  · intro same ended
    rw [← same] at ended
    exact ofCoordinates_isAtEnd_iff.mp ended
  · intro shown
    have flag : (ofCoordinates m.coordinates).isAtEnd = m.isAtEnd := by
      rw [Bool.eq_iff_iff, ofCoordinates_isAtEnd_iff]
      refine ⟨?_, shown⟩
      rintro ⟨c, present, outside⟩
      by_contra before
      have inside := below_iff.mp (reached.inRange (Bool.eq_false_iff.mpr before)) c present
      exact Nat.not_lt_of_le outside inside
    exact eq_of_values rfl rfl flag

/-- The coordinates of a multi-index make it again, values and dimensions always, and its end if one of them is at
its own end. So they do before the end and after a reset, and never when a step has led to the end. -/
theorem ofCoordinates_components (reached : m.Reachable) :
    (List.range m.size).mapM m.coordinate = .ok m.coordinates ∧
    (ofCoordinates m.coordinates).values = m.values ∧ (ofCoordinates m.coordinates).dims = m.dims ∧
    (ofCoordinates m.coordinates = m ↔ (m.isAtEnd = true → ∃ c ∈ m.coordinates, c.dim ≤ c.value)) ∧
    ofCoordinates m.reset.coordinates = m.reset ∧
    (m.isAtEnd = false → m.increment.isAtEnd = true → ofCoordinates m.increment.coordinates ≠ m.increment) := by
  refine ⟨mapM_coordinate m, rfl, rfl, ofCoordinates_eq_iff reached, ?_, ?_⟩
  · rw [ofCoordinates_eq_iff (.reset reached), reset_eq_start]
    intro ended
    have zero : 0 ∈ m.dims := List.contains_iff_mem.mp ended
    exact ⟨⟨0, 0⟩, List.mem_map.mpr ⟨0, zero, rfl⟩, Nat.le_refl 0⟩
  · intro before ended same
    have below := (increment_spec before (reached.inRange before)).1
    rw [← dims_increment, below_iff] at below
    obtain ⟨c, present, outside⟩ := (ofCoordinates_eq_iff (.increment reached)).mp same ended
    exact Nat.not_lt_of_le outside (below c present)

theorem ofCoordinates_components_reset :
    let m := (ofCoordinates [⟨0, 2⟩, ⟨3, 3⟩]).increment
    m.Reachable ∧ m.isAtEnd = true ∧ ofCoordinates m.coordinates = m ∧ m.reset.isAtEnd = false ∧
      ofCoordinates m.reset.coordinates = m.reset := by
  intro m
  have reached : m.Reachable := .increment (.ofCoordinates _)
  obtain ⟨_, _, _, same, restarted, _⟩ := ofCoordinates_components reached
  exact ⟨reached, rfl, same.mpr fun _ => ⟨⟨3, 3⟩, by decide, Nat.le_refl 3⟩, rfl, restarted⟩

/-- Stepped off the last value, a multi-index is at its end with its value back at zero, and its coordinates make
one that has not ended. -/
theorem ofCoordinates_stepped_off :
    (increment (increment (start [2]))).Reachable ∧
      ofCoordinates (increment (increment (start [2]))).coordinates ≠ increment (increment (start [2])) :=
  ⟨.increment (.increment (.start [2])), by decide⟩

end Reachable

end IndexNotation.MultiIndex
