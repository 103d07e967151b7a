import IndexNotation.RowMajor
import IndexNotation.Proofs.Numbering
import IndexNotation.Proofs.Outcome
import Mathlib.Algebra.BigOperators.Group.Finset.Basic
import Mathlib.Algebra.BigOperators.Ring.List
import Mathlib.Algebra.GroupWithZero.Nat
import Mathlib.Data.List.Forall2

namespace IndexNotation.RowMajor

def number : (values dims : List Nat) → Nat
  | value :: values, _ :: dims => value * dims.prod + number values dims
  | _, _ => 0

theorem below_iff_forall₂ {values dims : List Nat} :
    Below values dims ↔ List.Forall₂ (· < ·) values dims := by
  induction values generalizing dims with
  | nil => cases dims <;> simp [Below]
  | cons value values ih =>
      cases dims with
      | nil => simp [Below]
      | cons dim dims => simp [Below, ih]

theorem Below.length_eq {values dims : List Nat} (below : Below values dims) :
    values.length = dims.length := (below_iff_forall₂.mp below).length_eq

theorem below_replicate_iff {values : List Nat} {order dim : Nat} :
    Below values (List.replicate order dim) ↔
      values.length = order ∧ ∀ value ∈ values, value < dim := by
  induction order generalizing values with
  | zero => cases values <;> simp [Below]
  | succ order ih =>
      cases values with
      | nil => simp [Below, List.replicate_succ]
      | cons value values =>
          simp only [List.replicate_succ, Below, ih, List.length_cons, Nat.add_right_cancel_iff,
            List.forall_mem_cons]
          exact and_left_comm

theorem number_lt {values dims : List Nat} (below : Below values dims) :
    number values dims < dims.prod := by
  induction values generalizing dims with
  | nil =>
      cases dims with
      | nil => simp [number]
      | cons dim dims => exact below.elim
  | cons value values ih =>
      cases dims with
      | nil => exact below.elim
      | cons dim dims =>
          obtain ⟨small, rest⟩ := below
          have tail := ih rest
          rw [number, List.prod_cons]
          calc value * dims.prod + number values dims < value * dims.prod + dims.prod :=
                Nat.add_lt_add_left tail _
            _ = (value + 1) * dims.prod := (Nat.succ_mul value dims.prod).symm
            _ ≤ dim * dims.prod := Nat.mul_le_mul_right dims.prod small

section Append

variable {first second dims dims' : List Nat}

end Append

theorem number_strictMonoOn (dims : List Nat) :
    StrictMonoOn (fun values => number values dims) {values | Below values dims} := by
  intro first belowFirst second belowSecond ordered
  induction dims generalizing first second with
  | nil =>
      cases first with
      | nil =>
          cases second with
          | nil => exact absurd ordered (lt_irrefl _)
          | cons _ _ => exact belowSecond.elim
      | cons _ _ => exact belowFirst.elim
  | cons dim dims ih =>
      cases ordered with
      | nil => exact belowFirst.elim
      | cons tail => exact Nat.add_lt_add_left (ih belowFirst.2 belowSecond.2 tail) _
      | rel smaller =>
          rename_i value values value' values'
          have tail := number_lt belowFirst.2
          have step : (value + 1) * dims.prod ≤ value' * dims.prod :=
            Nat.mul_le_mul_right dims.prod smaller
          rw [Nat.succ_mul] at step
          change value * dims.prod + number values dims < value' * dims.prod + number values' dims
          omega

theorem map_number_tuples (dims : List Nat) :
    (tuples dims).map (fun values => number values dims) = List.range dims.prod := by
  induction dims with
  | nil => rfl
  | cons dim dims ih =>
      have rows : ∀ count, (List.range count).flatMap
          (fun value => (List.range dims.prod).map (value * dims.prod + ·)) =
          List.range (count * dims.prod) := by
        intro count
        induction count with
        | zero => simp
        | succ count ih =>
            rw [List.range_succ, List.flatMap_append, ih, List.flatMap_singleton, Nat.succ_mul,
              List.range_add]
      rw [List.prod_cons, ← rows dim, tuples, List.map_flatMap, ← ih]
      simp only [List.map_map]
      rfl

theorem nodup_tuples (dims : List Nat) : (tuples dims).Nodup := by
  have numbers := map_number_tuples dims ▸ List.nodup_range
  exact List.Nodup.of_map _ numbers

theorem sum_map_number {R : Type} [AddCommMonoid R] (dims : List Nat) (f : Nat → R) :
    ((tuples dims).map fun values => f (number values dims)).sum = ∑ flat ∈ Finset.range dims.prod, f flat := by
  change _ = ((List.range dims.prod).map f).sum
  rw [← map_number_tuples, List.map_map]
  rfl

theorem sum_map_tuples {R : Type} [AddCommMonoid R] {dim : Nat} {dims : List Nat}
    (f : List Nat → R) :
    ((tuples (dim :: dims)).map f).sum =
      ∑ value ∈ Finset.range dim, ((tuples dims).map fun rest => f (value :: rest)).sum := by
  rw [tuples, List.map_flatMap, List.flatMap_def, List.sum_flatten, List.map_map]
  simp only [Function.comp_def, List.map_map]
  rfl

section Split

theorem distribute_cons (flat dim old : Nat) (dims buffer : List Nat) :
    distribute flat (dim :: dims) (old :: buffer) =
      ((if dim = 0 then old else (distribute flat dims buffer).2 % dim) :: (distribute flat dims buffer).1,
        if dim = 0 then (distribute flat dims buffer).2 else (distribute flat dims buffer).2 / dim) := by
  by_cases zero : dim = 0
  · simp [distribute, zero]
  · simp [distribute, zero]

theorem distribute_snd {dims buffer : List Nat} (flat : Nat) (same : buffer.length = dims.length) :
    (distribute flat dims buffer).2 = flat / (dims.filter (0 < ·)).prod := by
  induction dims generalizing buffer with
  | nil => simp [distribute]
  | cons dim dims ih =>
      cases buffer with
      | nil => cases same
      | cons old buffer =>
          rw [distribute_cons, ih (Nat.succ.inj same)]
          by_cases zero : dim = 0
          · simp [zero]
          · have positive := Nat.pos_of_ne_zero zero
            simp [zero, positive, Nat.div_div_eq_div_mul, Nat.mul_comm]

theorem distribute_spec {dims buffer : List Nat} (flat : Nat) (same : buffer.length = dims.length)
    (positive : 0 ∉ dims) :
    Below (distribute flat dims buffer).1 dims ∧ number (distribute flat dims buffer).1 dims = flat % dims.prod := by
  induction dims generalizing buffer with
  | nil => simp [distribute, Below, number, Nat.mod_one]
  | cons dim dims ih =>
      cases buffer with
      | nil => cases same
      | cons old buffer =>
          simp only [List.mem_cons, not_or] at positive
          have shorter := Nat.succ.inj same
          obtain ⟨below, numbered⟩ := ih shorter positive.2
          have nonzero : ¬ dim = 0 := fun zero => positive.1 zero.symm
          have all : dims.filter (0 < ·) = dims := by
            rw [List.filter_eq_self]
            exact fun other present => decide_eq_true (Nat.pos_of_ne_zero fun zero => positive.2 (zero ▸ present))
          rw [distribute_cons, if_neg nonzero, distribute_snd flat shorter, all]
          refine ⟨⟨Nat.mod_lt _ (Nat.pos_of_ne_zero nonzero), below⟩, ?_⟩
          rw [number, numbered, List.prod_cons, Nat.mul_comm dim, Nat.mod_mul, Nat.mul_comm, Nat.add_comm]

theorem split_mod {dims : List Nat} (positive : 0 ∉ dims) (flat : Nat) :
    Below (split flat dims) dims ∧ number (split flat dims) dims = flat % dims.prod :=
  distribute_spec flat List.length_replicate positive

theorem zero_notMem_of_lt {dims : List Nat} {flat : Nat} (small : flat < dims.prod) : 0 ∉ dims := by
  intro zero
  rw [List.prod_eq_zero zero] at small
  exact Nat.not_lt_zero flat small

theorem split_spec {dims : List Nat} {flat : Nat} (small : flat < dims.prod) :
    Below (split flat dims) dims ∧ number (split flat dims) dims = flat := by
  obtain ⟨below, numbered⟩ := split_mod (zero_notMem_of_lt small) flat
  exact ⟨below, numbered.trans (Nat.mod_eq_of_lt small)⟩

theorem split_number {values dims : List Nat} (below : Below values dims) :
    split (number values dims) dims = values := by
  obtain ⟨inside, numbered⟩ := split_spec (number_lt below)
  exact (number_strictMonoOn dims).injOn inside below numbered

theorem numbering (dims : List Nat) :
    Numbering dims.prod {values | Below values dims} (fun values => number values dims)
      (fun flat => .ok (split flat dims)) where
  increasing := number_strictMonoOn dims
  below := fun _ below => number_lt below
  splits := by
    intro flat small
    obtain ⟨below, numbered⟩ := split_spec small
    exact ⟨split flat dims, below, rfl, numbered⟩

end Split

section Buffer

variable {dims buffer : List Nat} {place dim : Nat}

/-- How far apart the offsets of neighbouring values of a place are: as many as the later places have tuples, those
without any value left out. -/
def stride (dims : List Nat) (place : Nat) : Nat := ((dims.drop (place + 1)).filter (0 < ·)).prod

/-- Where a dimension is zero the place keeps what it held; any other gets its digit, whatever it held. -/
theorem distribute_getElem? (flat : Nat) (same : buffer.length = dims.length) (there : dims[place]? = some dim) :
    (distribute flat dims buffer).1[place]? =
      if dim = 0 then buffer[place]? else some (flat / stride dims place % dim) := by
  induction dims generalizing buffer place with
  | nil => cases there
  | cons first dims ih =>
      cases buffer with
      | nil => cases same
      | cons old buffer =>
          rw [distribute_cons]
          cases place with
          | zero =>
              cases there
              rw [stride, List.drop_succ_cons, List.drop_zero, ← distribute_snd flat (Nat.succ.inj same)]
              by_cases zero : dim = 0
              · simp [zero]
              · simp [zero]
          | succ place => exact ih (Nat.succ.inj same) there

theorem split_getElem? (flat : Nat) (there : dims[place]? = some dim) :
    (split flat dims)[place]? = some (if dim = 0 then 0 else flat / stride dims place % dim) := by
  rw [split, distribute_getElem? flat List.length_replicate there]
  split
  · exact List.getElem?_replicate_of_lt (List.getElem?_eq_some_iff.mp there).1
  · rfl

theorem distribute_eq_split_iff (flat : Nat) (same : buffer.length = dims.length) :
    (distribute flat dims buffer).1 = split flat dims ↔
      ∀ place : Nat, dims[place]? = some 0 → buffer[place]? = some 0 := by
  constructor
  · intro equal place there
    have kept := distribute_getElem? flat same there
    rw [equal, split_getElem? flat there] at kept
    exact kept.symm
  · intro cleared
    apply List.ext_getElem?
    intro place
    cases there : dims[place]? with
    | none =>
        have past := List.getElem?_eq_none_iff.mp there
        rw [List.getElem?_eq_none (by rwa [length_distribute flat same]),
          List.getElem?_eq_none (by rwa [length_split])]
    | some dim =>
        rw [distribute_getElem? flat same there, split_getElem? flat there]
        split
        · rename_i zero
          exact cleared place (zero ▸ there)
        · rfl

/-- A split into a buffer, whatever that held, has in every place of positive dimension the digit that the split has
there, below the dimension, and leaves the other places, where the split has zero, as they were. So it is the split
just where those were zero, and always where no dimension is. -/
theorem splitInto_spec (flat : Nat) (same : buffer.length = dims.length) :
    ∃ values : List Nat, splitInto flat dims buffer = .ok values ∧ values.length = dims.length ∧
      (∀ place dim : Nat, dims[place]? = some dim → 0 < dim → ∃ value < dim,
        values[place]? = some value ∧ (split flat dims)[place]? = some value ∧
          value = flat / stride dims place % dim) ∧
      (∀ place : Nat, dims[place]? = some 0 → values[place]? = buffer[place]? ∧ (split flat dims)[place]? = some 0) ∧
      (values = split flat dims ↔ ∀ place : Nat, dims[place]? = some 0 → buffer[place]? = some 0) := by
  refine ⟨_, if_pos same, length_distribute flat same, ?_, ?_, distribute_eq_split_iff flat same⟩
  · intro place dim there positive
    have some : dim ≠ 0 := Nat.ne_of_gt positive
    refine ⟨_, Nat.mod_lt _ positive, ?_, ?_, rfl⟩
    · rw [distribute_getElem? flat same there, if_neg some]
    · rw [split_getElem? flat there, if_neg some]
  · intro place there
    exact ⟨distribute_getElem? flat same there, split_getElem? flat there⟩

/-- The middle place has no value: of two buffers the one that holds zero there ends as the split, the other keeps its
seven. -/
theorem splitInto_spec_kept :
    split 4 [2, 0, 3] = [1, 0, 1] ∧ splitInto 4 [2, 0, 3] [9, 0, 8] = .ok (split 4 [2, 0, 3]) ∧
      splitInto 4 [2, 0, 3] [9, 7, 8] = .ok [1, 7, 1] := by
  obtain ⟨values, made, _, _, _, whole⟩ :=
    splitInto_spec 4 (show [9, 0, 8].length = [2, 0, 3].length from rfl)
  have cleared : ∀ place : Nat, [2, 0, 3][place]? = some 0 → [9, 0, 8][place]? = some 0 := by
    rintro (_ | _ | _ | place) there
    · cases there
    · rfl
    · cases there
    · cases there
  rw [whole.mpr cleared] at made
  exact ⟨rfl, made, rfl⟩

theorem splitInto_leftover :
    splitInto 0 [0] [7] ≠ .ok (split 0 [0]) ∧ splitInto 0 [0] [7] ≠ splitInto 0 [0] [0] := by decide

end Buffer

section Offset

theorem prod_pos_of_below {values dims : List Nat} (below : Below values dims) : 0 < dims.prod :=
  Nat.lt_of_le_of_lt (Nat.zero_le _) (number_lt below)

/-- The running offset never exceeds the number of the whole tuple, so it is a size as long as that is one. -/
theorem foldlM_offset {values dims : List Nat} {acc : Nat} (below : Below values dims)
    (small : acc * dims.prod + number values dims < Size.bound) :
    (values.zip dims).foldlM (fun acc (value, dim) => do Size.add (← Size.mul acc dim) value) acc =
      Except.ok (acc * dims.prod + number values dims) := by
  induction values generalizing dims acc with
  | nil =>
      cases dims with
      | nil => simp [number, pure, Except.pure]
      | cons _ _ => exact below.elim
  | cons value values ih =>
      cases dims with
      | nil => exact below.elim
      | cons dim dims =>
          obtain ⟨_, rest⟩ := below
          have whole : acc * (dim :: dims).prod + number (value :: values) (dim :: dims) =
              (acc * dim + value) * dims.prod + number values dims := by
            rw [number, List.prod_cons, Nat.add_mul, Nat.mul_assoc, Nat.add_assoc]
          rw [whole] at small
          have next : acc * dim + value < Size.bound :=
            calc acc * dim + value ≤ (acc * dim + value) * dims.prod :=
                  Nat.le_mul_of_pos_right _ (prod_pos_of_below rest)
              _ ≤ (acc * dim + value) * dims.prod + number values dims := Nat.le_add_right _ _
              _ < Size.bound := small
          have multiplied : Size.mul acc dim = .ok (acc * dim) :=
            Size.mul_eq_ok_iff.mpr ⟨rfl, by omega⟩
          have added : Size.add (acc * dim) value = .ok (acc * dim + value) :=
            Size.add_eq_ok_iff.mpr ⟨rfl, next⟩
          simp only [List.zip_cons_cons, List.foldlM_cons, multiplied, added, ok_bind]
          rw [ih rest small, whole]

theorem offset_eq_of_lt {values dims : List Nat} (below : Below values dims)
    (small : number values dims < Size.bound) : offset values dims = .ok (number values dims) := by
  have started : 0 * dims.prod + number values dims = number values dims := by
    rw [Nat.zero_mul, Nat.zero_add]
  have folded := foldlM_offset below (started ▸ small)
  rw [started] at folded
  rw [offset, if_pos below.length_eq]
  exact folded

theorem offset_eq {values dims : List Nat} (below : Below values dims)
    (small : dims.prod ≤ Size.bound) : offset values dims = .ok (number values dims) :=
  offset_eq_of_lt below (Nat.lt_of_lt_of_le (number_lt below) small)

theorem offset_replicate_zero (dims : List Nat) : offset (List.replicate dims.length 0) dims = .ok 0 := by
  have step (dim : Nat) : (do Size.add (← Size.mul 0 dim) 0) = Except.ok 0 := by
    rw [Size.mul, Nat.zero_mul]
    rfl
  rw [offset, if_pos List.length_replicate]
  induction dims with
  | nil => rfl
  | cons dim dims ih =>
      rw [List.length_cons, List.replicate_succ, List.zip_cons_cons, List.foldlM_cons]
      dsimp only
      rw [step, ok_bind]
      exact ih

theorem distribute_zero (dims : List Nat) :
    distribute 0 dims (List.replicate dims.length 0) = (List.replicate dims.length 0, 0) := by
  induction dims with
  | nil => rfl
  | cons dim dims ih =>
      rw [List.length_cons, List.replicate_succ, distribute, ih]
      simp

theorem offset_split {flat : Nat} {dims : List Nat} (fits : flat = 0 ∨ flat < dims.prod)
    (small : flat < Size.bound) : offset (split flat dims) dims = .ok flat := by
  rcases fits with rfl | below
  · rw [split, distribute_zero]
    exact offset_replicate_zero dims
  · obtain ⟨inside, numbered⟩ := split_spec below
    rw [offset_eq_of_lt inside (numbered.symm ▸ small), numbered]

theorem foldlM_offset_eq_ok {values dims : List Nat} {acc flat : Nat}
    (same : values.length = dims.length) (start : acc < Size.bound)
    (computed : (values.zip dims).foldlM
      (fun acc (value, dim) => do Size.add (← Size.mul acc dim) value) acc = Except.ok flat) :
    flat = acc * dims.prod + number values dims ∧ flat < Size.bound := by
  induction values generalizing dims acc with
  | nil =>
      cases dims with
      | nil =>
          cases computed
          exact ⟨by simp [number], start⟩
      | cons _ _ => cases same
  | cons value values ih =>
      cases dims with
      | nil => cases same
      | cons dim dims =>
          rw [List.zip_cons_cons, List.foldlM_cons] at computed
          obtain ⟨next, added, rest⟩ := bind_eq_ok_iff.mp computed
          obtain ⟨grown, multiplied, sum⟩ := bind_eq_ok_iff.mp added
          obtain ⟨rfl, _⟩ := Size.mul_eq_ok_iff.mp multiplied
          obtain ⟨rfl, small⟩ := Size.add_eq_ok_iff.mp sum
          obtain ⟨equal, bound⟩ := ih (Nat.succ.inj same) small rest
          refine ⟨?_, bound⟩
          rw [equal, number, List.prod_cons, Nat.add_mul, Nat.mul_assoc, Nat.add_assoc]

theorem offset_eq_ok {values dims : List Nat} {flat : Nat}
    (computed : offset values dims = .ok flat) : flat = number values dims ∧ flat < Size.bound := by
  rw [offset] at computed
  split at computed
  · rename_i same
    have folded := foldlM_offset_eq_ok same (by decide) computed
    rwa [Nat.zero_mul, Nat.zero_add] at folded
  · cases computed

theorem eq_split_of_offset {values dims : List Nat} {flat : Nat} (below : Below values dims)
    (computed : offset values dims = .ok flat) : values = split flat dims := by
  obtain ⟨rfl, _⟩ := offset_eq_ok computed
  exact (split_number below).symm

theorem offsets_eq_range {dims offsets : List Nat}
    (numbered : List.Forall₂ (fun values flat => offset values dims = .ok flat) (tuples dims) offsets) :
    offsets = List.range dims.prod ∧ dims.prod ≤ Size.bound := by
  have numbers : List.Forall₂ (· = ·) ((tuples dims).map fun values => number values dims) offsets := by
    rw [List.forall₂_map_left_iff]
    exact numbered.imp fun values flat computed => (offset_eq_ok computed).1.symm
  rw [List.forall₂_eq_eq_eq, map_number_tuples] at numbers
  constructor
  · exact numbers.symm
  · by_contra large
    -- the tuple whose number is the bound has no offset
    rcases split_spec (Nat.lt_of_not_le large) with ⟨below, bound⟩
    rcases exists_of_mapM (mapM_eq_ok_iff.mpr numbered) (mem_tuples.mpr below) with ⟨flat, _, computed⟩
    rcases offset_eq_ok computed with ⟨same, small⟩
    rw [same, bound] at small
    exact Nat.lt_irrefl _ small

theorem offset_eq_error {values dims : List Nat} {fault : Fault}
    (same : values.length = dims.length) (failed : offset values dims = .error fault) :
    fault = .overflow := by
  rw [offset, if_pos same] at failed
  rcases foldlM_eq_error failed with ⟨acc, ⟨value, dim⟩, _, fails⟩
  rcases bind_eq_error_iff.mp fails with multiplying | ⟨grown, _, adding⟩
  · exact Size.checked_eq_error multiplying
  · exact Size.checked_eq_error adding

end Offset

theorem foldlM_mul_eq_ok {sizes : List Nat} {acc d : Nat}
    (accepted : sizes.foldlM Size.mul acc = .ok d) (small : acc < Size.bound) :
    acc * sizes.prod = d ∧ d < Size.bound := by
  induction sizes generalizing acc with
  | nil =>
      cases accepted
      exact ⟨Nat.mul_one _, small⟩
  | cons size sizes ih =>
      rw [List.foldlM_cons] at accepted
      obtain ⟨next, grown, rest⟩ := bind_eq_ok_iff.mp accepted
      obtain ⟨same, smaller⟩ := Size.mul_eq_ok_iff.mp grown
      subst same
      obtain ⟨product, below⟩ := ih rest smaller
      rw [List.prod_cons, ← Nat.mul_assoc]
      exact ⟨product, below⟩

theorem product_eq_ok {sizes : List Nat} {d : Nat} (accepted : Size.product sizes = .ok d) :
    sizes.prod = d ∧ d < Size.bound := by
  have folded := foldlM_mul_eq_ok accepted (by decide)
  rwa [Nat.one_mul] at folded

end IndexNotation.RowMajor
