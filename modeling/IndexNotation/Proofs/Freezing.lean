import IndexNotation.Proofs.Origins
import IndexNotation.Proofs.QuadraticSum
import IndexNotation.Proofs.Summands
/-!
Frozen tensors. Stored cells are copied below all windows that a tensor is seen through, a generator is shared, and
the windows add up their offsets. What comes of it reads no memory, so that no later write reaches it.
-/
namespace IndexNotation

variable {α : Type}

namespace Components

/-- Every length is a size, as the lengths of arrays are. -/
def Sized : Components α → Prop
  | stored _ _ _ length => length < Size.bound
  | generated g => g.dimension < Size.bound
  | window base _ length => length < Size.bound ∧ base.Sized

theorem Sized.length_lt {c : Components α} (sized : c.Sized) : c.length < Size.bound := by
  cases c with
  | stored _ _ _ _ | generated _ => exact sized
  | window base offset length => exact sized.1

theorem first_eq_mapM (c : Components α) (count : Nat) :
    c.first count = (do return #[] ++ (← (List.range' 0 count).mapM c.get).toArray) := by
  rw [first, RowMajor.foldFrom_eq_foldlM, ← foldlM_push]

section Stored

variable {storage : Storage} {block offset length : Nat} {memory : Memory α}
  (fits : (stored storage block offset length).Fits memory)

include fits

theorem exists_first_stored (scratch : Scratch α) :
    ∃ values, (stored storage block offset length).first length memory scratch = (.ok values, scratch) := by
  have each : ∀ index ∈ List.range' 0 length, ∃ x,
      (stored storage block offset length).get index memory scratch = (.ok x, scratch) := by
    intro index present
    have inside : index < length := by simpa using present
    rcases fits index inside with ⟨x, found⟩
    refine ⟨x, ?_⟩
    rw [get, if_pos inside]
    exact congrArg (·, scratch) (Memory.read_eq found)
  rcases EvalM.exists_mapM_run each with ⟨values, ran⟩
  refine ⟨#[] ++ values.toArray, ?_⟩
  rw [first_eq_mapM, EvalM.bind_run, ran]
  rfl

theorem exists_block_of_fits (some : 0 < length) :
    ∃ b ∈ memory.blocks, length ≤ b.cells.size := by
  rcases fits (length - 1) (Nat.sub_lt some Nat.one_pos) with ⟨x, found⟩
  rw [Memory.read?, Option.bind_eq_some_iff] at found
  rcases found with ⟨b, here, cell⟩
  rcases Array.getElem?_eq_some_iff.mp cell with ⟨inside, _⟩
  refine ⟨b, Array.mem_of_getElem? here, ?_⟩
  dsimp only at inside
  omega

end Stored

end Components

structure Generator.Freezes (g : Generator α) (c : Components α) (memory : Memory α) : Prop where
  dimension : g.dimension = c.length
  components : ∀ index < c.length, ∀ counts, (g.evaluate index counts).1 = c.value memory index

theorem Generator.evaluate_shift (g : Generator α) {offset count index : Nat} (inside : index < count)
    (small : offset + index < Size.bound) : (g.shift offset count).evaluate index = g.evaluate (offset + index) := by
  have added : Size.add offset index = .ok (offset + index) := Size.add_eq_ok_iff.mpr ⟨rfl, small⟩
  rw [evaluate, if_pos (show index < (g.shift offset count).dimension from inside)]
  change (do g.evaluate (← CountM.ofExcept (Size.add offset index))) = _
  rw [added]
  rfl

namespace Components

variable {base : Components α} {memory : Memory α} {g : Generator α}

theorem freezes_snapshot {storage : Storage} {block offset length serial : Nat} {scratch later : Scratch α}
    {values : Array α}
    (copied : (stored storage block offset length).first length memory scratch = (.ok values, later)) :
    (Generator.snapshot serial values).Freezes (stored storage block offset length) memory := by
  rcases first_eq_ok copied with ⟨size, entries⟩
  refine ⟨size, fun index inside counts => ?_⟩
  rcases entries index inside with ⟨x, held, kept⟩
  rw [Generator.snapshot, Generator.evaluate_ofFunction, if_pos (Nat.lt_of_lt_of_eq inside size.symm), kept, held]
  rfl

theorem freezes_shift (freezes : g.Freezes base memory) {offset length : Nat}
    (inside : offset + length ≤ base.length) (small : offset + length < Size.bound) :
    (g.shift offset length).Freezes (window base offset length) memory := by
  refine ⟨rfl, fun index below counts => ?_⟩
  have within : index < length := below
  rw [g.evaluate_shift within (by omega), value, if_pos within]
  exact freezes.components (offset + index) (by omega) counts

end Components

variable [Scalar α]

/-- Every block takes fewer than `2 ^ 63` bytes, as whatever is allocated does. -/
def Memory.Addressable (memory : Memory α) : Prop :=
  ∀ b ∈ memory.blocks, b.cells.size * Scalar.width α < Nat.pow 2 63

namespace Components

theorem reserve_of_fits {storage : Storage} {block offset length : Nat} {memory : Memory α}
    (fits : (stored storage block offset length).Fits memory) (addressable : memory.Addressable) :
    Size.reserve length (Scalar.width α) = .ok () := by
  apply if_pos
  rcases Nat.eq_zero_or_pos length with none | some
  · rw [none, Nat.zero_mul]
    decide
  · rcases exists_block_of_fits fits some with ⟨b, present, inside⟩
    calc length * Scalar.width α ≤ b.cells.size * Scalar.width α := Nat.mul_le_mul_right _ inside
      _ < Nat.pow 2 63 := addressable b present

theorem exists_freeze {c : Components α} {store : Store α} (fits : c.Fits store.memory) (sized : c.Sized)
    (addressable : store.memory.Addressable) :
    ∃ g serial, c.freeze c.length store = (.ok g, { store with nextSnapshot := serial }) ∧ g.Freezes c store.memory := by
  -- a window freezes the whole of its base, so each base comes with its own length
  induction c with
  | stored storage block offset length =>
      rcases exists_first_stored fits store.scratch with ⟨values, copied⟩
      have evaluated : StoreM.ofEvalM ((stored storage block offset length).first length) store = (.ok values, store) := by
        rw [StoreM.ofEvalM, copied]
      refine ⟨.snapshot store.nextSnapshot values, store.nextSnapshot + 1, ?_, freezes_snapshot copied⟩
      rw [freeze, StoreM.bind_run, StoreM.ofExcept_run, Components.length, reserve_of_fits fits addressable]
      dsimp only
      rw [StoreM.bind_run, evaluated]
      rfl
  | generated generator =>
      refine ⟨generator, store.nextSnapshot, rfl, rfl, fun index _ counts => ?_⟩
      exact generator.steady_evaluate index counts #[]
  | window base offset length ih =>
      rcases ih fits.2 sized.2 with ⟨g, serial, ran, freezes⟩
      refine ⟨g.shift offset length, serial, ?_,
        freezes_shift freezes fits.1 (Nat.lt_of_le_of_lt fits.1 sized.2.length_lt)⟩
      rw [freeze_window, StoreM.bind_run, ran]
      rfl

end Components

namespace Tensor

variable {root t : Tensor α} {store : Store α} {path : List Nat}

omit [Scalar α] in
theorem sized_summandAlong (sized : root.components.Sized) (checked : root.Checked store.memory)
    (accepted : root.summandAlong path = .ok t) : t.components.Sized := by
  have both : t.Checked store.memory ∧ t.components.Sized :=
    summandAlong_induction (motive := fun u => u.Checked store.memory ∧ u.components.Sized) ⟨checked, sized⟩
      (fun whole n u known accepted => by
        rcases window_of_summand accepted with ⟨offset, length, windowed⟩
        have checked' := known.1.summand accepted
        have small := Space.dimension_lt checked'.length
        refine ⟨checked', ?_⟩
        rw [windowed] at small ⊢
        exact ⟨small, known.2⟩) accepted
  exact both.2

/-- A tensor, seen through any windows, is frozen to one of the same space and dimension with the components that it
has at the time. Evaluated on whatever memory there is later, they are the same. -/
theorem freeze_summandAlong (checked : root.Checked store.memory) (sized : root.components.Sized)
    (addressable : store.memory.Addressable) (accepted : root.summandAlong path = .ok t) :
    ∃ frozen g later, t.freeze store = (.ok frozen, later) ∧ later = { store with nextSnapshot := later.nextSnapshot } ∧
      frozen = ⟨t.space, .generated g⟩ ∧ frozen.space.dimension = .ok g.dimension ∧
      g.dimension = t.components.length ∧
      ∀ memory scratch, ∀ index < g.dimension,
        (frozen.component index memory scratch).1 = (t.component index store.memory store.scratch).1 := by
  have known := checked.summandAlong accepted
  rcases Components.exists_freeze known.fits (sized_summandAlong sized checked accepted) addressable with
    ⟨g, serial, ran, freezes⟩
  refine ⟨_, g, { store with nextSnapshot := serial }, ?_, rfl, rfl, ?_, freezes.dimension, ?_⟩
  · rw [freeze, dimension, known.length, StoreM.bind_run, StoreM.ofExcept_run]
    dsimp only
    rw [StoreM.bind_run, ran]
    rfl
  · rw [freezes.dimension]
    exact known.length
  · intro memory scratch index inside
    rw [freezes.dimension] at inside
    have reads : EvalM.Yields (fun _ => True) store.memory (t.component index) (t.components.value store.memory index) :=
      t.components.get_yields index
    rw [(reads store.scratch trivial).1]
    exact freezes.components index inside scratch.counts

/-- A plane inside a sum inside a sum, over shared cells: a cell that is overwritten after it was frozen shows through
the windows, and not in what was frozen. -/
theorem freeze_summandAlong_overwritten :
    ∃ (whole plane frozen : Tensor (Bounded .signed32)) (store later : Store (Bounded .signed32)),
      whole.summandAlong [1, 1] = .ok plane ∧ plane.freeze store = (.ok frozen, later) ∧
      frozen.space = .standard 2 "V" ∧ later.memory = store.memory ∧
      let overwritten := later.memory.write ⟨0, 3⟩ ⟨9, by decide⟩
      (plane.component 1 overwritten later.scratch).1 = .ok ⟨9, by decide⟩ ∧
      (frozen.component 1 overwritten later.scratch).1 = .ok ⟨4, by decide⟩ := by
  let line : Space := .standard 1 "U"
  let whole : Tensor (Bounded .signed32) :=
    ⟨.directSum [line, .directSum [line, .standard 2 "V"]], .stored .shared 0 0 4⟩
  let cells : Array (Bounded .signed32) :=
    #[⟨1, by decide⟩, ⟨2, by decide⟩, ⟨3, by decide⟩, ⟨4, by decide⟩]
  let store : Store (Bounded .signed32) := { Store.empty with memory := ⟨#[⟨0, cells⟩], 0⟩ }
  have checked : whole.Checked store.memory :=
    ⟨rfl, Components.fits_stored (b := ⟨0, cells⟩) rfl .shared (Nat.le_refl 4)⟩
  have addressable : store.memory.Addressable := by
    intro b present
    rw [Array.mem_singleton.mp present]
    decide
  rcases (⟨_, rfl, rfl, rfl⟩ : ∃ plane, whole.summandAlong [1, 1] = .ok plane ∧ plane.space = .standard 2 "V" ∧
      plane.components.length = 2) with ⟨plane, windowed, space, length⟩
  rcases freeze_summandAlong checked (show 4 < Size.bound by decide) addressable windowed with
    ⟨frozen, g, later, ran, kept, rfl, _, dimension, components⟩
  have memory : later.memory = store.memory := by rw [kept]
  refine ⟨whole, plane, _, store, later, windowed, ran, space, memory, ?_, ?_⟩
  · cases windowed
    rw [memory]
    rfl
  · rw [components _ _ 1 (by rw [dimension, length]; decide)]
    cases windowed
    rfl

end Tensor

end IndexNotation
