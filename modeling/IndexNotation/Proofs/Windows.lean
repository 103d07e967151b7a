import IndexNotation.Proofs.Freezing
/-!
Windows opened one inside the other. Their offsets add up, and whatever is read, written, lent out or frozen through
the last one lies in its part of the place below. Only what is frozen beyond the window's own length reads on in the
window below it.
-/
namespace IndexNotation

variable {α : Type}

namespace Components

theorem value_write {memory : Memory α} {c : Components α} {index : Nat} {location : Location}
    (spared : c.locate index ≠ .ok location) (x : α) :
    c.value (memory.write location x) index = c.value memory index := by
  induction c generalizing index with
  | stored storage block offset length =>
      rw [value, value]
      split
      · rename_i inside
        have other : location ≠ ⟨block, offset + index⟩ := by
          rintro rfl
          exact spared (if_pos inside)
        rw [Memory.read, Memory.read, Memory.read?_write_of_ne memory other]
      · rfl
  | generated g => rfl
  | window base offset length ih =>
      rw [value, value]
      split
      · rename_i inside
        rw [locate, if_pos inside] at spared
        exact ih spared
      · rfl

/-- The places of components seen through windows that are opened one inside the other. The last window shows those of
the base from `start` on. -/
inductive Stacked : (base last : Components α) → (start : Nat) → Prop
  | stored (storage : Storage) (block offset length : Nat) :
      Stacked (.stored storage block offset length) (.stored storage block offset length) 0
  | generated (g : Generator α) : Stacked (.generated g) (.generated g) 0
  | window {base below last : Components α} {start offset length : Nat} (stacked : Stacked base below start)
      (opened : below.window? offset length = .ok last) : Stacked base last (start + offset)

namespace Stacked

variable {base last : Components α} {start : Nat}

theorem inside (stacked : Stacked base last start) : start + last.length ≤ base.length := by
  induction stacked with
  | stored storage block offset length => exact (Nat.zero_add _).le
  | generated g => exact (Nat.zero_add _).le
  | window stacked opened ih =>
      obtain ⟨within, rfl⟩ := window?_eq_ok opened
      rw [length]
      omega

theorem get_eq (stacked : Stacked base last start) {index : Nat} (below : index < last.length) :
    last.get index = base.get (start + index) := by
  induction stacked generalizing index with
  | stored storage block offset length => rw [Nat.zero_add]
  | generated g => rw [Nat.zero_add]
  | window stacked opened ih =>
      obtain ⟨within, rfl⟩ := window?_eq_ok opened
      rw [length] at below
      rw [get, if_pos below, ih (by omega), Nat.add_assoc]

theorem locate_eq (stacked : Stacked base last start) {index : Nat} (below : index < last.length) :
    last.locate index = base.locate (start + index) := by
  induction stacked generalizing index with
  | stored storage block offset length => rw [Nat.zero_add]
  | generated g => rw [Nat.zero_add]
  | window stacked opened ih =>
      obtain ⟨within, rfl⟩ := window?_eq_ok opened
      rw [length] at below
      rw [locate, if_pos below, ih (by omega), Nat.add_assoc]

theorem value_eq (stacked : Stacked base last start) {index : Nat} (below : index < last.length)
    (memory : Memory α) : last.value memory index = base.value memory (start + index) := by
  have window : EvalM.Yields (fun _ => True) memory (last.get index) (last.value memory index) :=
    last.get_yields index
  have whole : EvalM.Yields (fun _ => True) memory (base.get (start + index)) (base.value memory (start + index)) :=
    base.get_yields (start + index)
  rw [stacked.get_eq below] at window
  exact (window ⟨#[], #[]⟩ trivial).1.symm.trans (whole ⟨#[], #[]⟩ trivial).1

theorem slice_eq (stacked : Stacked base last start) {memory : Memory α} {cells : Array α}
    (lent : last.slice? memory = .ok (some cells)) :
    ∃ whole, base.slice? memory = .ok (some whole) ∧ ∀ index < last.length, cells[index]? = whole[start + index]? := by
  induction stacked generalizing cells with
  | stored storage block offset length => exact ⟨cells, lent, fun index _ => by rw [Nat.zero_add]⟩
  | generated g => cases lent
  | @window base below last start offset length stacked opened ih =>
      obtain ⟨within, rfl⟩ := window?_eq_ok opened
      rw [slice?] at lent
      obtain ⟨found, lentBelow, lent⟩ := bind_eq_ok_iff.mp lent
      cases found with
      | none => cases lent
      | some under =>
          obtain ⟨whole, lentBase, same⟩ := ih lentBelow
          dsimp only at lent
          split at lent
          · cases lent
            refine ⟨whole, lentBase, fun index inWindow => ?_⟩
            rw [Components.length] at inWindow
            rw [Array.getElem?_extract, if_pos (by omega), same (offset + index) (by omega), Nat.add_assoc]
          · cases lent

theorem fits (stacked : Stacked base last start) {memory : Memory α} (there : base.Fits memory) : last.Fits memory := by
  induction stacked with
  | stored storage block offset length => exact there
  | generated g => exact there
  | window stacked opened ih =>
      obtain ⟨within, rfl⟩ := window?_eq_ok opened
      exact ⟨within, ih there⟩

end Stacked

theorem size_slice {base : Components α} {offset length : Nat} {memory : Memory α} {cells : Array α}
    (lent : (window base offset length).slice? memory = .ok (some cells)) : cells.size = length := by
  rw [slice?] at lent
  obtain ⟨found, _, lent⟩ := bind_eq_ok_iff.mp lent
  cases found with
  | none => cases lent
  | some under =>
      dsimp only at lent
      split at lent
      · cases lent
        rw [Array.size_extract]
        omega
      · cases lent

theorem window?_small {base last : Components α} {offset length : Nat}
    (opened : base.window? offset length = .ok last) : offset + length < Size.bound := by
  rw [window?] at opened
  obtain ⟨stop, added, _⟩ := bind_eq_ok_iff.mp opened
  obtain ⟨rfl, small⟩ := Size.add_eq_ok_iff.mp added
  exact small

end Components

/-- A frozen window that gives a component has it from what was frozen below. -/
theorem Generator.evaluate_of_shift {g : Generator α} {offset count index : Nat} {x : α} {counts : Counts}
    (evaluated : ((g.shift offset count).evaluate index counts).1 = .ok x) :
    index < count ∧ (g.evaluate (offset + index) counts).1 = .ok x := by
  by_cases inside : index < count
  · by_cases small : offset + index < Size.bound
    · rw [g.evaluate_shift inside small] at evaluated
      exact ⟨inside, evaluated⟩
    · have overflows : Size.add offset index = .error .overflow := if_neg small
      have failed : ((g.shift offset count).evaluate index counts).1 = .error .overflow := by
        rw [evaluate, if_pos (show index < (g.shift offset count).dimension from inside)]
        change ((do g.evaluate (← CountM.ofExcept (Size.add offset index))) counts).1 = _
        rw [overflows]
        rfl
      cases evaluated.symm.trans failed
  · have failed : ((g.shift offset count).evaluate index counts).1 =
        .error (.generatorOutOfRange index (g.shift offset count).id count) := by
      rw [evaluate, if_neg (show ¬ index < (g.shift offset count).dimension from inside)]
      rfl
    cases evaluated.symm.trans failed

namespace Components

variable [Scalar α]

theorem freeze_memory (c : Components α) (count : Nat) (store : Store α) :
    (c.freeze count store).2.memory = store.memory := by
  induction c generalizing count with
  | stored storage block offset length =>
      rw [freeze, StoreM.bind_run, StoreM.ofExcept_run]
      cases Size.reserve count (Scalar.width α) with
      | error fault => rfl
      | ok done =>
          dsimp only
          rw [StoreM.bind_run, StoreM.ofEvalM]
          rcases (stored storage block offset length).first count store.memory store.scratch with ⟨outcome, scratch⟩
          cases outcome with
          | error fault => rfl
          | ok values => rfl
  | generated g => rfl
  | window base offset length ih =>
      have same := ih base.length
      rw [freeze_window, StoreM.bind_run]
      rcases ran : base.freeze base.length store with ⟨outcome, later⟩
      rw [ran] at same
      cases outcome with
      | error fault => exact same
      | ok g => exact same

theorem Stacked.freezes {base last : Components α} {start : Nat} (stacked : Stacked base last start)
    {store later : Store α} {g : Generator α} (ran : last.freeze last.length store = (.ok g, later)) :
    g.Freezes last store.memory := by
  induction stacked generalizing store later g with
  | stored storage block offset length =>
      rw [freeze, StoreM.bind_run_eq_ok_iff] at ran
      obtain ⟨done, middle, reserved, ran⟩ := ran
      obtain ⟨_, rfl⟩ := StoreM.ofExcept_run_eq_ok reserved
      obtain ⟨values, copied, evaluated, ran⟩ := StoreM.bind_run_eq_ok_iff.mp ran
      rw [StoreM.ofEvalM] at evaluated
      rcases read : (Components.stored storage block offset length).first length middle.memory middle.scratch with
        ⟨outcome, scratch⟩
      rw [Components.length, read] at evaluated
      cases evaluated
      cases ran
      exact freezes_snapshot read
  | generated generator =>
      cases ran
      exact ⟨rfl, fun index _ counts => generator.steady_evaluate index counts #[]⟩
  | window stacked opened ih =>
      have small := window?_small opened
      obtain ⟨within, rfl⟩ := window?_eq_ok opened
      rw [freeze_window, StoreM.bind_run_eq_ok_iff] at ran
      obtain ⟨under, middle, frozen, shifted⟩ := ran
      cases shifted
      exact freezes_shift (ih frozen) within small

/-- Components that show `length` components of the base, from `start` on, and reach no others. -/
structure Confined (last base : Components α) (start length : Nat) : Prop where
  inside : start + length ≤ base.length
  counted : last.length = length
  get : ∀ index, last.get index =
    if index < length then base.get (start + index) else EvalM.ofExcept (.error .termsBroken)
  set : ∀ index x, last.set index x =
    if index < length then base.set (start + index) x else StoreM.ofExcept (.error .termsBroken)
  /-- Whatever is written, and whether it can be or not. -/
  kept : ∀ index x store, ∀ outside, outside < start ∨ start + length ≤ outside →
    base.value (last.set index x store).2.memory outside = base.value store.memory outside
  slice : ∀ memory cells, last.slice? memory = .ok (some cells) → cells.size = length ∧
    ∃ whole, base.slice? memory = .ok (some whole) ∧ ∀ index < length, cells[index]? = whole[start + index]?
  undisturbed : ∀ count store, (last.freeze count store).2.memory = store.memory
  frozen : ∀ count ≤ length, ∀ store g later, last.freeze count store = (.ok g, later) → g.dimension = count ∧
    ∀ index < count, ∀ counts, (g.evaluate index counts).1 = base.value store.memory (start + index)

section Window

variable {base below last : Components α} {start offset length : Nat} (stacked : Stacked base below start)
  (opened : below.window? offset length = .ok last)

include stacked opened

omit [Scalar α] in
theorem Stacked.set_window (index : Nat) (x : α) : last.set index x =
    if index < length then base.set (start + offset + index) x else StoreM.ofExcept (.error .termsBroken) := by
  obtain ⟨within, rfl⟩ := window?_eq_ok opened
  rw [set, locate]
  split
  · rw [stacked.locate_eq (by omega), set, Nat.add_assoc]
  · rfl

omit [Scalar α] in
theorem Stacked.value_set_window (index : Nat) (x : α) (store : Store α) {outside : Nat}
    (apart : outside < start + offset ∨ start + offset + length ≤ outside) :
    base.value (last.set index x store).2.memory outside = base.value store.memory outside := by
  rw [stacked.set_window opened]
  split
  · rename_i inside
    cases located : base.locate (start + offset + index) with
    | error fault =>
        rw [set, located]
        rfl
    | ok location =>
        rw [set_run located]
        apply value_write
        intro same
        have equal := locate_injective located same
        omega
  · rfl

theorem Stacked.freeze_window_eq {count : Nat} {store later : Store α} {g : Generator α}
    (ran : last.freeze count store = (.ok g, later)) :
    ∃ under : Generator α, under.Freezes below store.memory ∧ g = under.shift offset count := by
  obtain ⟨_, rfl⟩ := window?_eq_ok opened
  rw [freeze_window, StoreM.bind_run_eq_ok_iff] at ran
  obtain ⟨under, middle, frozen, shifted⟩ := ran
  cases shifted
  exact ⟨under, stacked.freezes frozen, rfl⟩

theorem Stacked.confined : last.Confined base (start + offset) length where
  inside := by
    have whole := (stacked.window opened).inside
    obtain ⟨_, rfl⟩ := window?_eq_ok opened
    exact whole
  counted := by
    obtain ⟨_, rfl⟩ := window?_eq_ok opened
    rfl
  get := by
    intro index
    obtain ⟨within, rfl⟩ := window?_eq_ok opened
    rw [get]
    split
    · rw [stacked.get_eq (by omega), Nat.add_assoc]
    · rfl
  set := stacked.set_window opened
  kept := fun index x store _ apart => stacked.value_set_window opened index x store apart
  slice := by
    intro memory cells lent
    obtain ⟨whole, lentBase, same⟩ := (stacked.window opened).slice_eq lent
    obtain ⟨_, rfl⟩ := window?_eq_ok opened
    exact ⟨size_slice lent, whole, lentBase, same⟩
  undisturbed := last.freeze_memory
  frozen := by
    intro count short store g later ran
    obtain ⟨under, freezes, rfl⟩ := stacked.freeze_window_eq opened ran
    have small := window?_small opened
    obtain ⟨within, _⟩ := window?_eq_ok opened
    refine ⟨rfl, fun index inCount counts => ?_⟩
    rw [under.evaluate_shift inCount (by omega), freezes.components _ (by omega), stacked.value_eq (by omega),
      Nat.add_assoc]

/-- Through windows opened one inside the other, the last one reads, writes, lends out and freezes no component of the
base but its own. What is frozen beyond its length has further components of the window below, and none beyond that. -/
theorem Stacked.window_confined :
    last.Confined base (start + offset) length ∧
      ∀ count store g later, last.freeze count store = (.ok g, later) →
        ∀ index x counts, (g.evaluate index counts).1 = .ok x →
          index < count ∧ offset + index < below.length ∧
            base.value store.memory (start + offset + index) = .ok x := by
  refine ⟨stacked.confined opened, ?_⟩
  intro count store g later ran index x counts evaluated
  obtain ⟨under, freezes, rfl⟩ := stacked.freeze_window_eq opened ran
  obtain ⟨inCount, reached⟩ := Generator.evaluate_of_shift evaluated
  have inside : offset + index < below.length := by
    by_contra beyond
    rw [Generator.evaluate, if_neg (by rw [freezes.dimension]; exact beyond)] at reached
    cases reached
  rw [freezes.components _ inside, stacked.value_eq inside, ← Nat.add_assoc] at reached
  exact ⟨inCount, inside, reached⟩

end Window

theorem window_confined_pair :
    ∃ (below last : Components (Bounded .signed32)) (store later : Store (Bounded .signed32))
        (g : Generator (Bounded .signed32)),
      (stored .member 0 0 4).window? 1 3 = .ok below ∧ below.window? 1 2 = .ok last ∧
      last.Confined (stored .member 0 0 4) 2 2 ∧ last.freeze 2 store = (.ok g, later) ∧
      (g.evaluate 1 #[]).1 = .ok ⟨4, by decide⟩ := by
  let cells : Array (Bounded .signed32) :=
    #[⟨1, by decide⟩, ⟨2, by decide⟩, ⟨3, by decide⟩, ⟨4, by decide⟩]
  let store : Store (Bounded .signed32) := { Store.empty with memory := ⟨#[⟨0, cells⟩], 0⟩ }
  have outer : (stored .member 0 0 4 : Components (Bounded .signed32)).window? 1 3 =
      .ok (window (stored .member 0 0 4) 1 3) := rfl
  have stacked := (Stacked.stored .member 0 0 4).window outer
  obtain ⟨last, later, g, opened, ran⟩ : ∃ last later g,
      (window (stored .member 0 0 4) 1 3).window? 1 2 = .ok last ∧ last.freeze 2 store = (.ok g, later) :=
    ⟨_, _, _, rfl, rfl⟩
  obtain ⟨confined, _⟩ := stacked.window_confined opened
  refine ⟨_, last, store, later, g, outer, opened, confined, ran, ?_⟩
  rw [(confined.frozen 2 (Nat.le_refl 2) store g later ran).2 1 (by decide) #[]]
  rfl

/-- One of two stored cells through a window. Frozen as two components it gives the other cell, too, where the window
itself has no component, and where a cell alone cannot be frozen as two. -/
theorem freeze_beyond_window :
    ∃ (last : Components (Bounded .signed32)) (store later : Store (Bounded .signed32))
        (g : Generator (Bounded .signed32)),
      (stored .member 0 0 2).window? 0 1 = .ok last ∧ last.freeze 2 store = (.ok g, later) ∧
      (g.evaluate 1 #[]).1 = .ok ⟨8, by decide⟩ ∧
      (stored .member 0 0 2).value store.memory 1 = .ok ⟨8, by decide⟩ ∧
      (last.get 1 store.memory store.scratch).1 = .error .termsBroken ∧
      ((stored .member 0 0 1).freeze 2 store).1 = .error .outOfBounds := by
  let cells : Array (Bounded .signed32) := #[⟨7, by decide⟩, ⟨8, by decide⟩]
  exact ⟨_, { Store.empty with memory := ⟨#[⟨0, cells⟩], 0⟩ }, _, _, rfl, rfl, rfl, rfl, rfl, rfl⟩

end Components

end IndexNotation
