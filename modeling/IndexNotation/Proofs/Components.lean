import IndexNotation.DirectSum
import IndexNotation.Proofs.Evaluation
import IndexNotation.Proofs.Store
/-!
Stored components as cells of memory: each component of a writable tensor has one cell of its own, which
reading and writing agree on, and writing to some components leaves every other cell alone.
-/
namespace IndexNotation

variable {α : Type}

namespace Components

def Fits (memory : Memory α) : Components α → Prop
  | stored _ block offset length =>
    ∀ index < length, ∃ x, memory.read? ⟨block, offset + index⟩ = some x
  | generated _ => True
  | window base offset length => offset + length ≤ base.length ∧ base.Fits memory

theorem Fits.mono {memory later : Memory α} {c : Components α} (fits : c.Fits memory)
    (kept : ∀ location x, memory.read? location = some x → ∃ y, later.read? location = some y) :
    c.Fits later := by
  induction c with
  | stored storage block offset length =>
      intro index inside
      obtain ⟨x, found⟩ := fits index inside
      exact kept _ x found
  | generated generator => trivial
  | window base offset length ih => exact ⟨fits.1, ih fits.2⟩

theorem fits_stored {memory : Memory α} {block : Nat} {b : Block α}
    (found : memory.blocks[block]? = some b) (storage : Storage) {offset length : Nat}
    (inside : offset + length ≤ b.cells.size) :
    (stored storage block offset length).Fits memory := by
  intro index small
  have bound : offset + index < b.cells.size := by omega
  refine ⟨b.cells[offset + index], ?_⟩
  rw [Memory.read?, found, Option.bind_some]
  exact Array.getElem?_eq_getElem bound

theorem exists_locate {memory : Memory α} {c : Components α} (fits : c.Fits memory)
    (writable : c.isWritable) {index : Nat} (inside : index < c.length) :
    ∃ location, c.locate index = .ok location ∧ ∃ x, memory.read? location = some x := by
  induction c generalizing index with
  | stored storage block offset length =>
      have small : index < length := inside
      rw [locate, if_pos small]
      exact ⟨_, rfl, fits index small⟩
  | generated generator => cases writable
  | window base offset length ih =>
      have small : index < length := inside
      have within : offset + length ≤ base.length := fits.1
      rw [locate, if_pos small]
      exact ih fits.2 writable (by omega)

theorem locate_injective {c : Components α} {first second : Nat} {location : Location}
    (here : c.locate first = .ok location) (there : c.locate second = .ok location) :
    first = second := by
  induction c generalizing first second with
  | stored storage block offset length =>
      rw [locate] at here there
      split at here
      · split at there
        · cases here
          have same := congrArg Location.cell (Except.ok.inj there)
          exact (Nat.add_left_cancel same).symm
        · cases there
      · cases here
  | generated generator => cases here
  | window base offset length ih =>
      rw [locate] at here there
      split at here
      · split at there
        · exact Nat.add_left_cancel (ih here there)
        · cases there
      · cases here

theorem value_eq_read {memory : Memory α} {c : Components α} {index : Nat} {location : Location}
    (located : c.locate index = .ok location) : c.value memory index = memory.read location := by
  induction c generalizing index with
  | stored storage block offset length =>
      rw [locate] at located
      rw [value]
      split at located
      · cases located
        rw [if_pos ‹_›]
      · cases located
  | generated generator => cases located
  | window base offset length ih =>
      rw [locate] at located
      rw [value]
      split at located
      · rw [if_pos ‹_›]
        exact ih located
      · cases located

def Owns (c : Components α) (location : Location) : Prop :=
  ∃ index < c.length, c.locate index = .ok location

theorem window?_eq_ok {base c : Components α} {offset length : Nat}
    (accepted : base.window? offset length = .ok c) :
    offset + length ≤ base.length ∧ c = .window base offset length := by
  rw [window?] at accepted
  obtain ⟨stop, added, rest⟩ := bind_eq_ok_iff.mp accepted
  obtain ⟨rfl, _⟩ := Size.add_eq_ok_iff.mp added
  split at rest
  · cases rest
    exact ⟨‹_›, rfl⟩
  · cases rest

end Components

theorem Memory.exists_read?_write {memory : Memory α} {location other : Location} {y : α}
    (present : memory.read? other = some y) (x : α) :
    ∃ z, (memory.write location x).read? other = some z := by
  by_cases same : location = other
  · subst same
    exact ⟨x, Memory.read?_write_self present x⟩
  · rw [Memory.read?_write_of_ne memory same]
    exact ⟨y, present⟩

theorem Memory.read?_allocate {memory : Memory α} {location : Location} {x : α}
    (present : memory.read? location = some x) (cells : Array α) (width : Nat) :
    (memory.allocate cells width).2.read? location = some x := by
  rw [Memory.read?, Option.bind_eq_some_iff] at present
  obtain ⟨block, found, cell⟩ := present
  obtain ⟨inside, same⟩ := Array.getElem?_eq_some_iff.mp found
  have kept : (memory.allocate cells width).2.blocks[location.block]? = some block := by
    rw [Memory.allocate, Array.getElem?_push_lt inside, same]
  rw [Memory.read?, kept]
  exact cell

theorem Memory.read_eq {memory : Memory α} {location : Location} {x : α}
    (present : memory.read? location = some x) : memory.read location = .ok x := by
  rw [Memory.read, present]

namespace Components

theorem set_run {c : Components α} {store : Store α} {index : Nat} {location : Location}
    (located : c.locate index = .ok location) (x : α) :
    c.set index x store =
      (.ok (), { store with memory := store.memory.write location x }) := by
  rw [set, located, StoreM.bind_run]
  rfl

theorem forM_set_run {c : Components α} (writable : c.isWritable) {writes : List (Nat × α)}
    {store : Store α} (fits : c.Fits store.memory) (inside : ∀ w ∈ writes, w.1 < c.length)
    (distinct : (writes.map Prod.fst).Nodup) :
    ∃ memory, (writes.forM fun w => c.set w.1 w.2) store = (.ok (), { store with memory }) ∧
      (∀ w ∈ writes, c.value memory w.1 = .ok w.2) ∧
      ∀ location, (∀ w ∈ writes, c.locate w.1 ≠ .ok location) →
        memory.read? location = store.memory.read? location := by
  induction writes generalizing store with
  | nil =>
      refine ⟨store.memory, rfl, ?_, fun _ _ => rfl⟩
      intro w absent
      cases absent
  | cons w writes ih =>
      obtain ⟨absent, distinct⟩ := List.nodup_cons.mp distinct
      obtain ⟨first, inside⟩ := List.forall_mem_cons.mp inside
      obtain ⟨location, located, x, present⟩ := exists_locate fits writable first
      have fits' : c.Fits (store.memory.write location w.2) :=
        fits.mono fun _ _ found => Memory.exists_read?_write found w.2
      obtain ⟨memory, ran, written, others⟩ :=
        @ih { store with memory := store.memory.write location w.2 } fits' inside distinct
      -- the later writes go elsewhere, so the first one stays
      have apart : ∀ later ∈ writes, c.locate later.1 ≠ .ok location := by
        intro later member same
        have equal := locate_injective located same
        exact absent (List.mem_map.mpr ⟨later, member, equal.symm⟩)
      have stays : memory.read? location = some w.2 := by
        rw [others location apart]
        exact Memory.read?_write_self present w.2
      refine ⟨memory, ?_, ?_, ?_⟩
      · have step : (w :: writes).forM (fun w => c.set w.1 w.2) =
            (c.set w.1 w.2 >>= fun _ => writes.forM fun w => c.set w.1 w.2) := rfl
        rw [step, StoreM.bind_run, set_run located]
        exact ran
      · rw [List.forall_mem_cons]
        constructor
        · rw [value_eq_read located, Memory.read_eq stays]
        · exact written
      · intro other away
        obtain ⟨here, rest⟩ := List.forall_mem_cons.mp away
        have differs : location ≠ other := by
          intro same
          exact here (same ▸ located)
        rw [others other rest]
        exact Memory.read?_write_of_ne store.memory differs w.2

end Components

namespace Tensor

/-- The tensor has one component for each that its space counts, and they are all there. -/
structure Checked (t : Tensor α) (memory : Memory α) : Prop where
  length : t.space.dimension = .ok t.components.length
  fits : t.components.Fits memory

theorem ofComponents_eq_ok {space : Space} {c : Components α} {t : Tensor α}
    (accepted : ofComponents space c true = .ok t) :
    space.dimension = .ok c.length ∧ t = ⟨space, c⟩ := by
  rw [ofComponents] at accepted
  obtain ⟨dimension, sized, rest⟩ := bind_eq_ok_iff.mp accepted
  by_cases same : c.length = dimension
  · simp only [same, ne_eq, not_true, if_false] at rest
    cases rest
    exact ⟨same ▸ sized, rfl⟩
  · simp [same] at rest

theorem checked_of_ofComponents {space : Space} {c : Components α} {t : Tensor α}
    {memory : Memory α} (fits : c.Fits memory) (accepted : ofComponents space c true = .ok t) :
    t.Checked memory := by
  obtain ⟨sized, rfl⟩ := ofComponents_eq_ok accepted
  exact ⟨sized, fits⟩

theorem Checked.write {t : Tensor α} {memory : Memory α} (checked : t.Checked memory)
    (location : Location) (x : α) : t.Checked (memory.write location x) := by
  refine ⟨checked.length, checked.fits.mono ?_⟩
  intro other y present
  exact Memory.exists_read?_write present x

theorem Checked.allocate {t : Tensor α} {memory : Memory α} (checked : t.Checked memory)
    (cells : Array α) (width : Nat) : t.Checked (memory.allocate cells width).2 := by
  refine ⟨checked.length, checked.fits.mono ?_⟩
  intro location x present
  exact ⟨x, Memory.read?_allocate present cells width⟩

theorem checked_of_member [Scalar α] {space : Space} {values : Array α} {store later : Store α}
    {t : Tensor α} (made : member space values store = (.ok t, later)) :
    t.Checked later.memory ∧ t.isWritable := by
  obtain ⟨c, middle, stored, rest⟩ := StoreM.bind_run_eq_ok_iff.mp made
  obtain ⟨accepted, same⟩ := Prod.mk.inj rest
  cases stored
  subst same
  obtain ⟨_, rfl⟩ := ofComponents_eq_ok accepted
  constructor
  · apply checked_of_ofComponents (Components.fits_stored _ .member _) accepted
    · exact ⟨store.memory.nextAddress, values⟩
    · exact Array.getElem?_push_size
    · exact Nat.le_of_eq (Nat.zero_add _)
  · rfl

theorem space_of_member [Scalar α] {space : Space} {values : Array α} {store later : Store α}
    {t : Tensor α} (made : member space values store = (.ok t, later)) : t.space = space := by
  obtain ⟨c, middle, stored, rest⟩ := StoreM.bind_run_eq_ok_iff.mp made
  obtain ⟨_, rfl⟩ := ofComponents_eq_ok (Prod.mk.inj rest).1
  rfl

theorem Checked.summand {t u : Tensor α} {memory : Memory α} {n : Nat} (checked : t.Checked memory)
    (accepted : t.summand n = .ok u) : u.Checked memory := by
  rw [Tensor.summand] at accepted
  split at accepted
  · cases accepted
  · obtain ⟨offset, _, rest⟩ := bind_eq_ok_iff.mp accepted
    split at rest
    · cases rest
    · obtain ⟨dimension, _, later⟩ := bind_eq_ok_iff.mp rest
      obtain ⟨c, windowed, made⟩ := bind_eq_ok_iff.mp later
      obtain ⟨inside, rfl⟩ := Components.window?_eq_ok windowed
      have fits : (Components.window t.components offset dimension).Fits memory :=
        ⟨inside, checked.fits⟩
      exact checked_of_ofComponents fits made

end Tensor

end IndexNotation
