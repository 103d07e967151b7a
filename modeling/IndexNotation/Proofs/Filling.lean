import IndexNotation.Proofs.Assignment
import IndexNotation.Proofs.Expression.MatrixProduct
/-!
Filling a tensor. Where an expression has the target's indices in the target's order, its components at the
flat offsets are one table, and the assignment writes that table or fails where the table does. Cells of
other tensors, and those that were there before a new tensor was made, keep what they hold.
-/
namespace IndexNotation

variable {α : Type}

def Memory.Extends (memory later : Memory α) : Prop :=
  ∀ location x, memory.read? location = some x → later.read? location = some x

theorem Memory.Extends.refl (memory : Memory α) : memory.Extends memory := fun _ _ found => found

theorem Memory.Extends.trans {memory middle later : Memory α} (first : memory.Extends middle)
    (second : middle.Extends later) : memory.Extends later :=
  fun location x found => second location x (first location x found)

theorem Memory.extends_allocate (memory : Memory α) (cells : Array α) (width : Nat) :
    memory.Extends (memory.allocate cells width).2 :=
  fun _ _ found => Memory.read?_allocate found cells width

namespace Components

theorem lt_of_locate {c : Components α} {index : Nat} {location : Location}
    (located : c.locate index = .ok location) : index < c.length := by
  cases c with
  | generated generator => cases located
  | stored storage block offset length | window base offset length =>
      rw [locate] at located
      split at located
      · assumption
      · cases located

theorem block_of_owns {storage : Storage} {block offset length : Nat} {location : Location}
    (owned : (stored (α := α) storage block offset length).Owns location) : location.block = block := by
  obtain ⟨index, inside, located⟩ := owned
  have small : index < length := inside
  rw [locate, if_pos small] at located
  cases located
  rfl

theorem value_congr {memory later : Memory α} {c : Components α} {index : Nat}
    (same : ∀ location, c.locate index = .ok location → later.read? location = memory.read? location) :
    c.value later index = c.value memory index := by
  induction c generalizing index with
  | stored storage block offset length =>
      rw [value, value]
      split
      · rename_i inside
        rw [Memory.read, Memory.read, same _ (by rw [locate, if_pos inside])]
      · rfl
  | generated generator => rfl
  | window base offset length ih =>
      rw [value, value]
      split
      · rename_i inside
        exact ih fun location located => same location (by rw [locate, if_pos inside, located])
      · rfl

theorem Fits.exists_read? {memory : Memory α} {c : Components α} {index : Nat} {location : Location}
    (fits : c.Fits memory) (located : c.locate index = .ok location) :
    ∃ x, memory.read? location = some x := by
  induction c generalizing index with
  | stored storage block offset length =>
      rw [locate] at located
      split at located
      · cases located
        exact fits index ‹_›
      · cases located
  | generated generator => cases located
  | window base offset length ih =>
      rw [locate] at located
      split at located
      · exact ih fits.2 located
      · cases located

theorem Fits.value_extends {memory later : Memory α} {c : Components α} (fits : c.Fits memory)
    (kept : memory.Extends later) (index : Nat) : c.value later index = c.value memory index := by
  apply value_congr
  intro location located
  obtain ⟨x, found⟩ := fits.exists_read? located
  rw [found, kept location x found]

theorem Fits.exists_value {memory : Memory α} {c : Components α} (fits : c.Fits memory)
    (writable : c.isWritable) {index : Nat} (inside : index < c.length) :
    ∃ x, c.value memory index = .ok x := by
  obtain ⟨location, located, x, found⟩ := exists_locate fits writable inside
  exact ⟨x, by rw [value_eq_read located, Memory.read_eq found]⟩

def overwrite (c : Components α) (memory : Memory α) (writes : List (Nat × α)) : Memory α :=
  writes.foldl (fun memory w =>
    match c.locate w.1 with
    | .ok location => memory.write location w.2
    | .error _ => memory) memory

theorem exists_read?_overwrite {c : Components α} {memory : Memory α} (writes : List (Nat × α))
    {location : Location} (present : ∃ x, memory.read? location = some x) :
    ∃ x, (c.overwrite memory writes).read? location = some x := by
  induction writes generalizing memory with
  | nil => exact present
  | cons w writes ih =>
      apply ih
      obtain ⟨x, found⟩ := present
      dsimp only
      split
      · exact Memory.exists_read?_write found w.2
      · exact ⟨x, found⟩

theorem forM_set_eq {c : Components α} {writes : List (Nat × α)}
    (located : ∀ w ∈ writes, ∃ location, c.locate w.1 = .ok location) (store : Store α) :
    (writes.forM fun w => c.set w.1 w.2) store =
      (.ok (), { store with memory := c.overwrite store.memory writes }) := by
  induction writes generalizing store with
  | nil => rfl
  | cons w writes ih =>
      obtain ⟨⟨location, here⟩, rest⟩ := List.forall_mem_cons.mp located
      change (c.set w.1 w.2 >>= fun _ => writes.forM fun w => c.set w.1 w.2) store = _
      rw [StoreM.bind_run, set_run here]
      dsimp only
      rw [ih rest, overwrite, overwrite, List.foldl_cons, here]

end Components

theorem Tensor.Checked.mono {t : Tensor α} {memory later : Memory α} (checked : t.Checked memory)
    (present : ∀ location x, memory.read? location = some x → ∃ y, later.read? location = some y) :
    t.Checked later :=
  ⟨checked.length, checked.fits.mono present⟩

theorem Tensor.Checked.extends {t : Tensor α} {memory later : Memory α} (checked : t.Checked memory)
    (kept : memory.Extends later) : t.Checked later :=
  checked.mono fun location x found => ⟨x, kept location x found⟩

theorem mapM_congr {β : Type} {f g : β → Except Fault α} {xs : List β} (same : ∀ x ∈ xs, f x = g x) :
    xs.mapM f = xs.mapM g := by
  induction xs with
  | nil => rfl
  | cons x xs ih =>
      rw [List.mapM_cons, List.mapM_cons, same x List.mem_cons_self,
        ih fun y present => same y (List.mem_cons_of_mem x present)]

theorem mapM_pair (f : Nat → Except Fault α) (ks : List Nat) :
    (ks.mapM fun k => do return (k, ← f k)) = (do return ks.zip (← ks.mapM f)) := by
  induction ks with
  | nil => rfl
  | cons k ks ih =>
      rw [List.mapM_cons, List.mapM_cons, ih]
      cases f k with
      | error fault => rfl
      | ok x =>
          cases ks.mapM f with
          | error fault => rfl
          | ok xs => rfl

variable [Scalar α]

/-- The components at the offsets below `count`, computed in order into a temporary. -/
def tabulate (count : Nat) (f : Nat → Except Fault α) : Except Fault (List α) := do
  Size.reserve count (8 + (Scalar.width α + 7) / 8 * 8)
  (List.range count).mapM f

theorem tabulate_eq_ok {count : Nat} {f : Nat → Except Fault α} {xs : List α}
    (computed : tabulate count f = .ok xs) : xs.length = count ∧ ∀ k < count, ∃ x, xs[k]? = some x ∧ f k = .ok x := by
  obtain ⟨_, _, collected⟩ := bind_eq_ok_iff.mp computed
  obtain ⟨length, each⟩ := List.forall₂_iff_get.mp (mapM_eq_ok_iff.mp collected)
  rw [List.length_range] at length
  refine ⟨length.symm, ?_⟩
  intro k inside
  have inTable : k < xs.length := length ▸ inside
  have entry := each k (by rwa [List.length_range]) inTable
  exact ⟨xs[k], List.getElem?_eq_getElem inTable, by simpa using entry⟩

theorem tabulate_eq_error {count : Nat} {f : Nat → Except Fault α} {fault : Fault}
    (failed : tabulate count f = .error fault) :
    fault = .capacity ∧ Nat.pow 2 63 ≤ count * (8 + (Scalar.width α + 7) / 8 * 8) ∨
      ∃ k < count, f k = .error fault := by
  rcases bind_eq_error_iff.mp failed with full | ⟨_, _, missing⟩
  · exact Or.inl (Size.reserve_eq_error full)
  · obtain ⟨k, inside, fails⟩ := mapM_eq_error missing
    exact Or.inr ⟨k, List.mem_range.mp inside, fails⟩

theorem tabulate_eq_error_of_reserve {count : Nat} (f : Nat → Except Fault α) {fault : Fault}
    (full : Size.reserve count (Scalar.width α) = .error fault) : tabulate count f = .error fault := by
  obtain ⟨rfl, large⟩ := Size.reserve_eq_error full
  have wider : Scalar.width α ≤ 8 + (Scalar.width α + 7) / 8 * 8 := by omega
  have larger := Nat.le_trans large (Nat.mul_le_mul_left count wider)
  rw [tabulate, Size.reserve, if_neg (Nat.not_lt.mpr larger), error_bind]

theorem tabulate_congr {count : Nat} {f g : Nat → Except Fault α} (same : ∀ k < count, f k = g k) :
    tabulate count f = tabulate count g := by
  have entries : (List.range count).mapM f = (List.range count).mapM g :=
    mapM_congr fun k inside => same k (List.mem_range.mp inside)
  rw [tabulate, tabulate, entries]

/-- There is no room for the table, or one of its entries is a sum that cannot be formed. -/
def TableFails (count : Nat) (f : Nat → Except Fault α) (fault : Fault) : Prop :=
  fault = .capacity ∧ Nat.pow 2 63 ≤ count * (8 + (Scalar.width α + 7) / 8 * 8) ∨
    ArithmeticFails α fault ∧ ∃ k < count, f k = .error fault

theorem tableFails_of_tabulate {count : Nat} {f : Nat → Except Fault α} {fault : Fault}
    (sums : ∀ k < count, f k = .error fault → ArithmeticFails α fault)
    (failed : tabulate count f = .error fault) : TableFails count f fault := by
  rcases tabulate_eq_error failed with full | ⟨k, inside, fails⟩
  · exact Or.inl full
  · exact Or.inr ⟨sums k inside fails, k, inside, fails⟩

/-- The tensor's components are the table's entries, and all other cells hold what they held. -/
structure Tensor.Filled (t : Tensor α) (f : Nat → Except Fault α) (memory later : Memory α) : Prop where
  components : ∀ k < t.components.length, ∃ x, f k = .ok x ∧ t.components.value later k = .ok x
  others : ∀ location, ¬ t.components.Owns location → later.read? location = memory.read? location
  present : ∀ location x, memory.read? location = some x → ∃ y, later.read? location = some y

namespace Tensor

variable {t : Tensor α} {symbols : IndexList} {factors : List Space} {dims : List Nat}
  {e : Expression α}

theorem filled_of_tabulate (store : Store α) (fits : t.components.Fits store.memory) (writable : t.isWritable)
    {f : Nat → Except Fault α} {xs : List α} (tabled : tabulate t.components.length f = .ok xs) :
    let writes := (List.range t.components.length).zip xs
    (writes.forM fun w => t.components.set w.1 w.2) store =
        (.ok (), { store with memory := t.components.overwrite store.memory writes }) ∧
      t.Filled f store.memory (t.components.overwrite store.memory writes) := by
  intro writes
  obtain ⟨length, entries⟩ := tabulate_eq_ok tabled
  have offsets : writes.map Prod.fst = List.range t.components.length :=
    List.map_fst_zip (by rw [List.length_range, length])
  have inside : ∀ w ∈ writes, w.1 < t.components.length := by
    intro w present
    rw [← List.mem_range, ← offsets]
    exact List.mem_map_of_mem present
  have run := Components.forM_set_eq (c := t.components) (fun w present => by
    obtain ⟨location, located, _⟩ := Components.exists_locate fits writable (inside w present)
    exact ⟨location, located⟩) store
  obtain ⟨memory, ran, written, others⟩ := @Components.forM_set_run _ t.components writable writes store
    fits inside (offsets ▸ List.nodup_range)
  obtain rfl : t.components.overwrite store.memory writes = memory :=
    congrArg (fun outcome => outcome.2.memory) (run.symm.trans ran)
  refine ⟨run, ?_, ?_, ?_⟩
  · intro k small
    obtain ⟨x, there, computed⟩ := entries k small
    have paired : (k, x) ∈ writes := by
      rw [List.mem_iff_getElem?]
      exact ⟨k, by rw [List.getElem?_zip_eq_some]; exact ⟨by simp [small], there⟩⟩
    exact ⟨x, computed, written _ paired⟩
  · intro location foreign
    apply others
    intro w present located
    exact foreign ⟨w.1, inside w present, located⟩
  · intro location x found
    exact Components.exists_read?_overwrite writes ⟨x, found⟩

omit [Scalar α] in
theorem Slots.target (slots : t.Slots symbols factors dims) :
    t.target symbols = .ok ⟨t, symbols.zipWith FreeIndex.mk factors, dims⟩ := by
  rw [Tensor.target, IndexList.firstRepeat_eq_none_iff.mpr slots.distinct, slots.named, ok_bind,
    slots.computed]
  rfl

theorem Slots.temporary (slots : t.Slots symbols factors dims) {positions : List Nat}
    (aligned : FreeIndex.align (symbols.zipWith FreeIndex.mk factors) e.free = .ok positions)
    {memory : Memory α} {caches : Caches α}
    {f : Nat → Except Fault α}
    (entries : ∀ values, RowMajor.Below (symbols.map values) dims →
      e.valueAt memory caches values = f (RowMajor.number (symbols.map values) dims)) :
    (RowMajor.tuples dims).mapM
        (Target.entry memory caches ⟨t, symbols.zipWith FreeIndex.mk factors, dims⟩ e positions) =
      (do return (List.range dims.prod).zip (← (List.range dims.prod).mapM f)) := by
  rw [← mapM_pair, ← RowMajor.map_number_tuples, List.mapM_map]
  apply mapM_congr
  intro tuple present
  have below := RowMajor.mem_tuples.mp present
  have length : tuple.length = symbols.length := by
    rw [below.length_eq, ← Space.indexedFactors_length slots.named,
      (Space.dimensions_eq_ok_iff.mp slots.computed).length_eq]
  have values := IndexList.map_assign (fun _ => 0) slots.distinct length
  generalize IndexList.assign symbols tuple (fun _ => 0) = assigned at values
  subst values
  have entry := @Target.entry_map _ _ ⟨t, symbols.zipWith FreeIndex.mk factors, dims⟩ e positions aligned
    memory caches assigned
  rw [Space.symbols_indexedFactors slots.named] at entry
  rw [entry, RowMajor.offset_eq below slots.small, entries assigned below]
  rfl

/-- The outcome of the assignment is that of the table, and so is the memory it leaves behind. -/
theorem assign_of_table (store : Store α) (slots : t.Slots symbols factors dims) (writable : t.isWritable)
    (checked : t.Checked store.memory) (whole : dims.prod = t.components.length)
    (free : e.free = symbols.zipWith FreeIndex.mk factors) (apart : CachesApart [e])
    {f : Nat → Except Fault α}
    (entries : ∀ values, RowMajor.Below (symbols.map values) dims →
      e.valueAt store.memory store.scratch.caches values = f (RowMajor.number (symbols.map values) dims)) :
    ∃ later, t.assign symbols e store =
        ((do let _ ← tabulate t.components.length f; return ()), later) ∧
      match tabulate t.components.length f with
      | .error _ => later.memory = store.memory
      | .ok xs => later.memory = t.components.overwrite store.memory ((List.range dims.prod).zip xs) ∧
          t.Filled f store.memory later.memory := by
  have distinct : (FreeIndex.symbols e.free).Nodup := by
    rw [free, Space.symbols_indexedFactors slots.named]
    exact slots.distinct
  obtain ⟨positions, aligned⟩ := FreeIndex.exists_align_of_perm
    distinct (free ▸ List.Perm.refl _ : e.free.Perm (symbols.zipWith FreeIndex.mk factors))
  let target : Target α := ⟨t, symbols.zipWith FreeIndex.mk factors, dims⟩
  have started : t.assign symbols e store = target.assign e store := by
    rw [assign, StoreM.bind_run, StoreM.ofExcept_run, slots.target]
  have temporary := slots.temporary aligned entries
  rw [started]
  cases room : Size.reserve t.components.length (8 + (Scalar.width α + 7) / 8 * 8) with
  | error fault =>
      have ran := @Target.assign_run_of_capacity _ _ target e positions store _ fault aligned checked.length
        room
      rw [ran, tabulate, room]
      exact ⟨store, rfl, rfl⟩
  | ok done =>
      obtain ⟨scratch, ran⟩ := @Target.assign_run _ _ target e positions apart store _ aligned
        checked.length room
      rw [ran, temporary, tabulate, room, whole]
      cases collected : (List.range t.components.length).mapM f with
      | error fault => exact ⟨_, rfl, rfl⟩
      | ok xs =>
          have tabled : tabulate t.components.length f = .ok xs := by
            rw [tabulate, room, ok_bind, collected]
          obtain ⟨written, filled⟩ := filled_of_tabulate { store with scratch } checked.fits writable tabled
          exact ⟨_, written, rfl, filled⟩

end Tensor

end IndexNotation
