import IndexNotation.LinearMap
import IndexNotation.Proofs.Filling

namespace IndexNotation

variable {α : Type}

namespace Space

/-- A tensor product or power of exactly one factor. -/
def IsSingle (s : Space) : Prop := ∃ factor, s.tensorFactors = some [factor]

theorem ne_of_tensorFactors {s factor : Space} (single : s.tensorFactors = some [factor]) :
    factor ≠ s := by
  intro same
  cases s with
  | tensorProduct factors =>
      obtain rfl : factors = [factor] := Option.some.inj single
      have size := congrArg sizeOf same
      simp only [tensorProduct.sizeOf_spec, List.cons.sizeOf_spec, List.nil.sizeOf_spec] at size
      omega
  | tensorPower order base =>
      have replicated : List.replicate order base = [factor] := Option.some.inj single
      obtain rfl : factor = base := List.eq_of_mem_replicate (replicated ▸ List.mem_singleton_self factor)
      have size := congrArg sizeOf same
      simp only [tensorPower.sizeOf_spec] at size
      omega
  | based _ | symmetricPower _ _ | exteriorPower _ _ | directSum _ | diagonal _ _ => cases single

theorem exists_indexedFactors_one {s : Space} (listed : s.reserveTensorFactors = .ok ()) (symbol : Symbol) :
    ∃ factor, s.indexedFactors [symbol] = .ok [factor] ∧ (factor = s ↔ ¬ s.IsSingle) := by
  by_cases single : s.IsSingle
  · obtain ⟨factor, split⟩ := single
    refine ⟨factor, by simp [indexedFactors_eq listed, split], ?_⟩
    exact iff_of_false (ne_of_tensorFactors split) (not_not.mpr ⟨factor, split⟩)
  · refine ⟨s, ?_, iff_of_true rfl single⟩
    rw [indexedFactors_eq listed]
    cases split : s.tensorFactors with
    | none => rfl
    | some factors =>
        have other : ¬ factors.length = [symbol].length := by
          intro one
          obtain ⟨factor, rfl⟩ := List.length_eq_one_iff.mp one
          exact single ⟨factor, split⟩
        dsimp only
        rw [if_neg other]
        rfl

end Space

theorem Expression.index_of_isOverlong {t : Tensor α} (overlong : t.space.IsOverlong) (symbols : IndexList) :
    index t symbols = .error .capacity := by
  rw [index, Leaf.make, Space.indexedFactors, Space.reserveTensorFactors_of_isOverlong overlong]
  rfl

theorem Tensor.target_of_isOverlong {t : Tensor α} (overlong : t.space.IsOverlong) {symbols : IndexList}
    (distinct : symbols.Nodup) : t.target symbols = .error .capacity := by
  rw [target, IndexList.firstRepeat_eq_none_iff.mpr distinct, Space.indexedFactors,
    Space.reserveTensorFactors_of_isOverlong overlong]
  rfl

theorem Tensor.exists_slots_one {t : Tensor α} {d : Nat} (sized : t.space.dimension = .ok d)
    (listed : t.space.reserveTensorFactors = .ok ()) (symbol : Symbol) :
    ∃ factor n, t.Slots [symbol] [factor] [n] ∧ (factor = t.space ↔ ¬ t.space.IsSingle) := by
  obtain ⟨factor, named, whole⟩ := Space.exists_indexedFactors_one listed symbol
  obtain ⟨dims, computed⟩ := Space.exists_dimensions_indexed sized named
  obtain ⟨n, rest, first, none, rfl⟩ := List.forall₂_cons_left_iff.mp (Space.dimensions_eq_ok_iff.mp computed)
  cases none
  refine ⟨factor, n, ⟨by simp, named, computed, ?_⟩, whole⟩
  simpa using Nat.le_of_lt (Space.dimension_lt first)

namespace LinearMap

/-- The domain or the codomain has more factors than a list can hold. -/
def IsOverlong (map : LinearMap α) : Prop := map.domain.IsOverlong ∨ map.codomain.IsOverlong

/-- What every linear map keeps: a tensor of its own over the codomain and the dual of the domain. -/
structure WellFormed (map : LinearMap α) (memory : Memory α) : Prop where
  space : map.tensor.space = space map.domain map.codomain
  checked : map.tensor.Checked memory
  writable : map.tensor.isWritable

theorem WellFormed.mono {map : LinearMap α} {memory later : Memory α} (formed : map.WellFormed memory)
    (present : ∀ location x, memory.read? location = some x → ∃ y, later.read? location = some y) :
    map.WellFormed later :=
  ⟨formed.space, formed.checked.mono present, formed.writable⟩

theorem WellFormed.extends {map : LinearMap α} {memory later : Memory α} (formed : map.WellFormed memory)
    (kept : memory.Extends later) : map.WellFormed later :=
  formed.mono fun location x found => ⟨x, kept location x found⟩

def entry (map : LinearMap α) (memory : Memory α) (row column : Nat) : Except Fault α := do
  let columns ← map.domain.dimension
  map.tensor.components.value memory (row * columns + column)

theorem WellFormed.exists_sizes {map : LinearMap α} {memory : Memory α} (formed : map.WellFormed memory) :
    ∃ rows columns, map.codomain.dimension = .ok rows ∧ map.domain.dimension = .ok columns ∧
      rows * columns = map.tensor.components.length := by
  have sized := formed.checked.length
  rw [formed.space, LinearMap.space, Space.dimension] at sized
  obtain ⟨dims, computed, product⟩ := bind_eq_ok_iff.mp sized
  have each := Space.dimensions_eq_ok_iff.mp computed
  cases each with
  | cons first rest =>
      cases rest with
      | cons second rest =>
          cases rest
          rw [Space.dimension_dual] at second
          refine ⟨_, _, first, second, ?_⟩
          rw [← (RowMajor.product_eq_ok product).1]
          simp

section Sized

variable {map : LinearMap α} {memory : Memory α} {rows columns : Nat}

theorem WellFormed.slots (formed : map.WellFormed memory) (rowsSized : map.codomain.dimension = .ok rows)
    (columnsSized : map.domain.dimension = .ok columns) {row column : Symbol} (different : row ≠ column) :
    map.tensor.Slots [row, column] [map.codomain, map.domain.dual] [rows, columns] := by
  obtain ⟨m, n, sized, sized', product⟩ := formed.exists_sizes
  cases rowsSized.symm.trans sized
  cases columnsSized.symm.trans sized'
  refine ⟨by simpa using different, ?_, ?_, ?_⟩
  · rw [formed.space]
    rfl
  · exact Space.dimensions_eq_ok_iff.mpr
      (.cons rowsSized (.cons ((Space.dimension_dual _).trans columnsSized) .nil))
  · have small := Space.dimension_lt formed.checked.length
    simp only [List.prod_cons, List.prod_nil, mul_one, product]
    exact Nat.le_of_lt small

theorem WellFormed.index_eq (formed : map.WellFormed memory)
    (rowsSized : map.codomain.dimension = .ok rows) (columnsSized : map.domain.dimension = .ok columns)
    {row column : Symbol} (different : row ≠ column) :
    map.index row column =
      .ok (map.tensor.indexed [row, column] [map.codomain, map.domain.dual] [rows, columns]) := by
  rw [index, (formed.slots rowsSized columnsSized different).index]
  rfl

theorem entry_eq (columnsSized : map.domain.dimension = .ok columns) (row column : Nat) :
    map.entry memory row column = map.tensor.components.value memory (row * columns + column) := by
  rw [entry, columnsSized, ok_bind]

theorem WellFormed.exists_entry (formed : map.WellFormed memory)
    (rowsSized : map.codomain.dimension = .ok rows) (columnsSized : map.domain.dimension = .ok columns)
    {row column : Nat} (inRow : row < rows) (inColumn : column < columns) :
    ∃ x, map.entry memory row column = .ok x := by
  obtain ⟨m, n, sized, sized', product⟩ := formed.exists_sizes
  cases rowsSized.symm.trans sized
  cases columnsSized.symm.trans sized'
  rw [entry_eq columnsSized]
  apply formed.checked.fits.exists_value formed.writable
  rw [← product, Nat.mul_comm row]
  exact Nat.mul_add_lt_mul_of_lt_of_lt inRow inColumn

end Sized

def image [Scalar α] (map : LinearMap α) (memory : Memory α) (vector : Tensor α) (row : Nat) :
    Except Fault α := do
  let columns ← map.domain.dimension
  Scalar.dot columns (map.entry memory row) (vector.components.value memory)

end LinearMap

variable [Scalar α]

theorem Tensor.zeros_run {space : Space} {d : Nat} (sized : space.dimension = .ok d) (store : Store α) :
    zeros space store =
      match Size.reserve d (Scalar.width α) with
      | .error fault => (.error fault, store)
      | .ok _ =>
        (.ok ⟨space, .stored .member store.memory.blocks.size 0 d⟩,
          { store with memory := (store.memory.allocate (Array.replicate d Scalar.zero) (Scalar.width α)).2 }) := by
  simp only [zeros, Components.zeros, Components.store, StoreM.bind_run, StoreM.ofExcept_run, sized]
  cases Size.reserve d (Scalar.width α) with
  | error fault => rfl
  | ok done =>
      simp only [Array.size_replicate]
      rfl

theorem Tensor.checked_zeros {space : Space} {d : Nat} (sized : space.dimension = .ok d) (memory : Memory α) :
    let result : Tensor α := ⟨space, .stored .member memory.blocks.size 0 d⟩
    result.Checked (memory.allocate (Array.replicate d Scalar.zero) (Scalar.width α)).2 ∧
      ∀ location, result.components.Owns location → memory.read? location = none := by
  constructor
  · refine ⟨sized, Components.fits_stored (b := ⟨memory.nextAddress, Array.replicate d Scalar.zero⟩)
      Array.getElem?_push_size .member ?_⟩
    simp
  · intro location owned
    obtain ⟨index, inside, located⟩ := owned
    have small : index < d := inside
    rw [Components.locate, if_pos small] at located
    cases located
    simp [Memory.read?]

namespace LinearMap

variable {map : LinearMap α} {vector : Tensor α} {store : Store α} {rows columns : Nat}

theorem image_eq (columnsSized : map.domain.dimension = .ok columns) (memory : Memory α) (row : Nat) :
    map.image memory vector row =
      Scalar.dot columns (map.entry memory row) (vector.components.value memory) := by
  rw [image, columnsSized, ok_bind]

theorem image_eq_error {memory : Memory α} (formed : map.WellFormed memory) (checked : vector.Checked memory)
    (writable : vector.isWritable) (same : vector.space = map.domain)
    (rowsSized : map.codomain.dimension = .ok rows) {row : Nat} (inRow : row < rows) {fault : Fault}
    (fails : map.image memory vector row = .error fault) : ArithmeticFails α fault := by
  obtain ⟨_, columns, _, columnsSized, _⟩ := formed.exists_sizes
  have length : vector.components.length = columns := by
    have sized := checked.length
    rw [same, columnsSized] at sized
    exact (Except.ok.inj sized).symm
  rw [image_eq columnsSized] at fails
  exact Scalar.dot_eq_error (fun c inside => formed.exists_entry rowsSized columnsSized inRow inside)
    (fun c inside => checked.fits.exists_value writable (length ▸ inside)) fails

theorem insist_ok {β : Type} (b : β) : insist (.ok b) = .ok b := rfl

def blank (map : LinearMap α) (store : Store α) (rows : Nat) : Tensor α :=
  ⟨map.codomain, .stored .member store.memory.blocks.size 0 rows⟩

/-- The store in which the image is computed: two symbols are drawn, and there is a block of zeros. -/
def prepared (store : Store α) (rows : Nat) : Store α :=
  { store with
    memory := (store.memory.allocate (Array.replicate rows Scalar.zero) (Scalar.width α)).2
    nextSymbol := store.nextSymbol + 2 }

theorem apply_run {matrix : Expression α} (rowsSized : map.codomain.dimension = .ok rows)
    (named : map.index (.fresh store.nextSymbol) (.fresh (store.nextSymbol + 1)) = .ok matrix) :
    map.apply vector store =
      match Size.reserve rows (Scalar.width α) with
      | .error fault => (.error fault, { store with nextSymbol := store.nextSymbol + 2 })
      | .ok _ =>
        (do
          let operand ← StoreM.ofExcept (insist (Expression.index vector [.fresh (store.nextSymbol + 1)]))
          let image ← StoreM.ofExcept (matrix.mul operand)
          let target ← StoreM.ofExcept (insist ((map.blank store rows).target [.fresh store.nextSymbol]))
          target.assign image
          return map.blank store rows) (prepared store rows) := by
  have drawn : map.apply vector store = (do
      let result ← Tensor.zeros map.codomain
      let matrix ← StoreM.ofExcept (map.index (.fresh store.nextSymbol) (.fresh (store.nextSymbol + 1)))
      let operand ← StoreM.ofExcept
        (insist (Expression.index vector [.fresh (store.nextSymbol + 1)]))
      let image ← StoreM.ofExcept (matrix.mul operand)
      let target ← StoreM.ofExcept (insist (result.target [.fresh store.nextSymbol]))
      target.assign image
      return result) { store with nextSymbol := store.nextSymbol + 2 } := rfl
  rw [drawn, StoreM.bind_run, Tensor.zeros_run rowsSized]
  cases Size.reserve rows (Scalar.width α) with
  | error fault => rfl
  | ok done =>
      dsimp only
      rw [named, StoreM.bind_run, StoreM.ofExcept_run]
      rfl

theorem apply_run_eq {matrix operand : Expression α} {outer : Space} {m : Nat}
    (rowsSized : map.codomain.dimension = .ok rows)
    (named : map.index (.fresh store.nextSymbol) (.fresh (store.nextSymbol + 1)) = .ok matrix)
    (named' : Expression.index vector [.fresh (store.nextSymbol + 1)] = .ok operand)
    (slots : (map.blank store rows).Slots [.fresh store.nextSymbol] [outer] [m]) :
    map.apply vector store =
      match Size.reserve rows (Scalar.width α) with
      | .error fault => (.error fault, { store with nextSymbol := store.nextSymbol + 2 })
      | .ok _ =>
        match matrix.mul operand with
        | .error fault => (.error fault, prepared store rows)
        | .ok product =>
          (do
            (map.blank store rows).assign [.fresh store.nextSymbol] product
            return map.blank store rows) (prepared store rows) := by
  rw [apply_run rowsSized named]
  cases Size.reserve rows (Scalar.width α) with
  | error fault => rfl
  | ok done =>
      dsimp only
      rw [named', insist_ok, StoreM.bind_run, StoreM.ofExcept_run]
      dsimp only
      rw [StoreM.bind_run, StoreM.ofExcept_run]
      cases matrix.mul operand with
      | error fault => rfl
      | ok product =>
          dsimp only
          rw [Tensor.assign, slots.target]
          rfl

theorem extends_prepared (store : Store α) (rows : Nat) :
    store.memory.Extends (prepared store rows).memory := Memory.extends_allocate _ _ _

theorem extends_of_filled {f : Nat → Except Fault α} {later : Memory α}
    (rowsSized : map.codomain.dimension = .ok rows)
    (filled : (map.blank store rows).Filled f (prepared store rows).memory later) :
    store.memory.Extends later := by
  intro location x found
  have foreign : ¬ (map.blank store rows).components.Owns location := by
    intro owned
    have absent := (Tensor.checked_zeros rowsSized store.memory).2 location owned
    rw [found] at absent
    cases absent
  rw [filled.others location foreign]
  exact extends_prepared store rows location x found

section Whole

variable (formed : map.WellFormed store.memory) (checked : vector.Checked store.memory)
  (same : vector.space = map.domain) (rowsSized : map.codomain.dimension = .ok rows)
  (columnsSized : map.domain.dimension = .ok columns) (several : ¬ map.domain.IsSingle)
  (listed : map.domain.reserveTensorFactors = .ok ())

omit [Scalar α] in
include same columnsSized several listed in
theorem slots_of_whole (symbol : Symbol) :
    vector.Slots [symbol] [map.domain.dual.dual] [columns] := by
  rw [Space.dual_dual]
  refine ⟨by simp, ?_, Space.dimensions_eq_ok_iff.mpr (.cons columnsSized .nil), ?_⟩
  · obtain ⟨factor, named, whole⟩ := Space.exists_indexedFactors_one listed symbol
    rw [same, named, whole.mpr several]
  · simpa using Nat.le_of_lt (Space.dimension_lt columnsSized)

include formed checked same rowsSized columnsSized several listed

/-- With a domain that one symbol names as a whole the product is made, and its components are the image. -/
theorem exists_product {row column : Symbol} (different : row ≠ column) :
    ∃ matrix operand product, map.index row column = .ok matrix ∧
      Expression.index vector [column] = .ok operand ∧ matrix.mul operand = .ok product ∧
      product.free = [⟨row, map.codomain⟩] ∧ product.cacheNodes = [] ∧
      ∀ later, store.memory.Extends later → ∀ caches values, values row < rows →
        product.valueAt later caches values = map.image store.memory vector (values row) := by
  have first := formed.slots rowsSized columnsSized different
  have second := slots_of_whole same columnsSized several listed column
  have apart : row ∉ ([] : IndexList) := List.not_mem_nil
  refine ⟨_, _, _, formed.index_eq rowsSized columnsSized different, second.index,
    mul_indexed first second apart, free_product first second apart, rfl, ?_⟩
  intro later kept caches values inRow
  rw [valueAt_product first second apart later caches inRow trivial, image_eq columnsSized]
  apply Scalar.dot_congr
  · intro j _
    rw [formed.checked.fits.value_extends kept, entry_eq columnsSized]
  · intro j _
    have index : j * ([] : List Nat).prod + RowMajor.number (([] : IndexList).map values) [] = j := by
      simp [RowMajor.number]
    rw [index, checked.fits.value_extends kept]

theorem apply_table (several' : ¬ map.codomain.IsSingle) (listed' : map.codomain.reserveTensorFactors = .ok ()) :
    ∃ later, store.memory.Extends later.memory ∧
      match tabulate rows (map.image store.memory vector) with
      | .error fault => map.apply vector store = (.error fault, later)
      | .ok _ => ∃ result, map.apply vector store = (.ok result, later) ∧ result.space = map.codomain ∧
          result.isWritable ∧ result.Checked later.memory ∧ ∀ k < rows, ∃ x,
            map.image store.memory vector k = .ok x ∧ result.components.value later.memory k = .ok x := by
  have different : Symbol.fresh store.nextSymbol ≠ .fresh (store.nextSymbol + 1) := by simp
  obtain ⟨matrix, operand, product, named, named', accepted, free, noCaches, values⟩ :=
    exists_product formed checked same rowsSized columnsSized several listed different
  have slots : (map.blank store rows).Slots [.fresh store.nextSymbol] [map.codomain] [rows] := by
    obtain ⟨factor, n, slots, whole⟩ :=
      Tensor.exists_slots_one (t := map.blank store rows) rowsSized listed' (.fresh store.nextSymbol)
    obtain rfl : factor = map.codomain := whole.mpr several'
    have sized := (List.forall₂_cons.mp (Space.dimensions_eq_ok_iff.mp slots.computed)).1
    cases rowsSized.symm.trans sized
    exact slots
  have run := apply_run_eq rowsSized named named' slots
  rw [accepted] at run
  cases room : Size.reserve rows (Scalar.width α) with
  | error fault =>
      rw [room] at run
      rw [tabulate_eq_error_of_reserve _ room]
      exact ⟨{ store with nextSymbol := store.nextSymbol + 2 }, Memory.Extends.refl _, run⟩
  | ok done =>
      rw [room] at run
      dsimp only at run
      obtain ⟨checked', _⟩ := Tensor.checked_zeros rowsSized store.memory
      obtain ⟨later, assigned, outcome⟩ := Tensor.assign_of_table (prepared store rows) slots rfl
        checked' (by simp [blank, Components.length]) free (cachesApart_of_nil (by simp [noCaches]))
        (f := map.image store.memory vector) (by
          intro values' below
          simpa [RowMajor.number] using values _ (extends_prepared store rows) _ values' below.1)
      rw [StoreM.bind_run, assigned] at run
      have count : (map.blank store rows).components.length = rows := rfl
      rw [count] at outcome run
      refine ⟨later, ?_⟩
      cases tabled : tabulate rows (map.image store.memory vector) with
      | error fault =>
          rw [tabled] at outcome run
          refine ⟨?_, run⟩
          rw [show later.memory = _ from outcome]
          exact extends_prepared store rows
      | ok xs =>
          rw [tabled] at outcome run
          obtain ⟨_, filled⟩ := outcome
          exact ⟨extends_of_filled rowsSized filled, _, run, rfl, rfl,
            ⟨rowsSized, checked'.fits.mono filled.present⟩, filled.components⟩

end Whole

section Single

variable (formed : map.WellFormed store.memory) (same : vector.space = map.domain)
  (rowsSized : map.codomain.dimension = .ok rows) (columnsSized : map.domain.dimension = .ok columns)

include formed same rowsSized columnsSized

omit [Scalar α] same in
theorem mul_refused {row column : Symbol} (different : row ≠ column) {matrix operand : Expression α}
    (named : map.index row column = .ok matrix) {factor : Space} {n : Nat}
    (slots : vector.Slots [column] [factor] [n]) (inner : factor ≠ map.domain)
    (named' : Expression.index vector [column] = .ok operand) :
    ∃ reason, matrix.mul operand = .error (.refused reason) := by
  have first := formed.slots rowsSized columnsSized different
  cases (formed.index_eq rowsSized columnsSized different).symm.trans named
  cases slots.index.symm.trans named'
  have distinct : (vector.indexed [column] [factor] [n]).freeSymbols.Nodup :=
    slots.freeSymbols ▸ slots.distinct
  have computed := Expression.computed_index first.index
  have computed' := Expression.computed_index slots.index
  cases outcome : (map.tensor.indexed [row, column] [map.codomain, map.domain.dual] [rows, columns]).mul
      (vector.indexed [column] [factor] [n]) with
  | error fault =>
      obtain ⟨reason, rfl⟩ := Expression.mul_eq_error distinct computed computed' outcome
      exact ⟨reason, rfl⟩
  | ok product =>
      obtain ⟨_, pairs⟩ := (Expression.exists_mul_iff distinct computed computed').mp ⟨product, outcome⟩
      have paired := pairs ⟨column, map.domain.dual⟩ (by simp [Tensor.indexed, Expression.free])
        ⟨column, factor⟩ (by simp [Tensor.indexed, Expression.free]) rfl
      rw [Space.pairsWith_iff, Space.dual_dual] at paired
      exact absurd paired.symm inner

omit formed same columnsSized in
theorem assign_image_refused {product : Expression α} {factor : Space} {n : Nat} {row : Symbol}
    (slots : (map.blank store rows).Slots [row] [factor] [n]) (inner : factor ≠ map.codomain)
    (short : ¬ map.codomain.IsOverlong) (free : product.free = [⟨row, map.codomain⟩]) (middle : Store α) :
    ∃ reason, (map.blank store rows).assign [row] product middle = (.error (.refused reason), middle) := by
  have distinct : product.freeSymbols.Nodup := by
    rw [Expression.freeSymbols, free]
    simp [FreeIndex.symbols]
  have different : ¬ (map.blank store rows).Matches [row] product := by
    rintro ⟨factors, named, permuted⟩
    cases slots.named.symm.trans named
    rw [free] at permuted
    have same := List.perm_singleton.mp permuted.symm
    simp only [List.zipWith_cons_cons, List.zipWith_nil_right, List.cons.injEq, FreeIndex.mk.injEq, true_and,
      and_true] at same
    exact inner same
  obtain ⟨fault, ⟨reason, rfl⟩ | ⟨_, overlong⟩, ran⟩ :=
    Tensor.assign_refused (d := rows) rowsSized distinct different middle
  · exact ⟨reason, ran⟩
  · exact absurd overlong short

end Single

section Total

variable (formed : map.WellFormed store.memory) (checked : vector.Checked store.memory)
  (same : vector.space = map.domain) (rowsSized : map.codomain.dimension = .ok rows)
  (columnsSized : map.domain.dimension = .ok columns)

include formed checked same rowsSized columnsSized

theorem apply_overlong (overlong : map.IsOverlong) :
    ∃ fault later, map.apply vector store = (.error fault, later) ∧ store.memory.Extends later.memory ∧
      (map.domain.IsSingle ∧ (∃ reason, fault = .refused reason) ∨ fault = .capacity) := by
  have different : Symbol.fresh store.nextSymbol ≠ .fresh (store.nextSymbol + 1) := by simp
  have named := formed.index_eq rowsSized columnsSized different
  have run : map.apply vector store = _ := apply_run rowsSized named
  cases room : Size.reserve rows (Scalar.width α) with
  | error fault =>
      rw [room] at run
      exact ⟨fault, _, run, Memory.Extends.refl _, Or.inr (Size.reserve_eq_error room).1⟩
  | ok done =>
      rw [room] at run
      dsimp only at run
      by_cases first : vector.space.IsOverlong
      · rw [Expression.index_of_isOverlong first] at run
        exact ⟨_, _, run, extends_prepared store rows, Or.inr rfl⟩
      · have second : (map.blank store rows).space.IsOverlong := overlong.resolve_left (same ▸ first)
        have listed := Space.reserveTensorFactors_of_not_isOverlong first
        obtain ⟨inner, n, slots, whole⟩ := Tensor.exists_slots_one (t := vector)
          (by rw [same]; exact columnsSized) listed (.fresh (store.nextSymbol + 1))
        rw [slots.index, insist_ok, StoreM.bind_run, StoreM.ofExcept_run] at run
        dsimp only at run
        rw [StoreM.bind_run, StoreM.ofExcept_run,
          Tensor.target_of_isOverlong second (List.nodup_singleton _)] at run
        by_cases single : map.domain.IsSingle
        · have replaced : inner ≠ map.domain := by
            intro equal
            exact whole.mp (equal.trans same.symm) (same ▸ single)
          obtain ⟨reason, refused⟩ := mul_refused formed rowsSized columnsSized different named slots replaced
            slots.index
          rw [refused] at run
          exact ⟨_, _, run, extends_prepared store rows, Or.inl ⟨single, reason, rfl⟩⟩
        · obtain ⟨_, _, product, index, index', accepted, _⟩ :=
            exists_product formed checked same rowsSized columnsSized single (same ▸ listed) different
          cases named.symm.trans index
          cases slots.index.symm.trans index'
          rw [accepted] at run
          exact ⟨_, _, run, extends_prepared store rows, Or.inr rfl⟩

/-- A single domain or codomain is named by its one factor, and applying is refused. -/
theorem apply_refused (single : map.domain.IsSingle ∨ map.codomain.IsSingle) :
    ∃ fault later, map.apply vector store = (.error fault, later) ∧ store.memory.Extends later.memory ∧
      ((∃ reason, fault = .refused reason) ∨
        fault = .capacity ∧ (Nat.pow 2 63 ≤ rows * Scalar.width α ∨ map.IsOverlong)) := by
  by_cases overlong : map.IsOverlong
  · obtain ⟨fault, later, ran, kept, ⟨_, refused⟩ | full⟩ :=
      apply_overlong formed checked same rowsSized columnsSized overlong
    · exact ⟨fault, later, ran, kept, Or.inl refused⟩
    · exact ⟨fault, later, ran, kept, Or.inr ⟨full, Or.inr overlong⟩⟩
  obtain ⟨short, short'⟩ := not_or.mp overlong
  have listed := Space.reserveTensorFactors_of_not_isOverlong short
  have listed' := Space.reserveTensorFactors_of_not_isOverlong short'
  have different : Symbol.fresh store.nextSymbol ≠ .fresh (store.nextSymbol + 1) := by simp
  obtain ⟨inner, n, slots, whole⟩ := Tensor.exists_slots_one (t := vector)
    (by rw [same]; exact columnsSized) (same ▸ listed) (.fresh (store.nextSymbol + 1))
  obtain ⟨outer, m, slots', whole'⟩ := Tensor.exists_slots_one (t := map.blank store rows) rowsSized listed'
    (.fresh store.nextSymbol)
  have named := formed.index_eq rowsSized columnsSized different
  have run := apply_run_eq rowsSized named slots.index slots'
  cases room : Size.reserve rows (Scalar.width α) with
  | error fault =>
      rw [room] at run
      obtain ⟨full, large⟩ := Size.reserve_eq_error room
      exact ⟨fault, _, run, Memory.Extends.refl _, Or.inr ⟨full, Or.inl large⟩⟩
  | ok done =>
      rw [room] at run
      by_cases several : map.domain.IsSingle
      · have replaced : inner ≠ map.domain := by
          intro equal
          exact (whole.mp (equal.trans same.symm)) (same ▸ several)
        obtain ⟨reason, refused⟩ := mul_refused formed rowsSized columnsSized different named slots replaced
          slots.index
        rw [refused] at run
        exact ⟨_, _, run, extends_prepared store rows, Or.inl ⟨reason, rfl⟩⟩
      · obtain ⟨matrix, operand, product, index, index', accepted, free, _, _⟩ :=
          exists_product formed checked same rowsSized columnsSized several listed different
        have replaced : outer ≠ map.codomain := fun equal =>
          whole'.mp equal (single.resolve_left several)
        have run := apply_run_eq rowsSized index index' slots'
        rw [room, accepted] at run
        obtain ⟨reason, refused⟩ := assign_image_refused rowsSized slots' replaced short' free
          (prepared store rows)
        dsimp only at run
        rw [StoreM.bind_run, refused] at run
        exact ⟨_, _, run, extends_prepared store rows, Or.inl ⟨reason, rfl⟩⟩

theorem exists_applied (several : ¬ map.domain.IsSingle) (several' : ¬ map.codomain.IsSingle)
    (writable : vector.isWritable) {f : Nat → Except Fault α}
    (image : ∀ r < rows, map.image store.memory vector r = f r) :
    (∃ result later, map.apply vector store = (.ok result, later) ∧
        store.memory.Extends later.memory ∧ result.space = map.codomain ∧ result.isWritable ∧
        result.Checked later.memory ∧
        ∀ r < rows, ∃ x, f r = .ok x ∧ result.components.value later.memory r = .ok x) ∨
      ∃ fault later, map.apply vector store = (.error fault, later) ∧ store.memory.Extends later.memory ∧
        (TableFails rows f fault ∨ fault = .capacity ∧ map.IsOverlong) := by
  by_cases overlong : map.IsOverlong
  · right
    obtain ⟨fault, later, ran, kept, ⟨single, _⟩ | full⟩ :=
      apply_overlong formed checked same rowsSized columnsSized overlong
    · exact absurd single several
    · exact ⟨fault, later, ran, kept, Or.inr ⟨full, overlong⟩⟩
  obtain ⟨short, short'⟩ := not_or.mp overlong
  obtain ⟨later, kept, run⟩ := apply_table formed checked same rowsSized columnsSized several
    (Space.reserveTensorFactors_of_not_isOverlong short) several'
    (Space.reserveTensorFactors_of_not_isOverlong short')
  rw [tabulate_congr image] at run
  cases tabled : tabulate rows f with
  | error fault =>
      rw [tabled] at run
      refine Or.inr ⟨fault, later, run, kept, Or.inl (tableFails_of_tabulate ?_ tabled)⟩
      intro r inRow fails
      exact image_eq_error formed checked writable same rowsSized inRow ((image r inRow).trans fails)
  | ok xs =>
      rw [tabled] at run
      obtain ⟨result, ran, space, writable', checked', components⟩ := run
      refine Or.inl ⟨result, later, ran, kept, space, writable', checked', ?_⟩
      intro r inRow
      obtain ⟨x, computed, stored⟩ := components r inRow
      exact ⟨x, image r inRow ▸ computed, stored⟩

end Total

theorem wellFormed_of_ofComponents {domain codomain : Space} {values : Array α} {later : Store α}
    (made : ofComponents domain codomain values store = (.ok map, later)) :
    map.WellFormed later.memory ∧ map.domain = domain ∧ map.codomain = codomain := by
  obtain ⟨t, middle, stored, done⟩ := StoreM.bind_run_eq_ok_iff.mp made
  cases done
  obtain ⟨checked, writable⟩ := Tensor.checked_of_member stored
  exact ⟨⟨Tensor.space_of_member stored, checked, writable⟩, rfl, rfl⟩

/-- Whatever the domain and the codomain are, as long as neither is single: a linear map is applied to every
vector over its domain. The image lies over the codomain, and its component at each row is the sum over all
columns of the map's component there times the vector's. All that can stand in the way is that memory is too
small, for the components or for the list of a tensor power's factors, or that one of these sums leaves the range
of the scalars. With a single domain or codomain, applying is refused instead. -/
theorem apply_eq_sum (formed : map.WellFormed store.memory) (checked : vector.Checked store.memory)
    (writable : vector.isWritable) (same : vector.space = map.domain) :
    ∃ rows columns, map.codomain.dimension = .ok rows ∧ map.domain.dimension = .ok columns ∧
      (map.domain.IsSingle ∨ map.codomain.IsSingle → ∃ fault later,
        map.apply vector store = (.error fault, later) ∧ store.memory.Extends later.memory ∧
          ((∃ reason, fault = .refused reason) ∨
            fault = .capacity ∧ (Nat.pow 2 63 ≤ rows * Scalar.width α ∨ map.IsOverlong))) ∧
      (¬ (map.domain.IsSingle ∨ map.codomain.IsSingle) →
        (∃ result later, map.apply vector store = (.ok result, later) ∧
          store.memory.Extends later.memory ∧ result.space = map.codomain ∧ result.Checked later.memory ∧
          ∀ r < rows, ∃ x, result.components.value later.memory r = .ok x ∧
            map.image store.memory vector r = .ok x ∧
            ∀ {R : Type} [CommRing R] (reading : Reading α R), reading.val x =
              ∑ c ∈ Finset.range columns, reading.of (map.entry store.memory r c) *
                reading.of (vector.components.value store.memory c)) ∨
        ∃ fault later, map.apply vector store = (.error fault, later) ∧
          store.memory.Extends later.memory ∧
          (TableFails rows (map.image store.memory vector) fault ∨ fault = .capacity ∧ map.IsOverlong)) := by
  obtain ⟨rows, columns, rowsSized, columnsSized, _⟩ := formed.exists_sizes
  refine ⟨rows, columns, rowsSized, columnsSized, ?_, ?_⟩
  · exact apply_refused formed checked same rowsSized columnsSized
  · intro whole
    obtain ⟨several, several'⟩ := not_or.mp whole
    rcases exists_applied formed checked same rowsSized columnsSized several several' writable
        (fun _ _ => rfl) with
      ⟨result, later, ran, kept, space, _, checked', components⟩ | failed
    · refine Or.inl ⟨result, later, ran, kept, space, checked', ?_⟩
      intro r inRow
      obtain ⟨x, computed, stored⟩ := components r inRow
      refine ⟨x, stored, computed, ?_⟩
      intro R _ reading
      rw [image_eq columnsSized] at computed
      exact (reading.val_dot computed).2
    · exact Or.inr failed

theorem apply_eq_sum_plane :
    ∃ (map : LinearMap (Bounded .signed32)) (vector result : Tensor (Bounded .signed32))
      (store later : Store (Bounded .signed32)),
      map.WellFormed store.memory ∧ vector.Checked store.memory ∧ vector.isWritable ∧
      vector.space = map.domain ∧ map.apply vector store = (.ok result, later) ∧
      result.space = map.codomain ∧
      (store.memory.cells 0).map (·.val) = #[1, 2, 3, 4] ∧
      (store.memory.cells 1).map (·.val) = #[5, 6] ∧
      (result.components.value later.memory 0).map (·.val) = .ok 17 ∧
      (result.components.value later.memory 1).map (·.val) = .ok 39 := by
  let plane : Space := .standard 2 "X"
  let map : LinearMap (Bounded .signed32) := ⟨plane, plane, space plane plane, .stored .member 0 0 4⟩
  let vector : Tensor (Bounded .signed32) := ⟨plane, .stored .member 1 0 2⟩
  let matrix : Block (Bounded .signed32) :=
    ⟨0, #[⟨1, by decide⟩, ⟨2, by decide⟩, ⟨3, by decide⟩, ⟨4, by decide⟩]⟩
  let column : Block (Bounded .signed32) := ⟨32, #[⟨5, by decide⟩, ⟨6, by decide⟩]⟩
  let store : Store (Bounded .signed32) := { Store.empty with memory := ⟨#[matrix, column], 56⟩ }
  have formed : map.WellFormed store.memory :=
    ⟨rfl, ⟨rfl, Components.fits_stored (b := matrix) rfl .member (Nat.le_refl 4)⟩, rfl⟩
  have checked : vector.Checked store.memory :=
    ⟨rfl, Components.fits_stored (b := column) rfl .member (Nat.le_refl 2)⟩
  have based : ¬ plane.IsSingle := fun ⟨_, split⟩ => by cases split
  have first : (map.image store.memory vector 0).map (·.val) = .ok 17 := by decide +kernel
  have second : (map.image store.memory vector 1).map (·.val) = .ok 39 := by decide +kernel
  obtain ⟨rows, columns, rowsSized, _, _, several⟩ := apply_eq_sum formed checked rfl rfl
  cases rowsSized
  rcases several (not_or.mpr ⟨based, based⟩) with
    ⟨result, later, ran, _, whole, _, entries⟩ | ⟨fault, _, _, _, fails⟩
  · obtain ⟨x, stored, computed, _⟩ := entries 0 (by decide)
    obtain ⟨y, stored', computed', _⟩ := entries 1 (by decide)
    rw [computed] at first
    rw [computed'] at second
    exact ⟨map, vector, result, store, later, formed, checked, rfl, rfl, ran, whole, by decide +kernel,
      by decide +kernel, stored ▸ first, stored' ▸ second⟩
  · rcases fails with (⟨_, large⟩ | ⟨_, r, inRow, missing⟩) | ⟨_, ⟨_, _, same, _⟩ | ⟨_, _, same, _⟩⟩
    · exact absurd large (by decide)
    · have small : r < 2 := inRow
      obtain rfl | rfl : r = 0 ∨ r = 1 := by omega
      · rw [missing] at first
        cases first
      · rw [missing] at second
        cases second
    · cases same
    · cases same

/-- A plane is mapped to the product of one plane. The image is refused by the tensor that was made for it. -/
theorem apply_refused_single_codomain :
    ∃ (map : LinearMap (Bounded .signed32)) (vector : Tensor (Bounded .signed32))
      (store : Store (Bounded .signed32)),
      map.WellFormed store.memory ∧ vector.Checked store.memory ∧ vector.isWritable ∧
      vector.space = map.domain ∧
      ∃ reason later, map.apply vector store = (.error (.refused reason), later) := by
  let plane : Space := .standard 2 "X"
  let map : LinearMap (Bounded .signed32) :=
    ⟨plane, .tensorProduct [.standard 2 "Y"], space plane (.tensorProduct [.standard 2 "Y"]),
      .stored .member 0 0 4⟩
  let vector : Tensor (Bounded .signed32) := ⟨plane, .stored .member 1 0 2⟩
  let matrix : Block (Bounded .signed32) :=
    ⟨0, #[⟨1, by decide⟩, ⟨2, by decide⟩, ⟨3, by decide⟩, ⟨4, by decide⟩]⟩
  let column : Block (Bounded .signed32) := ⟨32, #[⟨5, by decide⟩, ⟨6, by decide⟩]⟩
  let store : Store (Bounded .signed32) := { Store.empty with memory := ⟨#[matrix, column], 56⟩ }
  have formed : map.WellFormed store.memory :=
    ⟨rfl, ⟨rfl, Components.fits_stored (b := matrix) rfl .member (Nat.le_refl 4)⟩, rfl⟩
  have checked : vector.Checked store.memory :=
    ⟨rfl, Components.fits_stored (b := column) rfl .member (Nat.le_refl 2)⟩
  obtain ⟨fault, later, ran, _, ⟨reason, rfl⟩ | ⟨_, large | ⟨_, _, same, _⟩ | ⟨_, _, same, _⟩⟩⟩ :=
    @apply_refused _ _ map vector store 2 2 formed checked rfl rfl rfl (Or.inr ⟨_, rfl⟩)
  · exact ⟨map, vector, store, formed, checked, rfl, rfl, reason, later, ran⟩
  · exact absurd large (by decide)
  · cases same
  · cases same

end LinearMap

end IndexNotation
