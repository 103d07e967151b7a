import IndexNotation.Proofs.Expression.Composition
import IndexNotation.Proofs.Expression.Leaf

namespace IndexNotation

variable {α : Type}

def Scalar.times [Scalar α] (x y : Except Fault α) : Except Fault α := do Scalar.mul (← x) (← y)

/-- The running sum of the products of `f j` and `g j`, in ascending order of `j < n`. -/
def Scalar.dot [Scalar α] (n : Nat) (f g : Nat → Except Fault α) : Except Fault α :=
  (List.range n).foldlM (fun acc j => do Scalar.add acc (← times (f j) (g j))) Scalar.zero

section Dot

variable [Scalar α] {n : Nat} {f g : Nat → Except Fault α}

theorem Scalar.dot_congr {f' g' : Nat → Except Fault α} (left : ∀ j < n, f j = f' j)
    (right : ∀ j < n, g j = g' j) : dot n f g = dot n f' g' := by
  apply foldlM_congr
  intro acc j inside
  rw [left j (List.mem_range.mp inside), right j (List.mem_range.mp inside)]

theorem Scalar.exists_of_dot_eq_error {fault : Fault} (failed : dot n f g = .error fault) :
    (∃ j < n, f j = .error fault ∨ g j = .error fault) ∨ ArithmeticFails α fault := by
  rcases foldlM_add_eq_error failed with ⟨j, inside, fails⟩ | adding
  · cases first : f j with
    | error here =>
        rw [first] at fails
        cases fails
        exact Or.inl ⟨j, List.mem_range.mp inside, Or.inl first⟩
    | ok x =>
        cases second : g j with
        | error here =>
            rw [first, second] at fails
            cases fails
            exact Or.inl ⟨j, List.mem_range.mp inside, Or.inr second⟩
        | ok y =>
            rw [first, second] at fails
            exact Or.inr ⟨x, y, Or.inr fails⟩
  · exact Or.inr adding

theorem Scalar.dot_eq_error {fault : Fault} (left : ∀ j < n, ∃ x, f j = .ok x)
    (right : ∀ j < n, ∃ y, g j = .ok y) (failed : dot n f g = .error fault) :
    ArithmeticFails α fault := by
  rcases exists_of_dot_eq_error failed with ⟨j, inside, missing | missing⟩ | arithmetic
  · obtain ⟨x, present⟩ := left j inside
    cases present.symm.trans missing
  · obtain ⟨y, present⟩ := right j inside
    cases present.symm.trans missing
  · exact arithmetic

variable {R : Type} [CommRing R]

theorem Reading.val_dot (reading : Reading α R) {x : α} (computed : Scalar.dot n f g = .ok x) :
    (∀ j < n, (∃ y, f j = .ok y) ∧ ∃ z, g j = .ok z) ∧
      reading.val x = ∑ j ∈ Finset.range n, reading.of (f j) * reading.of (g j) := by
  obtain ⟨present, total⟩ := reading.val_foldlM_add computed
  have entries : ∀ j < n, (∃ y, f j = .ok y) ∧ (∃ z, g j = .ok z) ∧
      reading.of (Scalar.times (f j) (g j)) = reading.of (f j) * reading.of (g j) := by
    intro j inside
    obtain ⟨y, multiplied⟩ := present j (List.mem_range.mpr inside)
    obtain ⟨left, right, product⟩ := reading.of_mul multiplied
    refine ⟨left, right, ?_⟩
    rw [multiplied, ← product]
    rfl
  refine ⟨fun j inside => ⟨(entries j inside).1, (entries j inside).2.1⟩, ?_⟩
  rw [total, reading.val_zero, zero_add]
  exact Finset.sum_congr rfl fun j inside => (entries j (Finset.mem_range.mp inside)).2.2

end Dot

theorem RowMajor.tuples_singleton (n : Nat) : tuples [n] = (List.range n).map fun j => [j] := by
  simp only [tuples, List.map_cons, List.map_nil]
  exact List.map_eq_flatMap.symm

theorem Expression.valueAt_mul_single [Scalar α] {left right : Expression α} {q : Symbol} {n : Nat}
    (distinct : left.freeSymbols.Nodup) (single : contracted left right = [q]) (memory : Memory α)
    (caches : Caches α) (base : Symbol → Nat) :
    (product left right (contraction left right [n])).valueAt memory caches base =
      Scalar.dot n (fun j => left.valueAt memory caches (Function.update base q j))
        (fun j => right.valueAt memory caches (Function.update base q j)) := by
  rw [valueAt_mul distinct (by rw [single]; rfl) base, RowMajor.tuples_singleton, List.foldlM_map, single]
  rfl

structure Tensor.Slots (t : Tensor α) (symbols : IndexList) (factors : List Space) (dims : List Nat) :
    Prop where
  distinct : symbols.Nodup
  named : t.space.indexedFactors symbols = .ok factors
  computed : Space.dimensions factors = .ok dims
  small : dims.prod ≤ Size.bound

namespace Tensor.Slots

variable {t : Tensor α} {symbols : IndexList} {factors : List Space} {dims : List Nat}

theorem index (slots : t.Slots symbols factors dims) :
    Expression.index t symbols = .ok (t.indexed symbols factors dims) :=
  Expression.index_of_nodup slots.distinct slots.named slots.computed

theorem freeSymbols (slots : t.Slots symbols factors dims) :
    (t.indexed symbols factors dims).freeSymbols = symbols := Space.symbols_indexedFactors slots.named

theorem valueAt [Scalar α] (slots : t.Slots symbols factors dims) (memory : Memory α)
    (caches : Caches α) {values : Symbol → Nat} (below : RowMajor.Below (symbols.map values) dims) :
    (t.indexed symbols factors dims).valueAt memory caches values =
      t.components.value memory (RowMajor.number (symbols.map values) dims) :=
  Expression.valueAt_indexed slots.named below slots.small

end Tensor.Slots

section Product

variable {left right : Tensor α} {p q : Symbol} {rest : IndexList} {row column : Space}
  {factors : List Space} {m n : Nat} {dims : List Nat}

def Tensor.product (left right : Tensor α) (p q : Symbol) (rest : IndexList) (row column : Space)
    (factors : List Space) (m n : Nat) (dims : List Nat) : Expression α :=
  .product (left.indexed [p, q] [row, column] [m, n])
    (right.indexed (q :: rest) (column.dual :: factors) (n :: dims))
    (Expression.contraction (left.indexed [p, q] [row, column] [m, n])
      (right.indexed (q :: rest) (column.dual :: factors) (n :: dims)) [n])

variable (first : left.Slots [p, q] [row, column] [m, n])
  (second : right.Slots (q :: rest) (column.dual :: factors) (n :: dims)) (apart : p ∉ rest)

include first

theorem row_ne_column : p ≠ q := by
  intro same
  have distinct := first.distinct
  simp [same] at distinct

theorem dimension_column : column.dimension = .ok n :=
  (List.forall₂_cons.mp (List.forall₂_cons.mp (Space.dimensions_eq_ok_iff.mp first.computed)).2).1

include second apart

theorem shared_indexed :
    Expression.shared (left.indexed [p, q] [row, column] [m, n])
      (right.indexed (q :: rest) (column.dual :: factors) (n :: dims)) = [⟨q, column⟩] := by
  have free : (left.indexed [p, q] [row, column] [m, n]).free = [⟨p, row⟩, ⟨q, column⟩] := rfl
  rw [Expression.shared, free, second.freeSymbols]
  simp [row_ne_column first, apart]

theorem mul_indexed :
    (left.indexed [p, q] [row, column] [m, n]).mul
        (right.indexed (q :: rest) (column.dual :: factors) (n :: dims)) =
      .ok (left.product right p q rest row column factors m n dims) := by
  have sized := dimension_column first
  refine Expression.mul_eq_ok_iff.mpr ⟨?_, ?_, [n], ?_, rfl⟩
  · rw [Expression.checkDisjoint_eq_ok_iff]
    simp [Tensor.indexed, Expression.used]
  · have none : ∀ index ∈ (right.indexed (q :: rest) (column.dual :: factors) (n :: dims)).free,
        index.symbol ≠ p := by
      intro index present same
      have named := Expression.mem_freeSymbols present
      rw [second.freeSymbols, same] at named
      rcases List.mem_cons.mp named with equal | later
      · exact row_ne_column first equal
      · exact apart later
    have paired : checkPairing q column column.dual = .ok () := by
      rcases checkPairing_cases (s := q) sized ((Space.dimension_dual column).trans sized) with
        ⟨_, accepted⟩ | ⟨different, _⟩
      · exact accepted
      · exact absurd (Space.pairsWith_iff.mpr rfl) different
    intro index present
    rcases List.mem_pair.mp present with rfl | rfl
    · rw [Expression.checkContraction, List.find?_eq_none.mpr (by simpa using none)]
    · have found : (right.indexed (q :: rest) (column.dual :: factors) (n :: dims)).free.find?
          (·.symbol = q) = some ⟨q, column.dual⟩ := by
        simp [Tensor.indexed, Expression.free]
      rw [Expression.checkContraction, found]
      exact paired
  · rw [shared_indexed first second apart]
    exact Space.dimensions_eq_ok_iff.mpr (.cons sized .nil)

theorem free_product :
    (left.product right p q rest row column factors m n dims).free =
      ⟨p, row⟩ :: rest.zipWith FreeIndex.mk factors := by
  have others : ∀ index ∈ rest.zipWith FreeIndex.mk factors, index.symbol ≠ q := by
    intro index present same
    have symbols := second.freeSymbols
    rw [Expression.freeSymbols, Tensor.indexed, Expression.free, List.zipWith_cons_cons,
      FreeIndex.symbols, List.map_cons, List.cons.injEq] at symbols
    have inRest : q ∈ rest := by
      rw [← symbols.2, ← same]
      exact List.mem_map_of_mem present
    exact (List.nodup_cons.mp second.distinct).1 inRest
  have kept : (rest.zipWith FreeIndex.mk factors).filter (fun index => !([q].contains index.symbol)) =
      rest.zipWith FreeIndex.mk factors := by
    apply List.filter_eq_self.mpr
    intro index present
    simpa using others index present
  have free : (left.product right p q rest row column factors m n dims).free =
      ((⟨p, row⟩ :: ⟨q, column⟩ :: ⟨q, column.dual⟩ :: rest.zipWith FreeIndex.mk factors).filter
        fun index => !(FreeIndex.symbols (Expression.shared (left.indexed [p, q] [row, column] [m, n])
          (right.indexed (q :: rest) (column.dual :: factors) (n :: dims)))).contains index.symbol) := rfl
  rw [free, shared_indexed first second apart]
  change List.filter (fun index : FreeIndex => !([q].contains index.symbol)) _ = _
  rw [List.filter_cons_of_pos (by simpa using row_ne_column first), List.filter_cons_of_neg (by simp),
    List.filter_cons_of_neg (by simp), kept]

theorem valueAt_product [Scalar α] (memory : Memory α) (caches : Caches α) {values : Symbol → Nat}
    (inRow : values p < m) (below : RowMajor.Below (rest.map values) dims) :
    (left.product right p q rest row column factors m n dims).valueAt memory caches values =
      Scalar.dot n (fun j => left.components.value memory (values p * n + j))
        (fun j => right.components.value memory (j * dims.prod + RowMajor.number (rest.map values) dims)) := by
  have contracted : Expression.contracted (left.indexed [p, q] [row, column] [m, n])
      (right.indexed (q :: rest) (column.dual :: factors) (n :: dims)) = [q] := by
    have shared := Expression.symbols_shared (left.indexed [p, q] [row, column] [m, n])
      (right.indexed (q :: rest) (column.dual :: factors) (n :: dims))
    rw [shared_indexed first second apart] at shared
    exact shared.symm
  have distinct : (left.indexed [p, q] [row, column] [m, n]).freeSymbols.Nodup :=
    first.freeSymbols ▸ first.distinct
  rw [Tensor.product, Expression.valueAt_mul_single distinct contracted]
  have atRow (j : Nat) : Function.update values q j p = values p :=
    Function.update_of_ne (row_ne_column first) j values
  have atRest (j : Nat) : rest.map (Function.update values q j) = rest.map values := by
    apply List.map_congr_left
    intro s present
    have other : s ≠ q := fun same => (List.nodup_cons.mp second.distinct).1 (same ▸ present)
    exact Function.update_of_ne other j values
  apply Scalar.dot_congr
  · intro j inside
    rw [first.valueAt _ _ (by simpa [RowMajor.Below, atRow] using ⟨inRow, inside⟩)]
    simp [RowMajor.number, atRow]
  · intro j inside
    rw [second.valueAt _ _ (by simpa [RowMajor.Below, atRest] using ⟨inside, below⟩)]
    simp [RowMajor.number, atRest]

end Product

end IndexNotation
