import IndexNotation.Proofs.Expression.Renaming
import IndexNotation.Proofs.LinearMap.Apply
/-!
Composing linear maps. The product of two maps, summed over the index between them, is assigned to a third,
which then takes every vector to what the two make of it one after the other. The symbols that name the three
indices leave no trace.
-/
namespace IndexNotation

variable {α : Type} [Scalar α]

theorem Expression.valueAt_rename {e r : Expression α} {source target : IndexList} {serial next : Nat}
    (accepted : e.rename source target serial = .ok (r, next)) (memory : Memory α) (caches : Caches α)
    (values : Symbol → Nat) :
    r.valueAt memory caches values =
      e.valueAt memory caches (values ∘ IndexList.substitute source target) := by
  obtain ⟨_, _, _, _, used, _, rfl⟩ := rename_eq_ok_iff.mp accepted
  have symbols : (renamed e (FreeIndex.rename (IndexList.substitute source target) e.free) used).freeSymbols =
      e.freeSymbols.map (IndexList.substitute source target) := FreeIndex.symbols_rename _ _
  rw [valueAt, valueAt, symbols, List.map_map]
  rfl

omit [Scalar α] in
theorem Expression.cacheNodes_rename {e r : Expression α} {source target : IndexList} {serial next : Nat}
    (accepted : e.rename source target serial = .ok (r, next)) : r.cacheNodes = e.cacheNodes := by
  obtain ⟨_, _, _, _, used, _, rfl⟩ := rename_eq_ok_iff.mp accepted
  rfl

namespace LinearMap

section Assign

variable {map : LinearMap α} {store : Store α} {rows columns : Nat} {e : Expression α} {p q : Symbol}

theorem assign_run_eq (formed : map.WellFormed store.memory)
    (free : e.free = [⟨p, map.codomain⟩, ⟨q, map.domain.dual⟩]) (different : p ≠ q) :
    let row : Symbol := .fresh store.nextSymbol
    let column : Symbol := .fresh (store.nextSymbol + 1)
    ∃ renamed next, ∃ substitute : Symbol → Symbol,
      map.assign e store = map.tensor.assign [row, column] renamed { store with nextSymbol := next } ∧
      renamed.free = [⟨row, map.codomain⟩, ⟨column, map.domain.dual⟩] ∧
      renamed.cacheNodes = e.cacheNodes ∧ substitute p = row ∧ substitute q = column ∧
      ∀ memory caches values,
        renamed.valueAt memory caches values = e.valueAt memory caches (values ∘ substitute) := by
  intro row column
  have symbols : e.freeSymbols = [p, q] := by
    rw [Expression.freeSymbols, free]
    rfl
  have first : IndexList.substitute [p, q] [row, column] p = row := by
    simp [IndexList.substitute]
  have second : IndexList.substitute [p, q] [row, column] q = column := by
    simp [IndexList.substitute, List.lookup_cons, beq_false_of_ne different.symm]
  have made : ∃ renamed next,
      e.rename [p, q] [row, column] (store.nextSymbol + 2) = .ok (renamed, next) := by
    refine Expression.exists_rename_iff.mpr ⟨rfl, by simpa using different, by simp [row, column], ?_⟩
    simp [symbols, first, second, row, column]
  obtain ⟨renamed, next, accepted⟩ := made
  obtain ⟨m, n, rowsSized, columnsSized, _⟩ := formed.exists_sizes
  have slots : map.tensor.Slots [row, column] _ _ :=
    formed.slots rowsSized columnsSized (by simp [row, column])
  refine ⟨renamed, next, IndexList.substitute [p, q] [row, column], ?_, ?_,
    Expression.cacheNodes_rename accepted, first, second, Expression.valueAt_rename accepted⟩
  · have drawn : map.assign e store = (do
        let renamed ← e.reindex e.freeSymbols [row, column]
        let target ← StoreM.ofExcept (insist (map.tensor.target [row, column]))
        target.assign renamed) { store with nextSymbol := store.nextSymbol + 2 } := by
      rw [assign, symbols]
      rfl
    rw [drawn, StoreM.bind_run, Expression.reindex_run, symbols, accepted]
    dsimp only
    rw [Tensor.assign, slots.target, insist_ok]
  · rw [Expression.free_rename accepted, free]
    simp [FreeIndex.rename, first, second]

def table (rows columns : Nat) (f : Nat → Nat → Except Fault α) : Except Fault (List α) :=
  tabulate (rows * columns) fun n => f (n / columns) (n % columns)

omit [Scalar α] in
theorem flat_div_mod {r c : Nat} (inColumn : c < columns) :
    (r * columns + c) / columns = r ∧ (r * columns + c) % columns = c := by
  refine (Nat.div_mod_unique (Nat.zero_lt_of_lt inColumn)).mpr ⟨?_, inColumn⟩
  rw [Nat.add_comm, Nat.mul_comm]

theorem assign_table (formed : map.WellFormed store.memory) (rowsSized : map.codomain.dimension = .ok rows)
    (columnsSized : map.domain.dimension = .ok columns)
    (free : e.free = [⟨p, map.codomain⟩, ⟨q, map.domain.dual⟩]) (different : p ≠ q)
    (noCaches : e.cacheNodes = []) {f : Nat → Nat → Except Fault α}
    (entries : ∀ caches values, values p < rows → values q < columns →
      e.valueAt store.memory caches values = f (values p) (values q)) :
    ∃ later, map.assign e store = ((do let _ ← table rows columns f; return ()), later) ∧
      match table rows columns f with
      | .error _ => later.memory = store.memory
      | .ok xs =>
          later.memory =
            map.tensor.components.overwrite store.memory ((List.range (rows * columns)).zip xs) ∧
          map.tensor.Filled (fun n => f (n / columns) (n % columns)) store.memory later.memory := by
  obtain ⟨renamed, next, substitute, ran, free', caches, first, second, values⟩ :=
    assign_run_eq formed free different
  have slots : map.tensor.Slots [.fresh store.nextSymbol, .fresh (store.nextSymbol + 1)] _ _ :=
    formed.slots rowsSized columnsSized (by simp)
  obtain ⟨m, n, sized, sized', whole⟩ := formed.exists_sizes
  cases rowsSized.symm.trans sized
  cases columnsSized.symm.trans sized'
  obtain ⟨later, assigned, outcome⟩ := Tensor.assign_of_table { store with nextSymbol := next } slots
    formed.writable formed.checked (by simpa using whole) free'
    (cachesApart_of_nil (by simp [caches, noCaches])) (f := fun n => f (n / columns) (n % columns)) (by
      intro chosen below
      obtain ⟨inRow, inColumn, _⟩ := below
      obtain ⟨quotient, remainder⟩ := flat_div_mod (r := chosen (.fresh store.nextSymbol)) inColumn
      rw [values, entries _ _ (by simpa [first] using inRow) (by simpa [second] using inColumn)]
      simp [RowMajor.number, first, second, quotient, remainder])
  have number : [rows, columns].prod = rows * columns := by simp
  rw [← whole, number] at outcome
  rw [← whole] at assigned
  exact ⟨later, ran.trans assigned, outcome⟩

end Assign

section Compose

variable {ba b a : LinearMap α} {vector : Tensor α} {memory : Memory α} {store : Store α}
  {rows middle columns : Nat} {i j k : Symbol}

omit [Scalar α] in
def composition (b a : LinearMap α) (i j k : Symbol) : Except Fault (Expression α) := do
  (← b.index i j).mul (← a.index j k)

def composed (b a : LinearMap α) (memory : Memory α) (row column : Nat) : Except Fault α := do
  let middle ← a.codomain.dimension
  Scalar.dot middle (b.entry memory row) fun q => a.entry memory q column

theorem exists_composition (second : b.WellFormed memory) (first : a.WellFormed memory)
    (meets : b.domain = a.codomain) (rowsSized : b.codomain.dimension = .ok rows)
    (columnsSized : a.domain.dimension = .ok columns) (distinct : [i, j, k].Nodup) :
    ∃ product, composition b a i j k = .ok product ∧
      product.free = [⟨i, b.codomain⟩, ⟨k, a.domain.dual⟩] ∧ product.cacheNodes = [] ∧
      ∀ memory caches values, values i < rows → values k < columns →
        product.valueAt memory caches values = b.composed a memory (values i) (values k) := by
  obtain ⟨m, n, middleSized, sized, _⟩ := first.exists_sizes
  cases columnsSized.symm.trans sized
  obtain ⟨⟨different, apart⟩, different'⟩ : (i ≠ j ∧ i ≠ k) ∧ j ≠ k := by
    simpa using distinct
  have middleSized' : b.domain.dimension = .ok m := meets ▸ middleSized
  have left := second.slots rowsSized middleSized' different
  have right := first.slots middleSized columnsSized different'
  have paired : a.codomain = b.domain.dual.dual := meets.symm.trans (Space.dual_dual b.domain).symm
  rw [paired] at right
  have notRest : i ∉ ([k] : IndexList) := by simpa using apart
  refine ⟨_, ?_, free_product left right notRest, rfl, ?_⟩
  · rw [composition, second.index_eq rowsSized middleSized' different,
      first.index_eq middleSized columnsSized different', paired]
    exact mul_indexed left right notRest
  · intro memory caches values inRow inColumn
    rw [valueAt_product left right notRest memory caches inRow (by simpa [RowMajor.Below] using inColumn),
      composed, middleSized, ok_bind]
    apply Scalar.dot_congr
    · intro q _
      rw [entry_eq middleSized']
    · intro q _
      rw [entry_eq columnsSized]
      simp [RowMajor.number]

/-- Maps `a` and then `b`, with `ba` over the domain of the first and the codomain of the second and in cells
of its own. One symbol names each of the spaces as a whole. -/
structure Composable (ba b a : LinearMap α) (vector : Tensor α) (memory : Memory α) : Prop where
  whole : ba.WellFormed memory
  second : b.WellFormed memory
  first : a.WellFormed memory
  checked : vector.Checked memory
  writable : vector.isWritable
  same : vector.space = a.domain
  meets : b.domain = a.codomain
  domain : ba.domain = a.domain
  codomain : ba.codomain = b.codomain
  severalColumns : ¬ a.domain.IsSingle
  severalMiddle : ¬ a.codomain.IsSingle
  severalRows : ¬ b.codomain.IsSingle
  apart : ∀ location, ba.tensor.components.Owns location → ¬ b.tensor.components.Owns location ∧
    ¬ a.tensor.components.Owns location ∧ ¬ vector.components.Owns location

namespace Composable

section Frame

variable (setting : Composable ba b a vector memory) {later : Memory α} {f : Nat → Except Fault α}
  (filled : ba.tensor.Filled f memory later)

include setting filled

end Frame

variable (setting : Composable ba b a vector store.memory) (rowsSized : b.codomain.dimension = .ok rows)
  (middleSized : a.codomain.dimension = .ok middle) (columnsSized : a.domain.dimension = .ok columns)

include setting rowsSized middleSized columnsSized

omit middleSized in
theorem exists_assigned (distinct : [i, j, k].Nodup) :
    ∃ product, composition b a i j k = .ok product ∧ ∃ later,
      ba.assign product store =
        ((do let _ ← table rows columns (b.composed a store.memory); return ()), later) ∧
      match table rows columns (b.composed a store.memory) with
      | .error _ => later.memory = store.memory
      | .ok xs =>
          later.memory =
            ba.tensor.components.overwrite store.memory ((List.range (rows * columns)).zip xs) ∧
          ba.tensor.Filled (fun n => b.composed a store.memory (n / columns) (n % columns)) store.memory
            later.memory := by
  obtain ⟨product, accepted, free, noCaches, values⟩ :=
    exists_composition setting.second setting.first setting.meets rowsSized columnsSized distinct
  have different : i ≠ k := by
    intro same
    simp [same] at distinct
  rw [← setting.codomain, ← setting.domain] at free
  exact ⟨product, accepted, assign_table setting.whole (setting.codomain ▸ rowsSized)
    (setting.domain ▸ columnsSized) free different noCaches (values store.memory)⟩

end Composable

end Compose

end LinearMap

end IndexNotation
