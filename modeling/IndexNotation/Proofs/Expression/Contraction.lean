import IndexNotation.Proofs.Expression.Value
import IndexNotation.Proofs.Expression.WellIndexed
import IndexNotation.Proofs.Scalar.Reading
import IndexNotation.Proofs.Space.Dimension
import IndexNotation.Proofs.Summation

namespace IndexNotation

variable {α : Type}

namespace Source

theorem value_of {free contracted : IndexList} {summed : List Nat} {s : Symbol}
    (base : Symbol → Nat) (distinct : contracted.Nodup)
    (length : summed.length = contracted.length) (inside : s ∈ contracted ∨ s ∈ free) :
    Source.value (free.map base) summed (Source.of free contracted s) =
      .ok (contracted.assign summed base s) := by
  rw [Source.of]
  cases found : contracted.idxOf? s with
  | some position =>
      have stands : contracted[position]? = some s := by
        obtain ⟨bound, same, _⟩ := List.idxOf?_eq_some_iff.mp found
        rw [List.getElem?_eq_getElem bound, same]
      simp only [Source.value, IndexList.assign_getElem? base distinct length stands]
  | none =>
      have absent : s ∉ contracted := List.idxOf?_eq_none_iff.mp found
      have isFree := inside.resolve_left absent
      simp only [Source.value, List.getElem?_map, List.getElem?_idxOf isFree, Option.map_some,
        IndexList.assign_of_notMem absent]

theorem gather_of {free contracted names : IndexList} {summed : List Nat}
    (base : Symbol → Nat) (distinct : contracted.Nodup)
    (length : summed.length = contracted.length)
    (inside : ∀ s ∈ names, s ∈ contracted ∨ s ∈ free) :
    Source.gather (names.map (Source.of free contracted)) (free.map base) summed =
      .ok (names.map (contracted.assign summed base)) := by
  rw [Source.gather, mapM_eq_ok_iff, List.forall₂_map_left_iff, List.forall₂_map_right_iff,
    List.forall₂_same]
  intro s present
  exact value_of base distinct length (inside s present)

end Source

theorem FreeIndex.dimensions_eq_map {free : List FreeIndex} {dims : List Nat}
    {extent : Symbol → Nat} (computed : dimensions free = .ok dims)
    (sized : ∀ index ∈ free, index.factor.dimension = .ok (extent index.symbol)) :
    dims = (symbols free).map extent := by
  induction free generalizing dims with
  | nil =>
      cases computed
      rfl
  | cons index free ih =>
      obtain ⟨first, rest⟩ := List.forall_mem_cons.mp sized
      rw [dimensions, List.map_cons, Space.dimensions, first, ok_bind] at computed
      obtain ⟨tail, later, same⟩ := bind_eq_ok_iff.mp computed
      cases same
      rw [ih later rest]
      rfl

namespace Expression

def contracted (left right : Expression α) : IndexList :=
  left.freeSymbols.filter right.freeSymbols.contains

theorem mem_contracted {left right : Expression α} {s : Symbol} :
    s ∈ contracted left right ↔ s ∈ left.freeSymbols ∧ s ∈ right.freeSymbols := by
  simp [contracted]

theorem summedDims_eq {left right : Expression α} {summedDims : List Nat} {extent : Symbol → Nat}
    (computed : FreeIndex.dimensions (shared left right) = .ok summedDims)
    (sized : ∀ index ∈ shared left right, index.factor.dimension = .ok (extent index.symbol)) :
    summedDims = (contracted left right).map extent := by
  rw [FreeIndex.dimensions_eq_map computed sized, symbols_shared]
  rfl

theorem contracted_or_free {left right : Expression α} {summedDims : List Nat} {s : Symbol}
    (occurs : s ∈ left.freeSymbols ∨ s ∈ right.freeSymbols) :
    s ∈ contracted left right ∨
      s ∈ (product left right (contraction left right summedDims)).freeSymbols := by
  by_cases both : s ∈ left.freeSymbols ∧ s ∈ right.freeSymbols
  · exact Or.inl (mem_contracted.mpr both)
  · exact Or.inr (mem_freeSymbols_mul.mpr ⟨occurs, both⟩)

theorem gather_contraction {left right : Expression α} {summedDims summed : List Nat}
    (distinct : left.freeSymbols.Nodup) (length : summed.length = (contracted left right).length)
    (base : Symbol → Nat) :
    Source.gather (contraction left right summedDims).leftSources
        ((product left right (contraction left right summedDims)).freeSymbols.map base) summed =
        .ok (left.freeSymbols.map ((contracted left right).assign summed base)) ∧
      Source.gather (contraction left right summedDims).rightSources
        ((product left right (contraction left right summedDims)).freeSymbols.map base) summed =
        .ok (right.freeSymbols.map ((contracted left right).assign summed base)) := by
  have symbols : FreeIndex.symbols (shared left right) = contracted left right :=
    symbols_shared left right
  have separate : (contracted left right).Nodup := distinct.filter _
  have gathered : ∀ names : IndexList,
      (∀ s ∈ names, s ∈ left.freeSymbols ∨ s ∈ right.freeSymbols) →
      Source.gather (names.map (Source.of (FreeIndex.symbols
          (product left right (contraction left right summedDims)).free)
        (FreeIndex.symbols (shared left right))))
        ((product left right (contraction left right summedDims)).freeSymbols.map base) summed =
        .ok (names.map ((contracted left right).assign summed base)) := by
    intro names inside
    rw [symbols]
    exact Source.gather_of base separate length fun s present => contracted_or_free (inside s present)
  exact ⟨gathered left.freeSymbols fun s present => Or.inl present,
    gathered right.freeSymbols fun s present => Or.inr present⟩

section Scalar

variable [Scalar α]

/-- The component where each free symbol takes the value assigned to it. -/
def valueAt (memory : Memory α) (caches : Caches α) (e : Expression α) (values : Symbol → Nat) :
    Except Fault α :=
  e.value memory caches (e.freeSymbols.map values)

theorem valueAt_congr {memory : Memory α} {caches : Caches α} {e : Expression α}
    {first second : Symbol → Nat} (same : ∀ s ∈ e.freeSymbols, first s = second s) :
    e.valueAt memory caches first = e.valueAt memory caches second :=
  congrArg (e.value memory caches) (List.map_congr_left same)

def term (memory : Memory α) (caches : Caches α) (left right : Expression α)
    (values : Symbol → Nat) : Except Fault α := do
  Scalar.mul (← left.valueAt memory caches values) (← right.valueAt memory caches values)

theorem valueAt_mul {memory : Memory α} {caches : Caches α} {left right : Expression α}
    {summedDims : List Nat} (distinct : left.freeSymbols.Nodup)
    (length : summedDims.length = (contracted left right).length) (base : Symbol → Nat) :
    (product left right (contraction left right summedDims)).valueAt memory caches base =
      (RowMajor.tuples summedDims).foldlM
        (fun acc summed => do
          Scalar.add acc
            (← term memory caches left right ((contracted left right).assign summed base)))
        Scalar.zero := by
  rw [valueAt, value, RowMajor.foldTuples_eq_foldlM]
  apply foldlM_congr
  intro acc summed present
  have below := RowMajor.mem_tuples.mp present
  obtain ⟨leftValues, rightValues⟩ := @gather_contraction _ left right summedDims summed distinct
    (below.length_eq.trans length) base
  rw [leftValues, rightValues, ok_bind, ok_bind, term, bind_assoc]
  exact congrArg (_ >>= ·) (funext fun x => (bind_assoc _ _ _).symm)

end Scalar

end Expression

end IndexNotation
