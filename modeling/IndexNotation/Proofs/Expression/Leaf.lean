import IndexNotation.Proofs.Expression.Accepted
import IndexNotation.Proofs.Expression.Contraction

namespace IndexNotation

variable {α : Type}

namespace Leaf

theorem length_occurrences (symbols : IndexList) (s : Symbol) :
    (occurrences symbols s).length = symbols.count s := by
  have names : (symbols.zipIdx.map Prod.fst) = symbols := by simp
  calc (occurrences symbols s).length
      = ((symbols.zipIdx.filter fun slot => slot.1 = s).map Prod.fst).length := by
        simp [occurrences]
    _ = ((symbols.zipIdx.map Prod.fst).filter fun t => t = s).length := by
        rw [List.filter_map]
        rfl
    _ = symbols.count s := by
        rw [names, List.count_eq_length_filter]
        rfl

theorem checkSlot_of_nodup {symbols : IndexList} (distinct : symbols.Nodup) (factors : List Space)
    {s : Symbol} (position : Nat) (present : s ∈ symbols) :
    checkSlot symbols factors s position = .ok () := by
  have once : (occurrences symbols s).length = 1 := by
    rw [length_occurrences, List.count_eq_one_of_mem distinct present]
  obtain ⟨place, single⟩ := List.length_eq_one_iff.mp once
  rw [checkSlot, single]

theorem single_of_nodup {symbols : IndexList} (distinct : symbols.Nodup) (factors : List Space) :
    single symbols factors = symbols.zipWith FreeIndex.mk factors := by
  have every : ((symbols.zip factors).filter fun slot => symbols.count slot.1 = 1) =
      symbols.zip factors := by
    apply List.filter_eq_self.mpr
    intro slot present
    have inside := (List.of_mem_zip present).1
    simp [List.count_eq_one_of_mem distinct inside]
  rw [single_eq, every]
  exact List.map_zip_eq_zipWith ..

theorem doubled_of_nodup {symbols : IndexList} (distinct : symbols.Nodup) :
    doubled symbols = [] := by
  have none : (symbols.filter fun s => symbols.count s = 2) = [] := by
    apply List.filter_eq_nil_iff.mpr
    intro s present
    simp [List.count_eq_one_of_mem distinct present]
  rw [doubled, none]
  rfl

end Leaf

def Tensor.indexed (t : Tensor α) (symbols : IndexList) (factors : List Space) (dims : List Nat) :
    Expression α :=
  .indexed
    { tensor := t, free := symbols.zipWith FreeIndex.mk factors, used := []
      slots := symbols.map (Source.of symbols []), slotDims := dims, summedDims := [] }

namespace Expression

theorem cacheNodes_index {t : Tensor α} {symbols : IndexList} {e : Expression α}
    (accepted : index t symbols = .ok e) : e.cacheNodes = [] := by
  obtain ⟨leaf, _, rfl⟩ := index_eq_ok_iff.mp accepted
  rfl

theorem index_of_nodup {t : Tensor α} {symbols : IndexList} (distinct : symbols.Nodup)
    {factors : List Space} (named : t.space.indexedFactors symbols = .ok factors) {dims : List Nat}
    (sized : Space.dimensions factors = .ok dims) :
    index t symbols = .ok (t.indexed symbols factors dims) := by
  have none := Leaf.doubled_of_nodup distinct
  have symbols_free := Space.symbols_indexedFactors named
  apply index_eq_ok_iff.mpr
  refine ⟨_, Leaf.make_eq_ok_iff.mpr ⟨factors, named, ?_, [], ?_, dims, sized, rfl⟩, ?_⟩
  · intro slot present
    exact Leaf.checkSlot_of_nodup distinct factors slot.2 (List.fst_mem_of_mem_zipIdx present)
  · rw [Leaf.doubledFactors, none]
    rfl
  · rw [Leaf.single_of_nodup distinct, none, symbols_free]
    rfl

theorem component_indexed_eq_bind [Scalar α] {t : Tensor α} {symbols : IndexList} (distinct : symbols.Nodup)
    (factors : List Space) (dims : List Nat) {values : List Nat} (length : values.length = symbols.length) :
    (t.indexed symbols factors dims).component values = EvalM.ofExcept (RowMajor.offset values dims) >>= t.component := by
  have named := IndexList.map_assign (fun _ => 0) distinct length
  generalize symbols.assign values (fun _ => 0) = base at named
  have gathered : Source.gather (symbols.map (Source.of symbols [])) (symbols.map base) [] =
      .ok (symbols.map base) :=
    Source.gather_of base .nil rfl fun s present => Or.inr present
  rw [named] at gathered
  change (do
    let slots ← EvalM.ofExcept (Source.gather (symbols.map (Source.of symbols [])) values [])
    t.component (← EvalM.ofExcept (RowMajor.offset slots dims))) = _
  rw [gathered, EvalM.ofExcept_ok, pure_bind]

theorem component_indexed [Scalar α] {t : Tensor α} {symbols : IndexList} (distinct : symbols.Nodup)
    (factors : List Space) {dims values : List Nat} (length : values.length = symbols.length)
    (below : RowMajor.Below values dims) (small : RowMajor.number values dims < Size.bound) :
    (t.indexed symbols factors dims).component values = t.component (RowMajor.number values dims) := by
  rw [component_indexed_eq_bind distinct factors dims length, RowMajor.offset_eq_of_lt below small,
    EvalM.ofExcept_ok, pure_bind]

theorem valueAt_indexed [Scalar α] {t : Tensor α} {symbols : IndexList}
    {factors : List Space} (named : t.space.indexedFactors symbols = .ok factors) {dims : List Nat}
    {memory : Memory α} {caches : Caches α} {values : Symbol → Nat}
    (below : RowMajor.Below (symbols.map values) dims) (small : dims.prod ≤ Size.bound) :
    (t.indexed symbols factors dims).valueAt memory caches values =
      t.components.value memory (RowMajor.number (symbols.map values) dims) := by
  have symbols_free : (t.indexed symbols factors dims).freeSymbols = symbols :=
    Space.symbols_indexedFactors named
  have gathered : Source.gather (symbols.map (Source.of symbols [])) (symbols.map values) [] =
      .ok (symbols.map values) :=
    Source.gather_of values .nil rfl fun s present => Or.inr present
  rw [valueAt, symbols_free]
  change (do
    let slots ← Source.gather (symbols.map (Source.of symbols [])) (symbols.map values) []
    t.components.value memory (← RowMajor.offset slots dims)) = _
  rw [gathered, ok_bind, RowMajor.offset_eq below small]
  rfl

end Expression

end IndexNotation
