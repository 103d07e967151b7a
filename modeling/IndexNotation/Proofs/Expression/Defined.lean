import IndexNotation.Proofs.Assignment
import IndexNotation.Proofs.Expression.Composition
import IndexNotation.Proofs.Space.Orders
/-!
Where the components of an expression are defined. Every list, array and generator that evaluation comes to
is asked only for what it has, as long as the free indices take values in range: each node passes values in
range on to its operands.
-/
namespace IndexNotation

variable {α : Type}

namespace Components

def Total : Components α → Prop
  | stored .. => True
  | generated generator => ∀ index < generator.dimension, ∃ x, (generator.evaluate index #[]).1 = .ok x
  | window base _ _ => base.Total

theorem total_zero [Scalar α] (dimension : Nat) : (generated (Generator.zero dimension : Generator α)).Total := by
  intro index inside
  refine ⟨Scalar.zero, ?_⟩
  rw [Generator.evaluate, if_pos inside]
  rfl

theorem exists_value {memory : Memory α} {c : Components α} (fits : c.Fits memory) (total : c.Total)
    {index : Nat} (inside : index < c.length) : ∃ x, c.value memory index = .ok x := by
  induction c generalizing index with
  | stored storage block offset length =>
      have small : index < length := inside
      rcases fits index small with ⟨x, present⟩
      exact ⟨x, by rw [value, if_pos small, Memory.read_eq present]⟩
  | generated generator => exact total index inside
  | window base offset length ih =>
      have small : index < length := inside
      have within : offset + length ≤ base.length := fits.1
      rw [value, if_pos small]
      exact ih fits.2 total (by omega)

end Components

/-- All that evaluation at the given values looks up is there: positions in lists of values, offsets in
arrays, and components in memory or of generators. -/
def Expression.Defined (memory : Memory α) : Expression α → List Nat → Prop
  | indexed leaf, values =>
    ∀ summed, RowMajor.Below summed leaf.summedDims → ∃ x, leaf.slotValue memory values summed = .ok x
  | product left right contraction, values =>
    ∀ summed, RowMajor.Below summed contraction.summedDims → ∃ leftValues rightValues,
      Source.gather contraction.leftSources values summed = .ok leftValues ∧
      Source.gather contraction.rightSources values summed = .ok rightValues ∧
      left.Defined memory leftValues ∧ right.Defined memory rightValues
  | sum left right _ matching, values => ∃ rightValues,
    valuesAt values matching.positions = .ok rightValues ∧
      left.Defined memory values ∧ right.Defined memory rightValues
  | scaled operand _, values => operand.Defined memory values
  | bundled operand bundling, values =>
    (∀ position ∈ bundling.kept ++ bundling.merged,
      position < bundling.kept.length + bundling.merged.length) ∧
      ∃ operandValues, bundling.operandValues values = .ok operandValues ∧
        operand.Defined memory operandValues
  | split operand splitting, values => ∃ found, splitting.operandValues values = .ok found ∧
    ∀ operandValues sign, found = some (operandValues, sign) → operand.Defined memory operandValues
  | renamed operand _ _, values => operand.Defined memory values
  | cached operand _ dims, values => ∃ dimension, operand.space.dimension = .ok dimension ∧
    (∃ offset < dimension, RowMajor.offset values dims = .ok offset) ∧
      ∀ tuple, RowMajor.Below tuple dims →
        (∃ offset < dimension, RowMajor.offset tuple dims = .ok offset) ∧ operand.Defined memory tuple

theorem IndexList.Ranges.lt {extent : Symbol → Nat} {symbols : IndexList} {before now : Symbol → Nat}
    (ranges : Ranges extent symbols before now) {s : Symbol}
    (inside : s ∈ symbols ∨ before s < extent s) : now s < extent s := by
  by_cases present : s ∈ symbols
  · exact ranges.2 s present
  · rw [ranges.1 s present]
    exact inside.resolve_left present

def FreeIndex.Extents (extent : Symbol → Nat) (free : List FreeIndex) : Prop :=
  ∀ index ∈ free, index.factor.dimension = .ok (extent index.symbol)

namespace FreeIndex

theorem Extents.inRange_iff {extent : Symbol → Nat} {free : List FreeIndex} (extents : Extents extent free)
    (values : Symbol → Nat) : InRange free values ↔ ∀ s ∈ symbols free, values s < extent s := by
  rw [symbols, List.forall_mem_map]
  constructor
  · intro inRange index member
    rcases inRange index member with ⟨d, sized, small⟩
    rw [extents index member] at sized
    cases sized
    exact small
  · exact fun small index member => ⟨_, extents index member, small index member⟩

theorem exists_extents {free : List FreeIndex} (distinct : (symbols free).Nodup)
    (computed : ∀ index ∈ free, ∃ d, index.factor.dimension = .ok d) : ∃ extent, Extents extent free := by
  have each : ∀ s, ∃ d, ∀ index ∈ free, index.symbol = s → index.factor.dimension = .ok d := by
    intro s
    by_cases present : ∃ index ∈ free, index.symbol = s
    · rcases present with ⟨index, member, rfl⟩
      rcases computed index member with ⟨d, sized⟩
      exact ⟨d, fun other member' same => eq_of_symbol_eq distinct member' member same ▸ sized⟩
    · exact ⟨0, fun index member same => absurd ⟨index, member, same⟩ present⟩
  choose extent sized using each
  exact ⟨extent, fun index member => sized index.symbol index member rfl⟩

end FreeIndex

namespace Expression

structure Safe (memory : Memory α) (e : Expression α) : Prop where
  indexed : e.WellIndexed
  computed : e.Computed
  fits : ∀ index ∈ e.free, index.factor.OrdersFit
  defined : ∀ values, FreeIndex.InRange e.free values → e.Defined memory (e.freeSymbols.map values)

structure InBounds (memory : Memory α) (e : Expression α) : Prop where
  indexed : e.WellIndexed
  computed : e.Computed
  defined : ∀ values, FreeIndex.InRange e.free values → e.Defined memory (e.freeSymbols.map values)

variable {memory : Memory α} {e : Expression α}

theorem Safe.inBounds (safe : e.Safe memory) : e.InBounds memory := ⟨safe.indexed, safe.computed, safe.defined⟩

theorem Safe.exists_freeDims (safe : e.Safe memory) : ∃ dims, e.freeDims = .ok dims := by
  apply Space.exists_dimensions
  intro factor present
  rcases List.mem_map.mp present with ⟨index, member, rfl⟩
  exact safe.computed index member

theorem length_of_below {dims values : List Nat} (computed : e.freeDims = .ok dims)
    (below : RowMajor.Below values dims) : values.length = e.freeSymbols.length :=
  calc values.length = dims.length := below.length_eq
    _ = (e.free.map FreeIndex.factor).length :=
      (Space.dimensions_eq_ok_iff.mp computed).length_eq.symm
    _ = e.freeSymbols.length := by rw [freeSymbols, FreeIndex.symbols, List.length_map, List.length_map]

theorem InBounds.defined_below (bounds : e.InBounds memory) {dims values : List Nat}
    (computed : e.freeDims = .ok dims) (below : RowMajor.Below values dims) : e.Defined memory values := by
  have mapped := IndexList.map_assign (fun _ => 0) bounds.indexed.free (length_of_below computed below)
  rw [← mapped]
  apply bounds.defined
  rw [FreeIndex.inRange_iff_below computed]
  exact mapped.symm ▸ below

theorem Safe.defined_below (safe : e.Safe memory) {dims values : List Nat} (computed : e.freeDims = .ok dims)
    (below : RowMajor.Below values dims) : e.Defined memory values := safe.inBounds.defined_below computed below

end Expression

namespace Leaf

variable {symbols : IndexList} {factors : List Space}

theorem mem_occurrences {s : Symbol} {position : Nat} :
    position ∈ occurrences symbols s ↔ symbols[position]? = some s := by
  simp [occurrences, List.mem_zipIdx_iff_getElem?]

section Checked

variable (checked : ∀ slot ∈ symbols.zipIdx, checkSlot symbols factors slot.1 slot.2 = .ok ())

include checked

theorem occurrences_cases {s : Symbol} (present : s ∈ symbols) :
    (∃ first, occurrences symbols s = [first]) ∨
      ∃ first second left right d, occurrences symbols s = [first, second] ∧ factors[first]? = some left ∧
        factors[second]? = some right ∧ left.dimension = .ok d ∧ right.dimension = .ok d := by
  have slot {position : Nat} (stands : position ∈ occurrences symbols s) :
      checkSlot symbols factors s position = .ok () :=
    checked (s, position) (List.mem_zipIdx_iff_getElem?.mpr (mem_occurrences.mp stands))
  rcases List.getElem?_of_mem present with ⟨position, stands⟩
  have here := slot (mem_occurrences.mpr stands)
  rw [checkSlot] at here
  split at here
  · rename_i first found
    exact Or.inl ⟨first, found⟩
  · rename_i first second found
    have pairing := slot (by rw [found]; exact List.mem_cons_self)
    rw [checkSlot, found] at pairing
    simp only [if_true] at pairing
    split at pairing
    · rename_i left right atFirst atSecond
      rcases checkPairing_eq_ok pairing with ⟨d, sized, sized'⟩
      exact Or.inr ⟨first, second, left, right, d, found, atFirst, atSecond, sized, sized'⟩
    · cases pairing
  · cases here

theorem exists_extents {dims : List Nat} (same : factors.length = symbols.length)
    (computed : Space.dimensions factors = .ok dims) :
    ∃ extent : Symbol → Nat, FreeIndex.Extents extent (symbols.zipWith FreeIndex.mk factors) := by
  have each : ∀ s, ∃ d, ∀ (position : Nat) (factor : Space), symbols[position]? = some s →
      factors[position]? = some factor → factor.dimension = .ok d := by
    intro s
    by_cases present : s ∈ symbols
    · rcases occurrences_cases checked present with
        ⟨first, found⟩ | ⟨first, second, left, right, d, found, atFirst, atSecond, sized, sized'⟩
      · have stands : symbols[first]? = some s := mem_occurrences.mp (by rw [found]; exact List.mem_cons_self)
        have inside : first < factors.length := same ▸ (List.getElem?_eq_some_iff.mp stands).1
        rcases Space.exists_dimension_of_mem computed (List.getElem_mem inside) with ⟨d, sized⟩
        refine ⟨d, fun position factor stands' there => ?_⟩
        have place := mem_occurrences.mpr stands'
        rw [found, List.mem_singleton] at place
        rw [place, List.getElem?_eq_getElem inside] at there
        cases there
        exact sized
      · refine ⟨d, fun position factor stands there => ?_⟩
        have place := mem_occurrences.mpr stands
        rw [found] at place
        rcases List.mem_cons.mp place with rfl | place
        · rw [atFirst] at there
          cases there
          exact sized
        · rw [List.mem_singleton.mp place, atSecond] at there
          cases there
          exact sized'
    · exact ⟨0, fun position factor stands _ => absurd (List.mem_of_getElem? stands) present⟩
  choose extent sized using each
  refine ⟨extent, fun index member => ?_⟩
  rcases List.getElem?_of_mem member with ⟨position, stands⟩
  rcases List.getElem?_zipWith_eq_some.mp stands with ⟨s, factor, named, there, rfl⟩
  exact sized s position factor named there

/-- Each slot takes its value from a free symbol or a summed one. -/
theorem mem_doubled_or_single {s : Symbol} (same : factors.length = symbols.length) (present : s ∈ symbols) :
    s ∈ doubled symbols ∨ s ∈ FreeIndex.symbols (single symbols factors) := by
  rw [doubled, List.mem_eraseDups, symbols_single same, List.mem_filter, List.mem_filter]
  have count := length_occurrences symbols s
  rcases occurrences_cases checked present with ⟨first, found⟩ | ⟨first, second, _, _, _, found, _⟩
  · rw [found] at count
    exact Or.inr ⟨present, decide_eq_true count.symm⟩
  · rw [found] at count
    exact Or.inl ⟨present, decide_eq_true count.symm⟩

end Checked

theorem mem_slots {s : Symbol} {factor : Space} (member : (s, factor) ∈ symbols.zip factors) :
    (⟨s, factor⟩ : FreeIndex) ∈ symbols.zipWith FreeIndex.mk factors := by
  have slots : symbols.zipWith FreeIndex.mk factors =
      (symbols.zip factors).map fun slot => ⟨slot.1, slot.2⟩ := by
    symm
    exact List.map_zip_eq_zipWith ..
  rw [slots]
  exact List.mem_map_of_mem member

theorem exists_lookup (same : factors.length = symbols.length) {s : Symbol} (present : s ∈ symbols) :
    ∃ factor, (symbols.zip factors).lookup s = some factor ∧ (s, factor) ∈ symbols.zip factors := by
  cases found : (symbols.zip factors).lookup s with
  | some factor =>
      rcases List.lookup_eq_some_iff.mp found with ⟨front, back, split, _⟩
      exact ⟨factor, rfl, by rw [split]; simp⟩
  | none =>
      rw [← List.map_fst_zip (Nat.le_of_eq same.symm)] at present
      rcases List.mem_map.mp present with ⟨slot, member, rfl⟩
      have absent := List.lookup_eq_none_iff.mp found slot member
      simp at absent

section Extents

variable {extent : Symbol → Nat} (extents : FreeIndex.Extents extent (symbols.zipWith FreeIndex.mk factors))
  (same : factors.length = symbols.length)

include extents

theorem extents_single : FreeIndex.Extents extent (single symbols factors) := by
  intro index member
  rcases List.mem_map.mp member with ⟨slot, kept, rfl⟩
  exact extents _ (mem_slots (List.mem_filter.mp kept).1)

include same

theorem slotDims_eq {dims : List Nat} (computed : Space.dimensions factors = .ok dims) :
    dims = symbols.map extent := by
  have counted : FreeIndex.dimensions (symbols.zipWith FreeIndex.mk factors) = .ok dims := by
    rw [FreeIndex.dimensions, FreeIndex.factors_zipWith_mk same.symm]
    exact computed
  rw [FreeIndex.dimensions_eq_map counted extents, FreeIndex.symbols_zipWith_mk same.symm]

theorem summedDims_eq {dims : List Nat}
    (computed : Space.dimensions (doubledFactors symbols factors) = .ok dims) :
    dims = (doubled symbols).map extent := by
  have summed : Space.dimensions (doubledFactors symbols factors) = .ok ((doubled symbols).map extent) := by
    apply Space.dimensions_filterMap
    intro s present
    have stands := (List.mem_filter.mp (List.mem_eraseDups.mp present)).1
    rcases exists_lookup same stands with ⟨factor, found, member⟩
    exact ⟨factor, found, extents _ (mem_slots member)⟩
  exact Except.ok.inj (computed.symm.trans summed)

end Extents

end Leaf

namespace Expression

variable {memory : Memory α} {e : Expression α}

theorem inBounds_index {tensor : Tensor α} {symbols : IndexList} {e : Expression α} (checked : tensor.Checked memory)
    (total : tensor.components.Total)
    (counted : ∀ {factors dims}, tensor.space.indexedFactors symbols = .ok factors →
      Space.dimensions factors = .ok dims → dims.prod = tensor.components.length)
    (accepted : index tensor symbols = .ok e) : e.InBounds memory := by
  refine ⟨wellIndexed_index accepted, computed_index accepted, ?_⟩
  obtain ⟨leaf, made, rfl⟩ := index_eq_ok_iff.mp accepted
  obtain ⟨factors, named, slots, summedDims, summed, slotDims, dims, rfl⟩ := Leaf.make_eq_ok_iff.mp made
  have same := Space.indexedFactors_length named
  rcases Leaf.exists_extents slots same dims with ⟨extent, extents⟩
  intro values inRange tuple below
  rw [Leaf.summedDims_eq extents same summed] at below
  have ranges := IndexList.ranges_assign values (IndexList.nodup_eraseDups _) below
  have length : tuple.length = (Leaf.doubled symbols).length := by rw [below.length_eq, List.length_map]
  have gathered : Source.gather
      (symbols.map (Source.of (FreeIndex.symbols (Leaf.single symbols factors)) (Leaf.doubled symbols)))
      ((FreeIndex.symbols (Leaf.single symbols factors)).map values) tuple =
        .ok (symbols.map ((Leaf.doubled symbols).assign tuple values)) :=
    Source.gather_of values (IndexList.nodup_eraseDups _) length
      fun s present => Leaf.mem_doubled_or_single slots same present
  have inside : RowMajor.Below (symbols.map ((Leaf.doubled symbols).assign tuple values)) slotDims := by
    rw [Leaf.slotDims_eq extents same dims, RowMajor.below_iff_forall₂, List.forall₂_map_left_iff,
      List.forall₂_map_right_iff, List.forall₂_same]
    intro s present
    apply ranges.lt
    exact (Leaf.mem_doubled_or_single slots same present).imp_right
      (((Leaf.extents_single extents).inRange_iff values).mp inRange s)
  have same' := counted named dims
  have small : slotDims.prod ≤ Size.bound := same' ▸ Nat.le_of_lt (Space.dimension_lt checked.length)
  rcases Components.exists_value checked.fits total (same' ▸ RowMajor.number_lt inside) with ⟨x, found⟩
  refine ⟨x, ?_⟩
  change (do
    let slots ← Source.gather (symbols.map (Source.of (FreeIndex.symbols (Leaf.single symbols factors))
      (Leaf.doubled symbols))) ((FreeIndex.symbols (Leaf.single symbols factors)).map values) tuple
    tensor.components.value memory (← RowMajor.offset slots slotDims)) = _
  rw [gathered, ok_bind, RowMajor.offset_eq inside small, ok_bind, found]

theorem safe_index {tensor : Tensor α} {symbols : IndexList} {e : Expression α} (checked : tensor.Checked memory)
    (total : tensor.components.Total) (fits : tensor.space.OrdersFit)
    (accepted : index tensor symbols = .ok e) : e.Safe memory := by
  have bounds := inBounds_index checked total (Space.prod_indexedFactors checked.length fits) accepted
  refine ⟨bounds.indexed, bounds.computed, ?_, bounds.defined⟩
  obtain ⟨leaf, made, rfl⟩ := index_eq_ok_iff.mp accepted
  obtain ⟨factors, named, _, _, _, _, _, rfl⟩ := Leaf.make_eq_ok_iff.mp made
  intro index present
  obtain ⟨slot, kept, rfl⟩ := List.mem_map.mp present
  exact fits.indexedFactors named _ (List.of_mem_zip (List.mem_filter.mp kept).1).2

theorem exists_extents_mul {left right e : Expression α} (first : left.InBounds memory)
    (second : right.InBounds memory) (accepted : left.mul right = .ok e) :
    ∃ extent, FreeIndex.Extents extent left.free ∧ FreeIndex.Extents extent right.free := by
  obtain ⟨_, pairs, _⟩ := mul_eq_ok_iff.mp accepted
  rcases FreeIndex.exists_extents first.indexed.free first.computed with ⟨onLeft, sized⟩
  rcases FreeIndex.exists_extents second.indexed.free second.computed with ⟨onRight, sized'⟩
  refine ⟨IndexList.moved left.freeSymbols onLeft onRight, ?_, ?_⟩
  · intro index member
    rw [IndexList.moved, if_pos (mem_freeSymbols member)]
    exact sized index member
  · intro index member
    rw [IndexList.moved]
    split
    · rename_i shared
      rcases List.mem_map.mp shared with ⟨other, member', same⟩
      rcases checkContraction_eq_ok second.indexed.free member same.symm (pairs other member') with
        ⟨d, here, there⟩
      rw [there, ← here, ← same]
      exact sized other member'
    · exact sized' index member

theorem inBounds_mul {left right e : Expression α} (first : left.InBounds memory) (second : right.InBounds memory)
    (accepted : left.mul right = .ok e) : e.InBounds memory := by
  have indexed := wellIndexed_mul first.indexed second.indexed accepted
  rcases exists_extents_mul first second accepted with ⟨extent, onLeft, onRight⟩
  obtain ⟨_, _, summedDims, dims, rfl⟩ := mul_eq_ok_iff.mp accepted
  have operand {index : FreeIndex} (member : index ∈
      (product left right (contraction left right summedDims)).free) :
      index ∈ left.free ∨ index ∈ right.free := (mem_free_mul.mp member).1
  refine ⟨indexed, ?_, ?_⟩
  · intro index member
    exact (operand member).elim (first.computed index) (second.computed index)
  · intro values inRange summed below
    have counted : summedDims = (contracted left right).map extent :=
      summedDims_eq dims fun index member => onLeft index (List.mem_filter.mp member).1
    change RowMajor.Below summed summedDims at below
    rw [counted] at below
    have distinct : (contracted left right).Nodup := first.indexed.free.filter _
    have ranges := IndexList.ranges_assign values distinct below
    have length : summed.length = (contracted left right).length := by rw [below.length_eq, List.length_map]
    have extents : FreeIndex.Extents extent (product left right (contraction left right summedDims)).free :=
      fun index member => (operand member).elim (onLeft index) (onRight index)
    have small := (extents.inRange_iff values).mp inRange
    obtain ⟨leftValues, rightValues⟩ := @gather_contraction _ left right summedDims summed
      first.indexed.free length values
    refine ⟨_, _, leftValues, rightValues, ?_, ?_⟩
    · apply first.defined
      rw [onLeft.inRange_iff]
      exact fun s present => ranges.lt ((contracted_or_free (Or.inl present)).imp_right (small s))
    · apply second.defined
      rw [onRight.inRange_iff]
      exact fun s present => ranges.lt ((contracted_or_free (Or.inr present)).imp_right (small s))

theorem safe_mul {left right e : Expression α} (first : left.Safe memory) (second : right.Safe memory)
    (accepted : left.mul right = .ok e) : e.Safe memory := by
  have bounds := inBounds_mul first.inBounds second.inBounds accepted
  refine ⟨bounds.indexed, bounds.computed, ?_, bounds.defined⟩
  obtain ⟨_, _, summedDims, _, rfl⟩ := mul_eq_ok_iff.mp accepted
  intro index member
  exact (mem_free_mul.mp member).1.elim (first.fits index) (second.fits index)

theorem inBounds_combine {left right e : Expression α} {isDifference : Bool} (first : left.InBounds memory)
    (second : right.InBounds memory) (accepted : combine left right isDifference = .ok e) : e.InBounds memory := by
  have indexed := wellIndexed_combine first.indexed second.indexed accepted
  obtain ⟨positions, aligned, rfl⟩ := combine_eq_ok_iff.mp accepted
  have permuted := FreeIndex.perm_of_align second.indexed.free aligned
  refine ⟨indexed, first.computed, fun values inRange => ?_⟩
  refine ⟨_, FreeIndex.valuesAt_align aligned values, first.defined values inRange, ?_⟩
  exact second.defined values ((FreeIndex.inRange_perm permuted values).mpr inRange)

theorem safe_combine {left right e : Expression α} {isDifference : Bool} (first : left.Safe memory)
    (second : right.Safe memory) (accepted : combine left right isDifference = .ok e) : e.Safe memory := by
  have bounds := inBounds_combine first.inBounds second.inBounds accepted
  refine ⟨bounds.indexed, bounds.computed, ?_, bounds.defined⟩
  obtain ⟨positions, _, rfl⟩ := combine_eq_ok_iff.mp accepted
  exact first.fits

theorem inBounds_scaled (bounds : e.InBounds memory) (scaling : Scaling α) : (scaled e scaling).InBounds memory :=
  ⟨⟨bounds.indexed.free, bounds.indexed.used, bounds.indexed.apart⟩, bounds.computed, bounds.defined⟩

theorem safe_scaled (safe : e.Safe memory) (scaling : Scaling α) : (scaled e scaling).Safe memory :=
  ⟨⟨safe.indexed.free, safe.indexed.used, safe.indexed.apart⟩, safe.computed, safe.fits, safe.defined⟩

theorem exists_factor_of_mem_rename {substitute : Symbol → Symbol} {index : FreeIndex}
    (member : index ∈ FreeIndex.rename substitute e.free) : ∃ old ∈ e.free, index.factor = old.factor := by
  rcases List.mem_map.mp member with ⟨old, present, rfl⟩
  exact ⟨old, present, rfl⟩

theorem inBounds_rename {r : Expression α} {source target : IndexList} {serial next : Nat}
    (bounds : e.InBounds memory) (indexed : r.WellIndexed)
    (accepted : rename e source target serial = .ok (r, next)) : r.InBounds memory := by
  obtain ⟨_, _, _, _, used, _, rfl⟩ := rename_eq_ok_iff.mp accepted
  refine ⟨indexed, ?_, ?_⟩
  · intro index member
    rcases exists_factor_of_mem_rename member with ⟨old, present, same⟩
    rw [same]
    exact bounds.computed old present
  · intro values inRange
    change e.Defined memory ((FreeIndex.symbols (FreeIndex.rename _ e.free)).map values)
    rw [FreeIndex.symbols_rename, List.map_map]
    apply bounds.defined
    exact fun index present => inRange _ (List.mem_map_of_mem present)

theorem safe_rename {r : Expression α} {source target : IndexList} {serial next : Nat} (safe : e.Safe memory)
    (indexed : r.WellIndexed) (accepted : rename e source target serial = .ok (r, next)) : r.Safe memory := by
  have bounds := inBounds_rename safe.inBounds indexed accepted
  refine ⟨bounds.indexed, bounds.computed, ?_, bounds.defined⟩
  obtain ⟨_, _, _, _, used, _, rfl⟩ := rename_eq_ok_iff.mp accepted
  intro index member
  rcases exists_factor_of_mem_rename member with ⟨old, present, same⟩
  rw [same]
  exact safe.fits old present

theorem prod_freeDims {dims : List Nat} {d : Nat} (computed : e.freeDims = .ok dims)
    (sized : e.space.dimension = .ok d) : dims.prod = d := by
  rw [freeDims, FreeIndex.dimensions] at computed
  unfold space FreeIndex.space at sized
  split at sized
  · rename_i index only
    rw [only, List.map_singleton, Space.dimensions, sized] at computed
    cases computed
    exact List.prod_singleton
  · rw [Space.dimension, computed, ok_bind] at sized
    exact (RowMajor.product_eq_ok sized).1

theorem safe_eval {dims : List Nat} {d : Nat} (safe : e.Safe memory) (cache : Nat)
    (computed : e.freeDims = .ok dims) (sized : e.space.dimension = .ok d) :
    (cached e cache dims).Safe memory := by
  refine ⟨⟨safe.indexed.free, safe.indexed.used, safe.indexed.apart⟩, safe.computed, safe.fits, ?_⟩
  have counted := prod_freeDims computed sized
  have offset {values : List Nat} (below : RowMajor.Below values dims) :
      ∃ offset < d, RowMajor.offset values dims = .ok offset := by
    have small : dims.prod ≤ Size.bound := counted ▸ Nat.le_of_lt (Space.dimension_lt sized)
    exact ⟨_, counted ▸ RowMajor.number_lt below, RowMajor.offset_eq below small⟩
  intro values inRange
  refine ⟨d, sized, offset ((FreeIndex.inRange_iff_below computed values).mp inRange), ?_⟩
  exact fun tuple below => ⟨offset below, safe.defined_below computed below⟩

end Expression

end IndexNotation
