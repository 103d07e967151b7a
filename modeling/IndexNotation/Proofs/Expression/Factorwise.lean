import IndexNotation.Proofs.Expression.RoundTrip

namespace IndexNotation

variable {α : Type}

theorem RowMajor.offset_singleton {flat : Nat} (small : flat < Size.bound) (d : Nat) :
    offset [flat] [d] = .ok flat := by
  have multiplied : Size.mul 0 d = .ok 0 := Size.mul_eq_ok_iff.mpr ⟨Nat.zero_mul d, by decide⟩
  have added : Size.add 0 flat = .ok flat := Size.add_eq_ok_iff.mpr ⟨Nat.zero_add flat, small⟩
  simp only [offset, List.length_singleton, if_true, List.zip_cons_cons, List.zip_nil_left, List.foldlM_cons,
    List.foldlM_nil, multiplied, added, ok_bind]
  rfl

namespace Expression

section All

variable {e : Expression α} {positions mergedDims parts : List Nat} {p : Symbol} {target : Space} {isProduct : Bool}
  (merges : e.StandAt e.freeSymbols positions) (distinct : e.freeSymbols.Nodup)

include merges distinct

theorem free_bundling_all :
    (bundled e (e.bundling positions mergedDims target p isProduct)).free = [⟨p, target⟩] := by
  have none : e.free.filter (fun index => index.symbol ∉ e.freeSymbols) = [] := by
    rw [List.filter_eq_nil_iff]
    intro index present
    have inside : index.symbol ∈ e.freeSymbols := List.mem_map_of_mem present
    simp [inside]
  rw [free_bundling merges distinct, none, List.nil_append]

theorem component_bundling_all [Scalar α] {v : Nat} (length : parts.length = e.freeSymbols.length)
    (split : (if isProduct then .ok (RowMajor.split v mergedDims) else target.splitIndex v) = .ok parts) :
    (bundled e (e.bundling positions mergedDims target p isProduct)).component [v] = e.component parts := by
  let values (_ : Symbol) : Nat := v
  have last : (bundled e (e.bundling positions mergedDims target p isProduct)).freeSymbols.map values = [v] := by
    rw [freeSymbols, free_bundling_all merges distinct]
    rfl
  rw [← last, component_bundling merges distinct distinct length split, IndexList.map_assign values distinct length]

end All

end Expression

namespace Space

variable {s : Space} {factors : List Space} (product : s.tensorFactors = some factors)

include product

theorem reserveSplitFactors_of_tensorFactors (fits : s.OrdersFit) : s.reserveSplitFactors = .ok () := by
  cases s with
  | tensorProduct all => rfl
  | tensorPower order factor => exact fits.reserveTensorFactors
  | _ => cases product

theorem isRowMajor_of_tensorFactors : s.IsRowMajor := by
  cases s with
  | tensorProduct all | tensorPower order factor => trivial
  | _ => cases product

theorem splitFactors_of_tensorFactors : s.splitFactors = some factors := by
  cases s with
  | tensorProduct all | tensorPower order factor => exact product
  | _ => cases product

theorem indexedFactors_whole (fits : s.OrdersFit) (several : 2 ≤ factors.length) (p : Symbol) :
    s.indexedFactors [p] = .ok [s] := by
  have other : factors.length ≠ 1 := by omega
  simp [indexedFactors_eq fits.reserveTensorFactors, product, other]

theorem indexedFactors_each (fits : s.OrdersFit) {symbols : IndexList} (same : symbols.length = factors.length) :
    s.indexedFactors symbols = .ok factors := by
  simp [indexedFactors_eq fits.reserveTensorFactors, product, same]

end Space

namespace Tensor

variable {t : Tensor α} {symbols : IndexList} {factors : List Space} {dims : List Nat} {p : Symbol} {d : Nat}

theorem component_whole [Scalar α] {flat : Nat} (small : flat < Size.bound) :
    (t.indexed [p] [t.space] [d]).component [flat] = t.component flat := by
  rw [Expression.component_indexed_eq_bind (List.nodup_singleton p) [t.space] [d] rfl,
    RowMajor.offset_singleton small, EvalM.ofExcept_ok, pure_bind]

section Product

variable (fits : t.space.OrdersFit) (product : t.space.tensorFactors = some factors)
  (computed : Space.dimensions factors = .ok dims) (distinct : symbols.Nodup)

include fits product computed distinct

theorem component_unpacked_eq_indexed [Scalar α] {tuple : List Nat} (length : tuple.length = symbols.length) :
    (t.unpacked d factors p symbols).component tuple = (t.indexed symbols factors dims).component tuple := by
  have kind := Space.isRowMajor_of_tensorFactors product
  have listed := Space.reserveSplitFactors_of_tensorFactors product fits
  have parted := Space.splitDimensions_of_splitFactors (Space.splitFactors_of_tensorFactors product) computed
  rw [component_unpacked length, Space.bundleIndex_eq_offset kind listed parted,
    Expression.component_indexed_eq_bind distinct factors dims length]
  cases located : RowMajor.offset tuple dims with
  | error fault => rfl
  | ok flat =>
      have small := (RowMajor.offset_eq_ok located).2
      calc
        _ = Expression.signed (fun flat => (t.indexed [p] [t.space] [d]).component [flat]) (some (flat, .positive)) := rfl
        _ = t.component flat := by rw [Expression.signed_positive, component_whole small]

theorem exists_bundle_indexed [Scalar α] (several : 2 ≤ factors.length) (same : symbols.length = factors.length)
    (apart : p ∉ symbols) (sized : t.space.dimension = .ok d) :
    ∃ merged, (t.indexed symbols factors dims).bundle symbols t.space p = .ok merged ∧
      merged.free = [⟨p, t.space⟩] ∧
      ∀ v < d, merged.component [v] = (t.indexed [p] [t.space] [d]).component [v] := by
  have splits := Space.splitFactors_of_tensorFactors product
  have listed := Space.reserveSplitFactors_of_tensorFactors product fits
  have kind := Space.isRowMajor_of_tensorFactors product
  have whole := Space.splitDimensions_of_splitFactors splits computed
  have named : (t.indexed symbols factors dims).freeSymbols = symbols := FreeIndex.symbols_zipWith_mk same
  have different : (t.indexed symbols factors dims).freeSymbols.Nodup := by rwa [named]
  have fresh : (t.indexed symbols factors dims).mentions p = false := by
    rw [Expression.mentions, named]
    simp [Expression.used, indexed, apart]
  have factored := FreeIndex.factors_zipWith_mk same
  rcases Expression.bundleFactors_of_splitFactors listed fits.reserveFlattened splits computed with
    ⟨expected, isProduct, regroups, parted⟩
  rcases Expression.exists_bundle different (List.Subset.refl _) (FreeIndex.symbols_zipWith_mk same) (same ▸ several)
    distinct fresh (factored.symm ▸ regroups) ((congrArg Space.dimensions factored).trans computed) with
    ⟨positions, merges, accepted⟩
  nth_rewrite 2 [← named] at merges
  refine ⟨_, accepted, Expression.free_bundling_all merges different, fun v small => ?_⟩
  rcases Space.bundleIndex_splitIndex listed splits computed sized small with ⟨parts, split, length, bundled⟩
  have count : parts.length = symbols.length := length.trans same.symm
  have located := (Space.offset_of_bundleIndex kind whole bundled).1
  calc
    _ = (t.indexed symbols factors dims).component parts :=
      Expression.component_bundling_all merges different (count.trans (congrArg List.length named.symm))
        ((parted v).trans split)
    _ = t.component v := by
      rw [Expression.component_indexed_eq_bind distinct factors dims count, located, EvalM.ofExcept_ok, pure_bind]
    _ = (t.indexed [p] [t.space] [d]).component [v] :=
      (component_whole (Nat.lt_trans small (Space.dimension_lt sized))).symm

end Product

/-- A tensor over several factors read as a whole and split is the tensor read by its factors, and this bundled is
the tensor read as a whole: the free indices are the same, and so is every component. -/
theorem index_factorwise [Scalar α] (fits : t.space.OrdersFit) (product : t.space.tensorFactors = some factors)
    (several : 2 ≤ factors.length) (sized : t.space.dimension = .ok d) (same : symbols.length = factors.length)
    (distinct : symbols.Nodup) (apart : p ∉ symbols) :
    ∃ whole direct parted merged dims, Expression.index t [p] = .ok whole ∧ Expression.index t symbols = .ok direct ∧
      whole.splitAt p symbols = .ok parted ∧ direct.bundle symbols t.space p = .ok merged ∧
      direct.freeDims = .ok dims ∧ whole.freeDims = .ok [d] ∧
      parted.free = direct.free ∧
      (∀ values, RowMajor.Below values dims → parted.component values = direct.component values) ∧
      merged.free = whole.free ∧ ∀ v < d, merged.component [v] = whole.component [v] := by
  have splits := Space.splitFactors_of_tensorFactors product
  have listed := Space.reserveSplitFactors_of_tensorFactors product fits
  rcases Space.exists_dimensions_indexed sized (Space.indexedFactors_each product fits same) with ⟨dims, computed⟩
  have single : Space.dimensions [t.space] = .ok [d] := by
    rw [Space.dimensions, sized]
    rfl
  rcases exists_bundle_indexed fits product computed distinct several same apart sized with
    ⟨merged, bundled, free, components⟩
  have parted := splitAt_single (d := d) listed splits same distinct apart
  refine ⟨_, _, _, merged, dims,
    Expression.index_of_nodup (List.nodup_singleton p) (Space.indexedFactors_whole product fits several p) single,
    Expression.index_of_nodup distinct (Space.indexedFactors_each product fits same) computed,
    parted, bundled, ?direct, single, free_unpacked, ?split, free, components⟩
  case direct =>
    exact (congrArg Space.dimensions (FreeIndex.factors_zipWith_mk same)).trans computed
  case split =>
    intro values below
    have length : values.length = symbols.length :=
      below.length_eq.trans ((Space.dimensions_eq_ok_iff.mp computed).length_eq.symm.trans same.symm)
    exact component_unpacked_eq_indexed fits product computed distinct length

theorem index_factorwise_square :
    ∃ whole direct parted merged : Expression (Bounded .signed32),
      let t : Tensor (Bounded .signed32) :=
        ⟨.tensorProduct [.symmetricPower 2 (.standard 2 "V"), .standard 2 "W"],
          .generated (.ofFunction "odd" 6 fun index => Bounded.ofInt (2 * index + 1))⟩
      Expression.index t [.letter 'p'] = .ok whole ∧ Expression.index t [.letter 'i', .letter 'j'] = .ok direct ∧
      whole.splitAt (.letter 'p') [.letter 'i', .letter 'j'] = .ok parted ∧
      direct.bundle [.letter 'i', .letter 'j'] t.space (.letter 'p') = .ok merged ∧
      parted.free = direct.free ∧ merged.free = whole.free ∧
      (parted.component [2, 0] .empty ⟨#[], #[]⟩).1 = .ok ⟨9, by decide⟩ ∧
      (merged.component [4] .empty ⟨#[], #[]⟩).1 = .ok ⟨9, by decide⟩ := by
  let odd : Generator (Bounded .signed32) := .ofFunction "odd" 6 fun index => Bounded.ofInt (2 * index + 1)
  let t : Tensor (Bounded .signed32) :=
    ⟨.tensorProduct [.symmetricPower 2 (.standard 2 "V"), .standard 2 "W"], .generated odd⟩
  rcases @index_factorwise _ t [.letter 'i', .letter 'j'] _ (.letter 'p') 6 _ ⟨trivial, trivial, trivial⟩ rfl
    (by decide) rfl rfl (by decide) (by decide) with
    ⟨whole, direct, parted, merged, dims, made, named, split, bundled, sized, _, free, components, free', components'⟩
  refine ⟨whole, direct, parted, merged, made, named, split, bundled, free, free', ?_, ?_⟩
  · cases named
    cases sized
    rw [components [2, 0] ⟨by decide, by decide, trivial⟩]
    rfl
  · cases made
    rw [components' 4 (by decide)]
    rfl

end Tensor

end IndexNotation
