import IndexNotation.Proofs.Expression.Bundling
import IndexNotation.Proofs.Inversions
import IndexNotation.Proofs.Scalar.Reading
import Mathlib.Tactic.IntervalCases

namespace IndexNotation.Expression

variable {α : Type}

section SplitBundle

variable [Scalar α]

/-- The component where the symbols take the values of a tuple and all others those of `values`. -/
def componentWith (e : Expression α) (symbols : IndexList) (values : Symbol → Nat) (tuple : List Nat) :
    EvalM α α :=
  e.component (e.freeSymbols.map (symbols.assign tuple values))

/-- The component at `w` after indices of dimensions `dims` were bundled over `target` and split again, its factors
having dimensions `extents`: for a product it is that of the tuple with the same row-major offset, otherwise that of
the canonical order of `w`, with the sign that an exterior power gives it, and zero where the target vanishes. -/
def Regathers (target : Space) (dims extents : List Nat) (component : List Nat → EvalM α α) (w : List Nat)
    (read : EvalM α α) : Prop :=
  match target with
  | .tensorProduct _ | .tensorPower _ _ =>
    (∃ tuple, RowMajor.Below tuple dims ∧ RowMajor.offset tuple dims = RowMajor.offset w extents) ∧
      ∀ tuple, RowMajor.Below tuple dims → RowMajor.offset tuple dims = RowMajor.offset w extents →
        read = component tuple
  | .symmetricPower _ _ => read = component (w.mergeSort (· ≥ ·))
  | .exteriorPower _ _ =>
    (w.Nodup → read = do EvalM.ofExcept ((Sign.ofExchanges (Packed.inversions w)).apply
      (← component (w.mergeSort (· ≥ ·))))) ∧ (¬ w.Nodup → read = pure Scalar.zero)
  | .diagonal _ _ => ∀ a b, w = [a, b] → read = if a = b then component w else pure Scalar.zero
  | .based _ | .directSum _ => False

def partsOf (target : Space) (dims : List Nat) (isProduct : Bool) (flat : Nat) : List Nat :=
  if isProduct then RowMajor.split flat dims else target.partsAt flat

variable {target : Space} {factors merged expected : List Space} {dims extents w : List Nat} {d : Nat}
  {isProduct : Bool}

theorem regathers_product (kind : target.IsRowMajor) (maps : target.IndexMaps d extents) (small : d < Size.bound)
    (whole : target.splitDimensions = .ok extents) (counted : dims.prod = d) (below : RowMajor.Below w extents)
    (component : List Nat → EvalM α α) :
    (∃ tuple, RowMajor.Below tuple dims ∧ RowMajor.offset tuple dims = RowMajor.offset w extents) ∧
      ∀ tuple, RowMajor.Below tuple dims → RowMajor.offset tuple dims = RowMajor.offset w extents →
        (EvalM.ofExcept (target.bundleIndex w) >>=
          signed fun flat => component (RowMajor.split flat dims)) = component tuple := by
  obtain ⟨flat, inside, sign, bundled, _⟩ := maps.bundles w below (Space.not_vanishes_of_isRowMajor kind w)
  obtain ⟨numbered, rfl⟩ := Space.offset_of_bundleIndex kind whole bundled
  rw [← counted] at inside small
  rw [numbered, bundled, EvalM.ofExcept_ok, pure_bind, signed_positive]
  refine ⟨⟨_, (RowMajor.split_spec inside).1, ?_⟩, fun tuple within offset => ?_⟩
  · exact RowMajor.offset_split (.inr inside) (Nat.lt_trans inside small)
  · rw [← RowMajor.eq_split_of_offset within offset]

theorem regathers_bundleIndex (sized : target.dimension = .ok d) (fits : target.OrdersFit)
    (mergedFit : Space.AllFit merged) (splits : target.splitFactors = some factors)
    (regroups : bundleFactors target merged = .ok (expected, expected, isProduct))
    (computed : Space.dimensions merged = .ok dims) (extended : Space.dimensions factors = .ok extents)
    (below : RowMajor.Below w extents) (component : List Nat → EvalM α α) :
    Regathers target dims extents component w
      (EvalM.ofExcept (target.bundleIndex w) >>=
        signed fun flat => component (partsOf target dims isProduct flat)) := by
  obtain ⟨extents', extended', maps⟩ :=
    Space.exists_indexMaps_split sized fits (listed_of_bundleFactors regroups) splits
  cases extended.symm.trans extended'
  have whole := Space.splitDimensions_of_splitFactors splits extended
  have product (kind : target.IsRowMajor) (counted : dims.prod = d) :=
    regathers_product kind maps (Space.dimension_lt sized) whole counted below component
  cases target with
  | based _ | directSum _ => cases splits
  | tensorProduct all | tensorPower order factor =>
      cases isProduct_eq regroups
      rcases bundleFactors_eq_ok regroups with ⟨_, same⟩ | ⟨impossible, _⟩
      · exact product trivial (Space.prod_of_flattened sized fits mergedFit same computed)
      · cases impossible
  | symmetricPower order factor =>
      cases isProduct_eq regroups
      obtain ⟨flat, small, sign, bundled, sorted⟩ := maps.bundles w below id
      have positive : sign = .positive := by
        obtain ⟨_, _, same⟩ := bind_eq_ok_iff.mp bundled
        cases same
        rfl
      rw [Regathers, bundled, EvalM.ofExcept_ok, pure_bind, positive, signed_positive]
      exact congrArg component sorted
  | exteriorPower order factor =>
      cases isProduct_eq regroups
      constructor
      · intro distinct
        obtain ⟨flat, small, sign, bundled, sorted⟩ := maps.bundles w below (not_not.mpr distinct)
        have known := (Packed.sign_of_exteriorFlat bundled).trans (Packed.sortDescending_snd w)
        rw [bundled, EvalM.ofExcept_ok, pure_bind, signed, known]
        exact congrArg (fun tuple => component tuple >>= _) sorted
      · intro repeats
        rw [(maps.vanishes w below).mpr repeats]
        rfl
  | diagonal left right =>
      cases isProduct_eq regroups
      rintro a b rfl
      by_cases equal : a = b
      · subst equal
        have bundled : (Space.diagonal left right).bundleIndex [a, a] = .ok (some (a, .positive)) :=
          congrArg Except.ok (if_pos rfl)
        rw [if_pos rfl, bundled, EvalM.ofExcept_ok, pure_bind, signed_positive]
        rfl
      · rw [if_neg equal, (maps.vanishes [a, b] below).mpr ⟨a, b, rfl, equal⟩]
        rfl

theorem partsOf_spec (sized : target.dimension = .ok d) (fits : target.OrdersFit)
    (mergedFit : Space.AllFit merged) (splits : target.splitFactors = some factors)
    (regroups : bundleFactors target merged = .ok (expected, expected, isProduct))
    (computed : Space.dimensions merged = .ok dims) {flat : Nat} (small : flat < d) :
    (if isProduct then .ok (RowMajor.split flat dims) else target.splitIndex flat) =
        .ok (partsOf target dims isProduct flat) ∧
      RowMajor.Below (partsOf target dims isProduct flat) dims := by
  obtain ⟨parts, found, below⟩ := exists_parts sized fits mergedFit regroups computed small
  obtain ⟨_, _, maps⟩ := Space.exists_indexMaps_split sized fits (listed_of_bundleFactors regroups) splits
  have same : partsOf target dims isProduct flat = parts := by
    cases isProduct with
    | true => exact Except.ok.inj found
    | false => exact Except.ok.inj ((maps.splits flat small).symm.trans found)
  rw [same]
  exact ⟨found, below⟩

theorem component_bundling_update {e : Expression α} {symbols : IndexList} {positions : List Nat} {p : Symbol}
    (merges : e.StandAt symbols positions) (distinct : e.freeSymbols.Nodup) (apart : symbols.Nodup)
    (new : p ∉ e.freeSymbols) {flat : Nat}
    (parted : (if isProduct then .ok (RowMajor.split flat dims) else target.splitIndex flat) =
      .ok (partsOf target dims isProduct flat))
    (length : (partsOf target dims isProduct flat).length = symbols.length) (values : Symbol → Nat) :
    (bundled e (e.bundling positions dims target p isProduct)).component
        ((bundled e (e.bundling positions dims target p isProduct)).freeSymbols.map
          (Function.update values p flat)) =
      e.componentWith symbols values (partsOf target dims isProduct flat) := by
  have last : Function.update values p flat p = flat := Function.update_self ..
  rw [component_bundling merges distinct apart length (by rw [last]; exact parted), componentWith]
  apply congrArg e.component
  apply List.map_congr_left
  intro s free
  exact IndexList.assign_eq (Function.update_of_ne (ne_of_mem_of_not_mem free new) ..)

section Identity

variable {R : Type} [CommRing R] {memory : Memory α} {scratch : Scratch α} {f : List Nat → R}

/-- What an index map to the target and back leaves as it is: any function of the tuples for a product of the very
factors, the symmetric, antisymmetric or diagonal ones for the others. -/
def HasSymmetry (target : Space) (dims extents : List Nat) (f : List Nat → R) : Prop :=
  match target with
  | .symmetricPower _ _ => Packed.ExchangesBy 1 extents f
  | .exteriorPower _ _ => Packed.ExchangesBy (-1) extents f
  | .diagonal _ _ => ∀ a b, RowMajor.Below [a, b] extents → a ≠ b → f [a, b] = 0
  | _ => dims = extents

/-- A scalar is computed that stands for `y` and has an additive inverse. -/
def Computes (reading : Reading α R) (outcome : Except Fault α) (y : R) : Prop :=
  ∃ x opposite, outcome = .ok x ∧ reading.val x = y ∧ Scalar.negate x = .ok opposite

theorem val_negate (reading : Reading α R) {x opposite : α} (negated : Scalar.negate x = .ok opposite) :
    reading.val opposite = -reading.val x := by
  rw [reading.val_sub negated, reading.val_zero, zero_sub]

theorem exists_apply_ofExchanges (reading : Reading α R) {x opposite : α}
    (negated : Scalar.negate x = .ok opposite) (n : Nat) :
    ∃ z, (Sign.ofExchanges n).apply x = .ok z ∧ reading.val z = (-1) ^ n * reading.val x := by
  rcases Nat.even_or_odd n with even | odd
  · have sign : Sign.ofExchanges n = .positive := if_pos (Nat.even_iff.mp even)
    exact ⟨x, by rw [sign]; rfl, by rw [even.neg_one_pow, one_mul]⟩
  · have sign : Sign.ofExchanges n = .negative := if_neg (by rw [Nat.odd_iff.mp odd]; decide)
    exact ⟨opposite, by rw [sign]; exact negated, by rw [odd.neg_one_pow, neg_one_mul, val_negate reading negated]⟩

/-- Components with the symmetry of the target are their own regathered ones. -/
theorem Regathers.exists_eq [IsAddTorsionFree R] (reading : Reading α R) {component : List Nat → EvalM α α}
    {read : EvalM α α} (regathers : Regathers target dims extents component w read)
    (splits : target.splitFactors = some factors) (extended : Space.dimensions factors = .ok extents)
    (below : RowMajor.Below w extents) (symmetric : HasSymmetry target dims extents f)
    (computes : ∀ tuple, RowMajor.Below tuple extents → Computes reading (component tuple memory scratch).1 (f tuple)) :
    ∃ z, (read memory scratch).1 = .ok z ∧ reading.val z = f w := by
  obtain ⟨x, _, computed, same, _⟩ := computes w below
  cases target with
  | based _ | directSum _ => cases splits
  | tensorProduct all | tensorPower order factor =>
      have equal : dims = extents := symmetric
      subst equal
      rw [regathers.2 w below rfl]
      exact ⟨x, computed, same⟩
  | symmetricPower order factor =>
      cases splits
      obtain ⟨n, rfl⟩ := Space.exists_replicate_of_dimensions extended
      have sorted := Packed.below_replicate_perm (List.mergeSort_perm w (· ≥ ·)).symm below
      obtain ⟨z, _, found, value, _⟩ := computes _ sorted
      have whole := symmetric.eq_pow_inversions [] below
      rw [one_pow, one_mul, List.nil_append, List.nil_append, Packed.sortDescending_eq_mergeSort] at whole
      rw [show read = component (w.mergeSort (· ≥ ·)) from regathers]
      exact ⟨z, found, value.trans whole.symm⟩
  | exteriorPower order factor =>
      cases splits
      obtain ⟨n, rfl⟩ := Space.exists_replicate_of_dimensions extended
      by_cases distinct : w.Nodup
      · have sorted := Packed.below_replicate_perm (List.mergeSort_perm w (· ≥ ·)).symm below
        obtain ⟨y, opposite, found, value, negated⟩ := computes _ sorted
        obtain ⟨z, signed, same⟩ := exists_apply_ofExchanges reading negated (Packed.inversions w)
        have whole := symmetric.eq_pow_inversions [] below
        rw [List.nil_append, List.nil_append, Packed.sortDescending_eq_mergeSort, ← value, ← same] at whole
        refine ⟨z, ?_, whole.symm⟩
        rw [regathers.1 distinct, EvalM.bind_ofExcept_run, found]
        exact signed
      · rw [regathers.2 distinct]
        refine ⟨Scalar.zero, rfl, ?_⟩
        rw [reading.val_zero, symmetric.eq_zero_of_not_nodup below distinct]
  | diagonal left right =>
      cases splits
      obtain ⟨m, rest, _, tail, rfl⟩ := List.forall₂_cons_left_iff.mp (Space.dimensions_eq_ok_iff.mp extended)
      obtain ⟨n, none, _, last, rfl⟩ := List.forall₂_cons_left_iff.mp tail
      cases last
      obtain ⟨a, b, rfl, small⟩ := Space.below_pair_iff.mp below
      rw [regathers a b rfl]
      by_cases equal : a = b
      · rw [if_pos equal]
        exact ⟨x, computed, same⟩
      · rw [if_neg equal]
        refine ⟨Scalar.zero, rfl, ?_⟩
        rw [reading.val_zero, symmetric a b below equal]

end Identity

/-- Splitting what was bundled is accepted, and gives back the operand's components regathered: for a product those
with the same row-major offset, else those of the canonical order with its sign. They are the operand's own where the
operand has the symmetry of the target. -/
theorem splitAt_bundle {R : Type} [CommRing R] [IsAddTorsionFree R] (reading : Reading α R) {e b : Expression α}
    {symbols fresh : IndexList} {p : Symbol} (distinct : e.freeSymbols.Nodup)
    (accepted : e.bundle symbols target p = .ok b) (fits : target.OrdersFit)
    (eachFits : ∀ index ∈ e.free, index.symbol ∈ symbols → index.factor.OrdersFit)
    (splits : target.splitFactors = some factors) (same : fresh.length = factors.length) (apart : fresh.Nodup)
    (new : ∀ s ∈ fresh, b.mentions s = false) :
    ∃ r indices dims, b.splitAt p fresh = .ok r ∧
      r.free = (e.free.filter fun index => index.symbol ∉ symbols) ++ fresh.zipWith FreeIndex.mk factors ∧
      FreeIndex.symbols indices = symbols ∧ indices ⊆ e.free ∧ FreeIndex.dimensions indices = .ok dims ∧
      ∀ d extents values, target.dimension = .ok d → Space.dimensions factors = .ok extents →
        RowMajor.Below (fresh.map values) extents →
        Regathers target dims extents (e.componentWith symbols values) (fresh.map values)
            (r.component (r.freeSymbols.map values)) ∧
          ∀ memory scratch f, HasSymmetry target dims extents f →
            (∀ tuple, RowMajor.Below tuple extents →
              Computes reading (e.componentWith symbols values tuple memory scratch).1 (f tuple)) →
            ∃ z, (r.component (r.freeSymbols.map values) memory scratch).1 = .ok z ∧
              reading.val z = f (fresh.map values) := by
  obtain ⟨_, distinct', freshResult, merged, found, expected, isProduct, regroups, dims, computed, rfl⟩ :=
    bundle_eq_ok_iff.mp accepted
  have merges := standAt_positionOf found
  have notFree := (not_mem_of_mentions_eq_false freshResult).1
  have nodup := nodup_bundling distinct merged dims target isProduct notFree
  have kept := free_bundling merges distinct dims target p isProduct
  obtain ⟨r, split, free, components⟩ :=
    exists_splitAt_last kept nodup (listed_of_bundleFactors regroups) splits same apart new
  refine ⟨r, e.indicesAt merged, dims, split, free, merges.symbols_indicesAt, e.indicesAt_subset merged, computed,
    fun d extents values sized extended below => ?_⟩
  have mergedFit := merges.allFit eachFits
  have regathers := regathers_bundleIndex sized fits mergedFit splits regroups computed extended below
    (e.componentWith symbols values)
  obtain ⟨extents', extended', maps⟩ :=
    Space.exists_indexMaps_split sized fits (listed_of_bundleFactors regroups) splits
  cases extended.symm.trans extended'
  have known : r.component (r.freeSymbols.map values) =
      EvalM.ofExcept (target.bundleIndex (fresh.map values)) >>=
        signed fun flat => e.componentWith symbols values (partsOf target dims isProduct flat) := by
    rw [components]
    apply bind_signed_congr
    intro flat sign bundled
    have small := maps.lt_of_bundleIndex below bundled
    obtain ⟨parted, inside⟩ := partsOf_spec sized fits mergedFit splits regroups computed small
    have length : (partsOf target dims isProduct flat).length = symbols.length := by
      rw [inside.length_eq, ← (Space.dimensions_eq_ok_iff.mp computed).length_eq,
        ← merges.symbols_indicesAt, List.length_map, FreeIndex.symbols, List.length_map]
    exact component_bundling_update merges distinct distinct' notFree parted length values
  rw [known]
  refine ⟨regathers, fun memory scratch f symmetric computes => ?_⟩
  exact regathers.exists_eq reading splits extended below symmetric computes

end SplitBundle

theorem splitAt_bundle_antisymmetric :
    ∃ e b r : Expression (Bounded .signed32),
      Expression.index ⟨.tensorPower 2 (.standard 2 "V"),
        .generated (.ofFunction "antisymmetric" 4 fun index => Bounded.ofInt ([0, -7, 7, 0].getD index 0))⟩
        [.letter 'i', .letter 'j'] = .ok e ∧
      e.bundle [.letter 'i', .letter 'j'] (.exteriorPower 2 (.standard 2 "V")) (.letter 'p') = .ok b ∧
      b.splitAt (.letter 'p') [.letter 'u', .letter 'v'] = .ok r ∧
      r.free = [⟨.letter 'u', .standard 2 "V"⟩, ⟨.letter 'v', .standard 2 "V"⟩] ∧
      ∃ z, (r.component [0, 1] .empty ⟨#[], #[]⟩).1 = .ok z ∧ z.val = -7 := by
  let square : Space := .exteriorPower 2 (.standard 2 "V")
  let f (tuple : List Nat) : Int := 7 * ((tuple.getD 0 0 : Int) - tuple.getD 1 0)
  obtain ⟨e, b, made, free, distinct, bundled, new, computes⟩ : ∃ e b : Expression (Bounded .signed32),
      Expression.index ⟨.tensorPower 2 (.standard 2 "V"),
        .generated (.ofFunction "antisymmetric" 4 fun index => Bounded.ofInt ([0, -7, 7, 0].getD index 0))⟩
        [.letter 'i', .letter 'j'] = .ok e ∧
      e.free = [⟨.letter 'i', .standard 2 "V"⟩, ⟨.letter 'j', .standard 2 "V"⟩] ∧ e.freeSymbols.Nodup ∧
      e.bundle [.letter 'i', .letter 'j'] square (.letter 'p') = .ok b ∧
      (∀ s ∈ [Symbol.letter 'u', Symbol.letter 'v'], b.mentions s = false) ∧
      ∀ values, ∀ m < 2, ∀ n < 2, Computes (Bounded.reading .signed32)
        (e.componentWith [.letter 'i', .letter 'j'] values [m, n] .empty ⟨#[], #[]⟩).1 (f [m, n]) := by
    refine ⟨_, _, rfl, rfl, by decide, rfl, by decide, fun values m small n small' => ?_⟩
    interval_cases m <;> interval_cases n <;> exact ⟨_, _, rfl, rfl, rfl⟩
  have antisymmetric : Packed.ExchangesBy (-1) [2, 2] f := by
    intro front x y back below
    obtain ⟨m, n, same, _⟩ := Space.below_pair_iff.mp below
    cases front with
    | nil =>
        cases same
        change 7 * ((x : Int) - y) = -1 * (7 * ((y : Int) - x))
        ring
    | cons first front =>
        have length := congrArg List.length same
        simp only [List.length_append, List.length_cons, List.length_nil] at length
        omega
  have splits : square.splitFactors = some [.standard 2 "V", .standard 2 "V"] := rfl
  have factorsFit : ∀ index ∈ e.free, index.symbol ∈ [Symbol.letter 'i', .letter 'j'] → index.factor.OrdersFit := by
    simp [free, Space.standard, Space.OrdersFit]
  obtain ⟨r, indices, dims, split, others, _, _, _, components⟩ := splitAt_bundle (Bounded.reading .signed32)
    distinct bundled trivial factorsFit splits rfl (by decide) new
  have last : r.free = [⟨.letter 'u', .standard 2 "V"⟩, ⟨.letter 'v', .standard 2 "V"⟩] := by
    rw [others, free]
    rfl
  let values (s : Symbol) : Nat := if s = .letter 'u' then 0 else 1
  obtain ⟨_, identity⟩ := components 1 [2, 2] values rfl rfl ⟨Nat.zero_lt_two, Nat.one_lt_two, trivial⟩
  obtain ⟨z, computed, value⟩ := identity .empty ⟨#[], #[]⟩ f antisymmetric (by
    intro tuple below
    obtain ⟨m, n, rfl, small, small'⟩ := Space.below_pair_iff.mp below
    exact computes values m small n small')
  rw [freeSymbols, last] at computed
  exact ⟨e, b, r, made, bundled, split, last, z, computed, value⟩

/-- Where the dimension of a product overflows, there are values in range that the split cannot number. -/
theorem splitAt_bundle_eq_overflow :
    ∃ y z e b r : Expression (Bounded .signed64),
      (Tensor.zero (.standard 4294967296 "Y") >>= (index · [.letter 'i'])) = .ok y ∧
      (Tensor.zero (.standard 8589934592 "Z") >>= (index · [.letter 'j'])) = .ok z ∧
      y.mul z = .ok e ∧ e.freeSymbols = [.letter 'i', .letter 'j'] ∧
      e.bundle [.letter 'i', .letter 'j']
        (.tensorProduct [.standard 4294967296 "Y", .standard 8589934592 "Z"]) (.letter 'p') = .ok b ∧
      b.splitAt (.letter 'p') [.letter 'u', .letter 'v'] = .ok r ∧
      r.free = [⟨.letter 'u', .standard 4294967296 "Y"⟩, ⟨.letter 'v', .standard 8589934592 "Z"⟩] ∧
      (e.component [4294967295, 0] .empty ⟨#[], #[]⟩).1 = .ok ⟨0, by decide⟩ ∧
      (r.component [4294967295, 0] .empty ⟨#[], #[]⟩).1 = .error .overflow :=
  ⟨_, _, _, _, _, rfl, rfl, rfl, rfl, rfl, rfl, rfl, rfl, rfl⟩

end IndexNotation.Expression
