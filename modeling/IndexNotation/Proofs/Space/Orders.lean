import IndexNotation.Proofs.Space.Power
import IndexNotation.Proofs.Space.Slots

namespace IndexNotation.Space

mutual

/-- The order of every tensor power inside is one that a dimension counts. -/
def OrdersFit : Space → Prop
  | .based _ => True
  | .tensorProduct factors => AllFit factors
  | .tensorPower order factor => order < Nat.pow 2 32 ∧ OrdersFit factor
  | .symmetricPower _ factor => OrdersFit factor
  | .exteriorPower _ factor => OrdersFit factor
  | .directSum summands => AllFit summands
  | .diagonal left right => OrdersFit left ∧ OrdersFit right

def AllFit : List Space → Prop
  | [] => True
  | s :: rest => OrdersFit s ∧ AllFit rest

end

mutual

/-- No symmetric or exterior power inside has tuples so long that no memory holds one. -/
def TuplesFit : Space → Prop
  | .based _ => True
  | .tensorProduct factors => AllTuplesFit factors
  | .tensorPower _ factor => TuplesFit factor
  | .symmetricPower order factor => order < Nat.pow 2 60 ∧ TuplesFit factor
  | .exteriorPower order factor => order < Nat.pow 2 60 ∧ TuplesFit factor
  | .directSum summands => AllTuplesFit summands
  | .diagonal left right => TuplesFit left ∧ TuplesFit right

def AllTuplesFit : List Space → Prop
  | [] => True
  | s :: rest => TuplesFit s ∧ AllTuplesFit rest

end

theorem allFit_iff {spaces : List Space} : AllFit spaces ↔ ∀ s ∈ spaces, s.OrdersFit := by
  induction spaces with
  | nil => simp [AllFit]
  | cons s rest ih => rw [AllFit, ih, List.forall_mem_cons]

mutual

theorem OrdersFit.reserveFlattened {s : Space} (fits : s.OrdersFit) : s.reserveFlattened = .ok () := by
  match s with
  | .based _ | .symmetricPower .. | .exteriorPower .. | .directSum _ | .diagonal .. => rfl
  | .tensorProduct factors => exact AllFit.reserveAllFlattened fits
  | .tensorPower order factor =>
      rw [Space.reserveFlattened, reserve_of_exponent fits.1, ok_bind, OrdersFit.reserveFlattened fits.2]
      exact ite_self _

theorem AllFit.reserveAllFlattened {spaces : List Space} (fits : AllFit spaces) :
    reserveAllFlattened spaces = .ok () := by
  match spaces with
  | [] => rfl
  | s :: rest =>
      rw [Space.reserveAllFlattened, OrdersFit.reserveFlattened fits.1, ok_bind]
      exact AllFit.reserveAllFlattened fits.2

end

theorem OrdersFit.reserveTensorFactors {s : Space} (fits : s.OrdersFit) : s.reserveTensorFactors = .ok () := by
  cases s with
  | tensorPower order factor => exact reserve_of_exponent fits.1
  | _ => rfl

theorem dimension_tensorPower {order d : Nat} {factor : Space}
    (sized : (tensorPower order factor).dimension = .ok d) (small : order < Nat.pow 2 32) :
    ∃ n, factor.dimension = .ok n ∧ n ^ order = d ∧ d < Size.bound := by
  rw [dimension, Nat.mod_eq_of_lt small] at sized
  rcases bind_eq_ok_iff.mp sized with ⟨n, computed, power⟩
  exact ⟨n, computed, Size.pow_eq_ok_iff.mp power⟩

theorem dimensions_append {spaces others : List Space} {dims rest : List Nat}
    (first : dimensions spaces = .ok dims) (second : dimensions others = .ok rest) :
    dimensions (spaces ++ others) = .ok (dims ++ rest) := by
  rw [dimensions_eq_ok_iff] at first second ⊢
  exact List.rel_append first second

theorem dimensions_flatten_replicate {spaces : List Space} {dims : List Nat}
    (computed : dimensions spaces = .ok dims) (order : Nat) :
    dimensions (List.replicate order spaces).flatten = .ok (List.replicate order dims).flatten := by
  induction order with
  | zero => rfl
  | succ order ih =>
      rw [List.replicate_succ, List.replicate_succ, List.flatten_cons, List.flatten_cons]
      exact dimensions_append computed ih

mutual

theorem prod_flattened {s : Space} {d : Nat} (sized : s.dimension = .ok d) (fits : s.OrdersFit) :
    ∃ dims, dimensions s.flattened = .ok dims ∧ dims.prod = d := by
  have whole (same : s.flattened = [s]) : ∃ dims, dimensions s.flattened = .ok dims ∧ dims.prod = d := by
    refine ⟨[d], ?_, List.prod_singleton⟩
    rw [same, dimensions, sized]
    rfl
  match s with
  | .based _ | .symmetricPower .. | .exteriorPower .. | .directSum _ | .diagonal .. => exact whole rfl
  | .tensorProduct factors =>
      rw [dimension] at sized
      rcases bind_eq_ok_iff.mp sized with ⟨dims, computed, product⟩
      rcases prod_flattenedAll computed fits with ⟨all, flat, same⟩
      exact ⟨all, flat, same.trans (RowMajor.product_eq_ok product).1⟩
  | .tensorPower order factor =>
      rcases dimension_tensorPower sized fits.1 with ⟨n, computed, power, _⟩
      rcases prod_flattened computed fits.2 with ⟨dims, flat, same⟩
      refine ⟨_, dimensions_flatten_replicate flat order, ?_⟩
      rw [List.prod_flatten, List.map_replicate, List.prod_replicate, same, power]

theorem prod_flattenedAll {spaces : List Space} {dims : List Nat} (computed : dimensions spaces = .ok dims)
    (fits : AllFit spaces) : ∃ all, dimensions (flattenedAll spaces) = .ok all ∧ all.prod = dims.prod := by
  match spaces with
  | [] =>
      cases computed
      exact ⟨[], rfl, rfl⟩
  | s :: rest =>
      rw [dimensions] at computed
      rcases bind_eq_ok_iff.mp computed with ⟨d, head, later⟩
      rcases bind_eq_ok_iff.mp later with ⟨dims, tail, made⟩
      cases made
      rcases prod_flattened head fits.1 with ⟨flat, first, same⟩
      rcases prod_flattenedAll tail fits.2 with ⟨all, second, same'⟩
      refine ⟨flat ++ all, dimensions_append first second, ?_⟩
      rw [List.prod_append, List.prod_cons, same, same']

end

mutual

/-- A tensor power whose order its dimension does not count is expanded into more factors than these, unless it has
none. -/
theorem prod_flattened_of_few {s : Space} {d : Nat} (sized : s.dimension = .ok d)
    (few : s.flattened.length < Nat.pow 2 32) : ∃ dims, dimensions s.flattened = .ok dims ∧ dims.prod = d := by
  have whole (same : s.flattened = [s]) : ∃ dims, dimensions s.flattened = .ok dims ∧ dims.prod = d := by
    refine ⟨[d], ?_, List.prod_singleton⟩
    rw [same, dimensions, sized]
    rfl
  match s with
  | .based _ | .symmetricPower .. | .exteriorPower .. | .directSum _ | .diagonal .. => exact whole rfl
  | .tensorProduct factors =>
      rw [dimension] at sized
      rcases bind_eq_ok_iff.mp sized with ⟨dims, computed, product⟩
      rcases prod_flattenedAll_of_few computed few with ⟨all, flat, same⟩
      exact ⟨all, flat, same.trans (RowMajor.product_eq_ok product).1⟩
  | .tensorPower order factor =>
      rw [dimension] at sized
      rcases bind_eq_ok_iff.mp sized with ⟨n, computed, power⟩
      obtain ⟨rfl, _⟩ := Size.pow_eq_ok_iff.mp power
      have length : (tensorPower order factor).flattened.length = order * factor.flattened.length := by
        rw [flattened, List.length_flatten, List.map_replicate, List.sum_replicate_nat]
      rcases Nat.eq_zero_or_pos order with rfl | some
      · exact ⟨[], rfl, rfl⟩
      have fewer : factor.flattened.length < Nat.pow 2 32 :=
        Nat.lt_of_le_of_lt (Nat.le_mul_of_pos_left _ some) (length ▸ few)
      rcases prod_flattened_of_few computed fewer with ⟨dims, flat, rfl⟩
      refine ⟨_, dimensions_flatten_replicate flat order, ?_⟩
      rw [List.prod_flatten, List.map_replicate, List.prod_replicate]
      cases expanded : factor.flattened with
      | nil =>
          rw [expanded] at flat
          cases flat
          exact (one_pow order).trans (one_pow _).symm
      | cons first rest =>
          have counted : order < Nat.pow 2 32 := by
            rw [expanded, List.length_cons] at length
            exact Nat.lt_of_le_of_lt (Nat.le_mul_of_pos_right _ (Nat.succ_pos _)) (length ▸ few)
          rw [Nat.mod_eq_of_lt counted]
          rfl

theorem prod_flattenedAll_of_few {spaces : List Space} {dims : List Nat} (computed : dimensions spaces = .ok dims)
    (few : (flattenedAll spaces).length < Nat.pow 2 32) :
    ∃ all, dimensions (flattenedAll spaces) = .ok all ∧ all.prod = dims.prod := by
  match spaces with
  | [] =>
      cases computed
      exact ⟨[], rfl, rfl⟩
  | s :: rest =>
      rw [dimensions] at computed
      rcases bind_eq_ok_iff.mp computed with ⟨d, head, later⟩
      rcases bind_eq_ok_iff.mp later with ⟨dims, tail, made⟩
      cases made
      rw [flattenedAll, List.length_append] at few
      rcases prod_flattened_of_few head (by omega) with ⟨flat, first, same⟩
      rcases prod_flattenedAll_of_few tail (by omega) with ⟨all, second, same'⟩
      refine ⟨flat ++ all, dimensions_append first second, ?_⟩
      rw [List.prod_append, List.prod_cons, same, same']

end

theorem prod_of_flattened {s : Space} {d : Nat} {factors : List Space} {dims : List Nat}
    (sized : s.dimension = .ok d) (fits : s.OrdersFit) (factorsFit : AllFit factors)
    (same : s.flattened = flattenedAll factors) (computed : dimensions factors = .ok dims) : dims.prod = d := by
  obtain ⟨all, flat, whole⟩ := prod_flattened sized fits
  obtain ⟨all', flat', parts⟩ := prod_flattenedAll computed factorsFit
  rw [same, flat'] at flat
  cases flat
  exact parts.symm.trans whole

theorem prod_of_flattened_of_few {s : Space} {d : Nat} {factors : List Space} {dims : List Nat}
    (sized : s.dimension = .ok d) (few : s.flattened.length < Nat.pow 2 32)
    (same : s.flattened = flattenedAll factors) (computed : dimensions factors = .ok dims) : dims.prod = d := by
  obtain ⟨all, flat, whole⟩ := prod_flattened_of_few sized few
  obtain ⟨all', flat', parts⟩ := prod_flattenedAll_of_few computed (same ▸ few)
  rw [same, flat'] at flat
  cases flat
  exact parts.symm.trans whole

theorem exists_indexMaps {s : Space} {d : Nat} {factors : List Space} (sized : s.dimension = .ok d)
    (exponent : ∀ order factor, s = .tensorPower order factor → order < Nat.pow 2 32)
    (listed : s.reserveSplitFactors = .ok ()) (splits : s.splitFactors = some factors) :
    ∃ dims, dimensions factors = .ok dims ∧ s.IndexMaps d dims := by
  rcases exists_splitDimensions sized exponent with ⟨dims, split, maps⟩
  rw [splitDimensions, splits] at split
  exact ⟨dims, split, maps fun _ _ power => power.short_of_listed listed⟩

theorem exists_indexMaps_split {s : Space} {d : Nat} {factors : List Space} (sized : s.dimension = .ok d)
    (fits : s.OrdersFit) (listed : s.reserveSplitFactors = .ok ()) (splits : s.splitFactors = some factors) :
    ∃ dims, dimensions factors = .ok dims ∧ s.IndexMaps d dims := by
  apply exists_indexMaps sized _ listed splits
  intro order factor power
  rw [power] at fits
  exact fits.1

theorem OrdersFit.splitFactors {s : Space} {factors : List Space} (fits : s.OrdersFit)
    (splits : s.splitFactors = some factors) : ∀ factor ∈ factors, factor.OrdersFit := by
  cases s with
  | based v => cases splits
  | directSum summands => cases splits
  | tensorProduct all =>
      cases splits
      exact allFit_iff.mp fits
  | tensorPower order factor =>
      cases splits
      exact fun other present => List.eq_of_mem_replicate present ▸ fits.2
  | symmetricPower order factor =>
      cases splits
      exact fun other present => List.eq_of_mem_replicate present ▸ fits
  | exteriorPower order factor =>
      cases splits
      exact fun other present => List.eq_of_mem_replicate present ▸ fits
  | diagonal left right =>
      cases splits
      intro other present
      rcases List.mem_cons.mp present with rfl | present
      · exact fits.1
      · exact List.mem_singleton.mp present ▸ fits.2

theorem prod_indexedFactors_of_exponent {s : Space} {symbols : IndexList} {factors : List Space} {dims : List Nat}
    {d : Nat} (sized : s.dimension = .ok d)
    (exponent : ∀ order factor, s = .tensorPower order factor → order = symbols.length → order < Nat.pow 2 32)
    (named : s.indexedFactors symbols = .ok factors) (computed : dimensions factors = .ok dims) :
    dims.prod = d := by
  have many := indexedFactors_length named
  rcases indexedFactors_eq_ok named with ⟨_, rfl⟩ | ⟨_, split⟩
  · rw [dimensions, sized] at computed
    cases computed
    exact List.prod_singleton
  · cases s with
    | tensorProduct all =>
        cases split
        rw [dimension, computed, ok_bind] at sized
        exact (RowMajor.product_eq_ok sized).1
    | tensorPower order factor =>
        cases split
        rw [List.length_replicate] at many
        rcases dimension_tensorPower sized (exponent order factor rfl many) with ⟨n, first, power, _⟩
        rw [dimensions_replicate first] at computed
        cases computed
        rw [List.prod_replicate, power]
    | _ => cases split

theorem prod_indexedFactors {s : Space} {symbols : IndexList} {factors : List Space} {dims : List Nat}
    {d : Nat} (sized : s.dimension = .ok d) (fits : s.OrdersFit)
    (named : s.indexedFactors symbols = .ok factors) (computed : dimensions factors = .ok dims) :
    dims.prod = d := by
  apply prod_indexedFactors_of_exponent sized _ named computed
  rintro order factor rfl _
  exact fits.1

theorem OrdersFit.indexedFactors {s : Space} {symbols : IndexList} {factors : List Space}
    (fits : s.OrdersFit) (named : s.indexedFactors symbols = .ok factors) :
    ∀ factor ∈ factors, factor.OrdersFit := by
  rcases indexedFactors_eq_ok named with ⟨_, rfl⟩ | ⟨_, split⟩
  · intro factor present
    exact List.mem_singleton.mp present ▸ fits
  · apply fits.splitFactors
    cases s with
    | tensorProduct all => exact split
    | tensorPower order factor => exact split
    | _ => cases split

end IndexNotation.Space
