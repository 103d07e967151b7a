import IndexNotation.Expression.Build
import IndexNotation.Proofs.Space.Dimension

namespace IndexNotation.Space

variable {s : Space} {symbols : IndexList} {factors : List Space}

def IsOverlong (s : Space) : Prop :=
  ∃ order factor, s = .tensorPower order factor ∧ Nat.pow 2 63 ≤ order * width

/-- How the slots of the space fail to be named: they are refused, or no list can hold them. -/
def Refuses (s : Space) (fault : Fault) : Prop :=
  (∃ reason, fault = .refused reason) ∨ fault = .capacity ∧ s.IsOverlong

theorem reserveTensorFactors_eq_error {fault : Fault} (failed : s.reserveTensorFactors = .error fault) :
    fault = .capacity ∧ s.IsOverlong := by
  cases s with
  | tensorPower order factor =>
      rcases Size.reserve_eq_error failed with ⟨capacity, large⟩
      exact ⟨capacity, order, factor, rfl, large⟩
  | _ => cases failed

theorem reserveTensorFactors_of_isOverlong (overlong : s.IsOverlong) :
    s.reserveTensorFactors = .error .capacity := by
  rcases overlong with ⟨order, factor, rfl, large⟩
  exact if_neg (Nat.not_lt_of_le large)

theorem reserveTensorFactors_of_not_isOverlong (short : ¬ s.IsOverlong) : s.reserveTensorFactors = .ok () := by
  cases outcome : s.reserveTensorFactors with
  | ok done => rfl
  | error fault => exact absurd (reserveTensorFactors_eq_error outcome).2 short

theorem reserveTensorFactors_of_whole (whole : s.tensorFactors = none) : s.reserveTensorFactors = .ok () := by
  apply reserveTensorFactors_of_not_isOverlong
  rintro ⟨order, factor, rfl, _⟩
  cases whole

theorem reserveTensorFactors_of_reserveSplitFactors (listed : s.reserveSplitFactors = .ok ()) :
    s.reserveTensorFactors = .ok () := by
  cases s <;> first | exact listed | rfl

theorem indexedFactors_eq (listed : s.reserveTensorFactors = .ok ()) (symbols : IndexList) :
    s.indexedFactors symbols =
      let whole := if symbols.length = 1 then .ok [s] else refuse (.indexCountMismatch s symbols.length)
      match s.tensorFactors with
      | some factors => if factors.length = symbols.length then .ok factors else whole
      | none => whole := by
  rw [indexedFactors, listed]
  rfl

theorem listed_of_indexedFactors (accepted : s.indexedFactors symbols = .ok factors) :
    s.reserveTensorFactors = .ok () := by
  obtain ⟨_, listed, _⟩ := bind_eq_ok_iff.mp accepted
  exact listed

theorem indexedFactors_eq_ok (accepted : s.indexedFactors symbols = .ok factors) :
    symbols.length = 1 ∧ factors = [s] ∨
      factors.length = symbols.length ∧ s.tensorFactors = some factors := by
  have whole (one : (if symbols.length = 1 then .ok [s]
      else refuse (.indexCountMismatch s symbols.length)) = .ok factors) :
      symbols.length = 1 ∧ factors = [s] := by
    split at one
    · rename_i single
      cases one
      exact ⟨single, rfl⟩
    · cases one
  rw [indexedFactors_eq (listed_of_indexedFactors accepted)] at accepted
  cases named : s.tensorFactors with
  | none =>
      rw [named] at accepted
      exact Or.inl (whole accepted)
  | some all =>
      rw [named] at accepted
      dsimp only at accepted
      split at accepted
      · rename_i same
        cases accepted
        exact Or.inr ⟨same, rfl⟩
      · exact Or.inl (whole accepted)

theorem indexedFactors_length (accepted : s.indexedFactors symbols = .ok factors) :
    factors.length = symbols.length := by
  rcases indexedFactors_eq_ok accepted with ⟨one, whole⟩ | ⟨same, _⟩
  · rw [whole, one]
    rfl
  · exact same

theorem symbols_indexedFactors (accepted : s.indexedFactors symbols = .ok factors) :
    FreeIndex.symbols (symbols.zipWith FreeIndex.mk factors) = symbols :=
  FreeIndex.symbols_zipWith_mk (indexedFactors_length accepted).symm

theorem indexedFactors_eq_error {fault : Fault}
    (failed : s.indexedFactors symbols = .error fault) : s.Refuses fault := by
  have whole (one : (if symbols.length = 1 then .ok [s]
      else refuse (.indexCountMismatch s symbols.length)) = .error fault) :
      ∃ reason, fault = .refused reason := by
    split at one
    · cases one
    · cases one
      exact ⟨_, rfl⟩
  cases listed : s.reserveTensorFactors with
  | error full =>
      rw [indexedFactors, listed] at failed
      cases failed
      exact Or.inr (reserveTensorFactors_eq_error listed)
  | ok done =>
      rw [indexedFactors_eq listed] at failed
      left
      cases named : s.tensorFactors with
      | none =>
          rw [named] at failed
          exact whole failed
      | some all =>
          rw [named] at failed
          dsimp only at failed
          split at failed
          · cases failed
          · exact whole failed

theorem exists_dimensions_indexed {d : Nat} (sized : s.dimension = .ok d)
    (named : s.indexedFactors symbols = .ok factors) :
    ∃ dims, dimensions factors = .ok dims := by
  rcases indexedFactors_eq_ok named with ⟨_, whole⟩ | ⟨length, split⟩
  · subst whole
    refine ⟨[d], ?_⟩
    rw [dimensions, sized]
    rfl
  · cases s with
    | tensorProduct all =>
        cases split
        rw [dimension] at sized
        obtain ⟨dims, computed, _⟩ := bind_eq_ok_iff.mp sized
        exact ⟨dims, computed⟩
    | tensorPower order factor =>
        cases split
        rw [dimension] at sized
        obtain ⟨n, first, _⟩ := bind_eq_ok_iff.mp sized
        exact ⟨_, dimensions_replicate first⟩
    | _ => cases split

/-- A tensor power is as large as its dimension says, except for an exponent too large for the dimension
to see it whole. -/
theorem pow_order {n order d : Nat} (power : Size.pow n (order % Nat.pow 2 32) = .ok d) :
    n ^ order = d ∨ Nat.pow 2 32 ≤ order ∧ (n ^ order = 0 ∨ Size.bound < n ^ order) := by
  rcases Nat.lt_or_ge order (Nat.pow 2 32) with small | large
  · rw [Nat.mod_eq_of_lt small] at power
    exact Or.inl (Size.pow_eq_ok_iff.mp power).1
  · have positive : 0 < order := Nat.lt_of_lt_of_le (by decide) large
    rcases Nat.lt_trichotomy n 1 with none | one | more
    · have zero : n = 0 := Nat.lt_one_iff.mp none
      subst zero
      exact Or.inr ⟨large, Or.inl (Nat.zero_pow positive)⟩
    · subst one
      have same : Nat.pow 1 (order % Nat.pow 2 32) = d := (Size.pow_eq_ok_iff.mp power).1
      left
      rw [Nat.one_pow, ← same]
      exact (Nat.one_pow _).symm
    · have wide : 64 < order := Nat.lt_of_lt_of_le (by decide) large
      right
      refine ⟨large, Or.inr ?_⟩
      calc Size.bound < 2 ^ order := Nat.pow_lt_pow_right (by decide) wide
        _ ≤ n ^ order := Nat.pow_le_pow_left more order

/-- The slots number as many components as the space has, except where the exponent of a tensor power is
too large for its dimension; then there are none or too many to number. -/
theorem prod_indexed {dims : List Nat} {d : Nat} (sized : s.dimension = .ok d)
    (named : s.indexedFactors symbols = .ok factors)
    (computed : dimensions factors = .ok dims) :
    dims.prod = d ∨
      Nat.pow 2 32 ≤ symbols.length ∧ (dims.prod = 0 ∨ Size.bound < dims.prod) := by
  rcases indexedFactors_eq_ok named with ⟨_, whole⟩ | ⟨length, split⟩
  · subst whole
    rw [dimensions, sized, ok_bind] at computed
    cases computed
    exact Or.inl (List.prod_singleton)
  · cases s with
    | tensorProduct all =>
        cases split
        rw [dimension, computed, ok_bind] at sized
        exact Or.inl (RowMajor.product_eq_ok sized).1
    | tensorPower order factor =>
        cases split
        rw [dimension] at sized
        obtain ⟨n, first, power⟩ := bind_eq_ok_iff.mp sized
        rw [dimensions_replicate first] at computed
        cases computed
        rw [List.length_replicate] at length
        rw [List.prod_replicate, ← length]
        exact pow_order power
    | _ => cases split

theorem lt_of_lt_prod_indexed {dims : List Nat} {d k : Nat} (sized : s.dimension = .ok d)
    (named : s.indexedFactors symbols = .ok factors) (computed : dimensions factors = .ok dims)
    (bounded : dims.prod ≤ Size.bound) (numbered : k < dims.prod) : k < d := by
  rcases prod_indexed sized named computed with whole | ⟨_, none | large⟩
  · rwa [whole] at numbered
  · rw [none] at numbered
    exact absurd numbered (Nat.not_lt_zero _)
  · exact absurd bounded (Nat.not_le_of_lt large)

end IndexNotation.Space
