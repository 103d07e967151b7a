import IndexNotation.Space.Dimension
import IndexNotation.Proofs.Binomial
import IndexNotation.Proofs.RowMajor

namespace IndexNotation

namespace Counting

theorem binomial_lt {n k c : Nat} (computed : binomial n k = .ok c) : c < Size.bound := by
  obtain ⟨fits, rfl⟩ := binomial_eq_ok_iff.mp computed
  have one : 1 < Size.bound := by decide
  rcases Nat.lt_or_ge n k with short | within
  · rw [Nat.choose_eq_zero_of_lt short]
    omega
  · have small := fits within
    rcases Nat.eq_zero_or_pos (min k (n - k)) with zero | positive
    · have trivial : k = 0 ∨ k = n := by omega
      rcases trivial with rfl | rfl
      · rwa [Nat.choose_zero_right]
      · rwa [Nat.choose_self]
    · exact Nat.lt_of_le_of_lt (Nat.le_mul_of_pos_left _ positive) small

/-- With no value to take only the empty tuple is left, and the formula for some values counts it. -/
theorem symmetricDimension_eq_ok {order n d : Nat} (computed : symmetricDimension order n = .ok d) :
    (n + order - 1).choose order = d ∧ Fits (n + order - 1) order ∧
      (n = 0 ∨ n + order < Size.bound) ∧ d < Size.bound := by
  rw [symmetricDimension] at computed
  have one : 1 < Size.bound := by decide
  split at computed
  · rename_i none
    subst none
    rw [Nat.zero_add]
    cases order with
    | zero =>
        cases computed
        exact ⟨rfl, fun _ => by decide, Or.inl rfl, one⟩
    | succ order =>
        cases computed
        refine ⟨Nat.choose_eq_zero_of_lt (Nat.lt_succ_self order), ?_, Or.inl rfl,
          Nat.lt_trans Nat.zero_lt_one one⟩
        intro within
        omega
  · obtain ⟨total, added, counted⟩ := bind_eq_ok_iff.mp computed
    obtain ⟨rfl, small⟩ := Size.add_eq_ok_iff.mp added
    obtain ⟨fits, same⟩ := binomial_eq_ok_iff.mp counted
    exact ⟨same, fits, Or.inr small, binomial_lt counted⟩

theorem exteriorDimension_eq_ok {order n d : Nat} (computed : exteriorDimension order n = .ok d) :
    n.choose order = d ∧ Fits n order ∧ d < Size.bound := by
  obtain ⟨fits, same⟩ := binomial_eq_ok_iff.mp computed
  exact ⟨same, fits, binomial_lt computed⟩

end Counting

namespace Size

theorem foldlM_add_eq_ok {sizes : List Nat} {acc d : Nat} (accepted : sizes.foldlM add acc = .ok d)
    (small : acc < bound) : acc + sizes.sum = d ∧ d < bound := by
  induction sizes generalizing acc with
  | nil =>
      cases accepted
      exact ⟨Nat.add_zero _, small⟩
  | cons size sizes ih =>
      rw [List.foldlM_cons] at accepted
      obtain ⟨next, grown, rest⟩ := bind_eq_ok_iff.mp accepted
      obtain ⟨rfl, smaller⟩ := add_eq_ok_iff.mp grown
      rw [List.sum_cons, ← Nat.add_assoc]
      exact ih rest smaller

theorem sum_eq_ok {sizes : List Nat} {d : Nat} (accepted : sum sizes = .ok d) : sizes.sum = d ∧ d < bound := by
  have folded := foldlM_add_eq_ok accepted (by decide)
  rwa [Nat.zero_add] at folded

end Size

namespace Space

theorem dimensions_eq_ok_iff {spaces : List Space} {dims : List Nat} :
    dimensions spaces = .ok dims ↔ List.Forall₂ (fun s d => s.dimension = .ok d) spaces dims := by
  induction spaces generalizing dims with
  | nil =>
      rw [List.forall₂_nil_left_iff, dimensions]
      exact ⟨fun same => (Except.ok.inj same).symm, fun same => same ▸ rfl⟩
  | cons s rest ih =>
      rw [List.forall₂_cons_left_iff, dimensions]
      simp only [bind_eq_ok_iff, pure_eq_ok_iff, ih]
      constructor
      · intro given
        rcases given with ⟨d, head, dims, tail, same⟩
        exact ⟨d, dims, head, tail, same.symm⟩
      · intro given
        rcases given with ⟨d, dims, head, tail, same⟩
        exact ⟨d, head, dims, tail, same.symm⟩

theorem exists_dimensions {spaces : List Space} (sized : ∀ s ∈ spaces, ∃ d, s.dimension = .ok d) :
    ∃ dims, dimensions spaces = .ok dims := by
  induction spaces with
  | nil => exact ⟨[], rfl⟩
  | cons s rest ih =>
      rcases sized s List.mem_cons_self with ⟨d, head⟩
      rcases ih fun t member => sized t (List.mem_cons_of_mem s member) with ⟨dims, tail⟩
      exact ⟨d :: dims, dimensions_eq_ok_iff.mpr (.cons head (dimensions_eq_ok_iff.mp tail))⟩

theorem getElem?_dimensions_iff {spaces : List Space} {dims : List Nat} {n d : Nat}
    (computed : dimensions spaces = .ok dims) :
    dims[n]? = some d ↔ ∃ s, spaces[n]? = some s ∧ s.dimension = .ok d := by
  have each := dimensions_eq_ok_iff.mp computed
  constructor
  · intro stands
    obtain ⟨inside, rfl⟩ := List.getElem?_eq_some_iff.mp stands
    have inside' : n < spaces.length := each.length_eq ▸ inside
    exact ⟨spaces[n], List.getElem?_eq_getElem inside', each.get inside' inside⟩
  · rintro ⟨s, here, own⟩
    obtain ⟨inside, rfl⟩ := List.getElem?_eq_some_iff.mp here
    have inside' : n < dims.length := each.length_eq ▸ inside
    have same : spaces[n].dimension = .ok dims[n] := each.get inside inside'
    rw [List.getElem?_eq_getElem inside', Except.ok.inj (same.symm.trans own)]

theorem exists_dimension_of_mem {spaces : List Space} {dims : List Nat}
    (computed : dimensions spaces = .ok dims) {s : Space} (member : s ∈ spaces) :
    ∃ d, s.dimension = .ok d := by
  rcases List.forall₂_iff_get.mp (dimensions_eq_ok_iff.mp computed) with ⟨length, each⟩
  rcases List.getElem_of_mem member with ⟨position, inside, rfl⟩
  exact ⟨_, each position inside (length ▸ inside)⟩

theorem dimensions_filterMap {β : Type} {xs : List β} {look : β → Option Space} {extent : β → Nat}
    (sized : ∀ x ∈ xs, ∃ s, look x = some s ∧ s.dimension = .ok (extent x)) :
    dimensions (xs.filterMap look) = .ok (xs.map extent) := by
  induction xs with
  | nil => rfl
  | cons x xs ih =>
      rcases sized x List.mem_cons_self with ⟨s, found, first⟩
      have rest := ih fun y member => sized y (List.mem_cons_of_mem x member)
      rw [List.filterMap_cons, found]
      exact dimensions_eq_ok_iff.mpr (.cons first (dimensions_eq_ok_iff.mp rest))

theorem dimensions_replicate {order f : Nat} {factor : Space} (sized : factor.dimension = .ok f) :
    dimensions (List.replicate order factor) = .ok (List.replicate order f) := by
  rw [dimensions_eq_ok_iff]
  induction order with
  | zero => exact .nil
  | succ order ih => exact .cons sized ih

theorem exists_replicate_of_dimensions {order : Nat} {factor : Space} {dims : List Nat}
    (computed : dimensions (List.replicate order factor) = .ok dims) : ∃ n, dims = List.replicate order n := by
  cases order with
  | zero =>
      cases computed
      exact ⟨0, rfl⟩
  | succ order =>
      obtain ⟨n, rest, sized, _⟩ := List.forall₂_cons_left_iff.mp (dimensions_eq_ok_iff.mp computed)
      exact ⟨n, Except.ok.inj (computed.symm.trans (dimensions_replicate sized))⟩

theorem dimension_lt {s : Space} {d : Nat} (sized : s.dimension = .ok d) : d < Size.bound := by
  match s with
  | .based v => exact (Size.checked_eq_ok_iff.mp (by rwa [dimension] at sized)).2
  | .tensorProduct factors =>
      rw [dimension] at sized
      obtain ⟨dims, _, product⟩ := bind_eq_ok_iff.mp sized
      exact (RowMajor.product_eq_ok product).2
  | .tensorPower order factor =>
      rw [dimension] at sized
      obtain ⟨f, _, power⟩ := bind_eq_ok_iff.mp sized
      exact (Size.pow_eq_ok_iff.mp power).2
  | .symmetricPower order factor =>
      rw [dimension] at sized
      obtain ⟨f, _, counted⟩ := bind_eq_ok_iff.mp sized
      exact (Counting.symmetricDimension_eq_ok counted).2.2.2
  | .exteriorPower order factor =>
      rw [dimension] at sized
      obtain ⟨f, _, counted⟩ := bind_eq_ok_iff.mp sized
      exact (Counting.exteriorDimension_eq_ok counted).2.2
  | .directSum summands =>
      rw [dimension] at sized
      obtain ⟨dims, _, total⟩ := bind_eq_ok_iff.mp sized
      exact (Size.sum_eq_ok total).2
  | .diagonal left right =>
      rw [dimension] at sized
      obtain ⟨a, first, later⟩ := bind_eq_ok_iff.mp sized
      obtain ⟨b, _, smaller⟩ := bind_eq_ok_iff.mp later
      cases smaller
      exact Nat.lt_of_le_of_lt (Nat.min_le_left a b) (dimension_lt first)

mutual

theorem dual_dual (s : Space) : s.dual.dual = s := by
  cases s with
  | based v => rw [dual, dual, BasedSpace.dual_dual]
  | tensorProduct factors => rw [dual, dual, dualAll_dualAll factors]
  | tensorPower order factor => rw [dual, dual, dual_dual factor]
  | symmetricPower order factor => rw [dual, dual, dual_dual factor]
  | exteriorPower order factor => rw [dual, dual, dual_dual factor]
  | directSum summands => rw [dual, dual, dualAll_dualAll summands]
  | diagonal left right => rw [dual, dual, dual_dual left, dual_dual right]

theorem dualAll_dualAll (spaces : List Space) : dualAll (dualAll spaces) = spaces := by
  cases spaces with
  | nil => rfl
  | cons s rest => rw [dualAll, dualAll, dual_dual s, dualAll_dualAll rest]

end

mutual

theorem dimension_dual (s : Space) : s.dual.dimension = s.dimension := by
  cases s with
  | based v => rfl
  | tensorProduct factors => rw [dual, dimension, dimension, dimensions_dualAll factors]
  | tensorPower order factor => rw [dual, dimension, dimension, dimension_dual factor]
  | symmetricPower order factor => rw [dual, dimension, dimension, dimension_dual factor]
  | exteriorPower order factor => rw [dual, dimension, dimension, dimension_dual factor]
  | directSum summands => rw [dual, dimension, dimension, dimensions_dualAll summands]
  | diagonal left right =>
      rw [dual, dimension, dimension, dimension_dual left, dimension_dual right]

theorem dimensions_dualAll (spaces : List Space) : dimensions (dualAll spaces) = dimensions spaces := by
  cases spaces with
  | nil => rfl
  | cons s rest => rw [dualAll, dimensions, dimensions, dimension_dual s, dimensions_dualAll rest]

end

theorem pairsWith_iff {s t : Space} : s.pairsWith t ↔ s.dual = t := beq_iff_eq

theorem pairsWith_comm {s t : Space} : s.pairsWith t ↔ t.pairsWith s := by
  rw [pairsWith_iff, pairsWith_iff]
  constructor
  · intro same
    rw [← same, dual_dual]
  · intro same
    rw [← same, dual_dual]

theorem dimension_eq_of_pairsWith {s t : Space} (pairs : s.pairsWith t) : s.dimension = t.dimension := by
  rw [← pairsWith_iff.mp pairs, dimension_dual]

end Space

end IndexNotation
