import IndexNotation.Proofs.Space.Index

namespace IndexNotation.Space

namespace IsPower

variable {s factor : Space} {order n d : Nat} (power : s.IsPower order factor)

include power

theorem splitFactors : s.splitFactors = some (List.replicate order factor) := by
  rcases power with rfl | rfl
  · rfl
  · rfl

theorem tensorFactors : s.tensorFactors = none := by
  rcases power with rfl | rfl
  · rfl
  · rfl

theorem exists_dimension (sized : s.dimension = .ok d) : ∃ n, factor.dimension = .ok n := by
  rcases power with rfl | rfl
  all_goals
    rw [dimension] at sized
    rcases bind_eq_ok_iff.mp sized with ⟨n, computed, _⟩
    exact ⟨n, computed⟩

theorem exists_indexMaps (sized : s.dimension = .ok d) (computed : factor.dimension = .ok n)
    (short : order < Nat.pow 2 60) : s.IndexMaps d (List.replicate order n) := by
  rcases power with rfl | rfl
  · rw [dimension, computed, ok_bind] at sized
    exact indexMaps_symmetricPower sized short
  · rw [dimension, computed, ok_bind] at sized
    exact indexMaps_exteriorPower sized (dimension_lt computed) short

/-- Where the factors can be listed the tuples can be held. -/
theorem short_of_listed (listed : s.reserveSplitFactors = .ok ()) : order < Nat.pow 2 60 := by
  have wide : Size.reserve order width = .ok () := by
    rcases power with rfl | rfl
    · exact listed
    · exact listed
  exact Packed.reserve_sizes_iff.mp (Size.reserve_of_le (by decide) wide)

theorem canonicalOrder_eq (parts : List Nat) : s.canonicalOrder parts = parts.mergeSort (· ≥ ·) := by
  rcases power with rfl | rfl
  · rfl
  · rfl

theorem of_canonical {parts : List Nat} (member : parts ∈ s.Canonical (List.replicate order n)) :
    parts.length = order ∧ (∀ value ∈ parts, value < n) ∧ parts.Pairwise (· ≥ ·) ∧
      ∀ tuple : List Nat, tuple.Perm parts → ¬ s.Vanishes tuple := by
  rcases power with rfl | rfl
  · rw [canonical_symmetricPower] at member
    exact ⟨member.1, member.2.1, member.2.2, fun _ _ => id⟩
  · rw [canonical_exteriorPower] at member
    rcases Packed.pairwise_gt_iff.mp member.2.2 with ⟨ordered, distinct⟩
    exact ⟨member.1, member.2.1, ordered, fun tuple permuted => not_not.mpr (permuted.nodup_iff.mpr distinct)⟩

end IsPower

end IndexNotation.Space
