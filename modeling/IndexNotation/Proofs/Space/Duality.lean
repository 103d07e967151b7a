import IndexNotation.Proofs.Space.Dimension
import IndexNotation.Space.Index
/-!
Duality against every view of a space. The dual replaces each based space and leaves the shape alone, so the
views of the dual are the duals of the views, whatever reads only the shape reads the same, and a space is its own
dual only when there is nothing to replace.
-/
namespace IndexNotation

theorem BasedSpace.dual_ne_self (v : BasedSpace) : v.dual ≠ v := by
  intro same
  have flag : (!v.isDual) = v.isDual := congrArg BasedSpace.isDual same
  exact Bool.not_ne_self v.isDual flag

namespace Space

theorem tensorFactors_dual (s : Space) : s.dual.tensorFactors = s.tensorFactors.map (·.map dual) := by
  cases s <;> simp [dual, tensorFactors, dualAll_eq_map]

theorem splitFactors_dual (s : Space) : s.dual.splitFactors = s.splitFactors.map (·.map dual) := by
  cases s <;> simp [dual, splitFactors, dualAll_eq_map]

theorem summands_dual (s : Space) : s.dual.summands = s.summands.map (·.map dual) := by
  cases s <;> simp [dual, summands, dualAll_eq_map]

mutual

theorem flattened_dual (s : Space) : s.dual.flattened = s.flattened.map dual := by
  cases s with
  | tensorProduct factors => rw [dual, flattened, flattened, flattenedAll_dualAll factors]
  | tensorPower order factor =>
      rw [dual, flattened, flattened, flattened_dual factor, List.map_flatten, List.map_replicate]
  | based v => rfl
  | symmetricPower order factor => rfl
  | exteriorPower order factor => rfl
  | directSum summands => rfl
  | diagonal left right => rfl

theorem flattenedAll_dualAll (spaces : List Space) :
    flattenedAll (dualAll spaces) = (flattenedAll spaces).map dual := by
  cases spaces with
  | nil => rfl
  | cons s rest =>
      rw [dualAll, flattenedAll, flattenedAll, flattened_dual s, flattenedAll_dualAll rest, List.map_append]

end

mutual

theorem reserveFlattened_dual (s : Space) : s.dual.reserveFlattened = s.reserveFlattened := by
  cases s with
  | tensorProduct factors =>
      rw [dual, reserveFlattened, reserveFlattened, reserveAllFlattened_dualAll factors]
  | tensorPower order factor => rw [dual, reserveFlattened, reserveFlattened, reserveFlattened_dual factor]
  | based _ | symmetricPower _ _ | exteriorPower _ _ | directSum _ | diagonal _ _ => rfl

theorem reserveAllFlattened_dualAll (spaces : List Space) :
    reserveAllFlattened (dualAll spaces) = reserveAllFlattened spaces := by
  cases spaces with
  | nil => rfl
  | cons s rest =>
      rw [dualAll, reserveAllFlattened, reserveAllFlattened, reserveFlattened_dual s,
        reserveAllFlattened_dualAll rest]

end

theorem reserveSplitFactors_dual (s : Space) : s.dual.reserveSplitFactors = s.reserveSplitFactors := by
  cases s <;> rfl

mutual

/-- A basis and its dual have one name, so neither is standard without the other. -/
theorem isEuclidean_dual (s : Space) : s.dual.isEuclidean = s.isEuclidean := by
  cases s with
  | based v => rfl
  | tensorProduct factors => rw [dual, isEuclidean, isEuclidean, allEuclidean_dualAll factors]
  | tensorPower order factor => rw [dual, isEuclidean, isEuclidean, isEuclidean_dual factor]
  | symmetricPower order factor => rw [dual, isEuclidean, isEuclidean, isEuclidean_dual factor]
  | exteriorPower order factor => rw [dual, isEuclidean, isEuclidean, isEuclidean_dual factor]
  | directSum summands => rw [dual, isEuclidean, isEuclidean, allEuclidean_dualAll summands]
  | diagonal left right =>
      rw [dual, isEuclidean, isEuclidean, isEuclidean_dual left, isEuclidean_dual right]

theorem allEuclidean_dualAll (spaces : List Space) : allEuclidean (dualAll spaces) = allEuclidean spaces := by
  cases spaces with
  | nil => rfl
  | cons s rest => rw [dualAll, allEuclidean, allEuclidean, isEuclidean_dual s, allEuclidean_dualAll rest]

end

theorem splitDimensions_dual (s : Space) : s.dual.splitDimensions = s.splitDimensions := by
  rw [splitDimensions, splitDimensions, splitFactors_dual, dimension_dual]
  cases s.splitFactors with
  | none => rfl
  | some factors =>
      dsimp only [Option.map_some]
      rw [← dualAll_eq_map, dimensions_dualAll]

theorem bundleIndex_dual (s : Space) (parts : List Nat) : s.dual.bundleIndex parts = s.bundleIndex parts := by
  have shape := splitDimensions_dual s
  have room := reserveSplitFactors_dual s
  cases s with
  | symmetricPower order factor => rfl
  | exteriorPower order factor => rfl
  | diagonal left right => rfl
  | based _ | tensorProduct _ | tensorPower _ _ | directSum _ =>
      rw [dual] at shape room ⊢
      rw [bundleIndex, bundleIndex, shape, room] <;> simp

theorem splitIndex_dual (s : Space) (flat : Nat) : s.dual.splitIndex flat = s.splitIndex flat := by
  have shape := splitDimensions_dual s
  have room := reserveSplitFactors_dual s
  cases s with
  | symmetricPower order factor => rfl
  | exteriorPower order factor => rfl
  | diagonal left right => rfl
  | based _ | tensorProduct _ | tensorPower _ _ | directSum _ =>
      rw [dual] at shape room ⊢
      rw [splitIndex, splitIndex, shape, room] <;> simp

mutual

def basedSpaces : Space → List BasedSpace
  | .based v => [v]
  | .tensorProduct factors => basedSpacesAll factors
  | .tensorPower _ factor => basedSpaces factor
  | .symmetricPower _ factor => basedSpaces factor
  | .exteriorPower _ factor => basedSpaces factor
  | .directSum summands => basedSpacesAll summands
  | .diagonal left right => basedSpaces left ++ basedSpaces right

def basedSpacesAll : List Space → List BasedSpace
  | [] => []
  | s :: rest => basedSpaces s ++ basedSpacesAll rest

end

mutual

theorem basedSpaces_dual (s : Space) : s.dual.basedSpaces = s.basedSpaces.map BasedSpace.dual := by
  cases s with
  | based v => rfl
  | tensorProduct factors => rw [dual, basedSpaces, basedSpaces, basedSpacesAll_dualAll factors]
  | tensorPower order factor => rw [dual, basedSpaces, basedSpaces, basedSpaces_dual factor]
  | symmetricPower order factor => rw [dual, basedSpaces, basedSpaces, basedSpaces_dual factor]
  | exteriorPower order factor => rw [dual, basedSpaces, basedSpaces, basedSpaces_dual factor]
  | directSum summands => rw [dual, basedSpaces, basedSpaces, basedSpacesAll_dualAll summands]
  | diagonal left right =>
      rw [dual, basedSpaces, basedSpaces, basedSpaces_dual left, basedSpaces_dual right, List.map_append]

theorem basedSpacesAll_dualAll (spaces : List Space) :
    basedSpacesAll (dualAll spaces) = (basedSpacesAll spaces).map BasedSpace.dual := by
  cases spaces with
  | nil => rfl
  | cons s rest =>
      rw [dualAll, basedSpacesAll, basedSpacesAll, basedSpaces_dual s, basedSpacesAll_dualAll rest,
        List.map_append]

end

mutual

theorem dual_eq_self_of_basedSpaces (s : Space) (empty : s.basedSpaces = []) : s.dual = s := by
  cases s with
  | based v => cases empty
  | tensorProduct factors => rw [dual, dualAll_eq_self_of_basedSpaces factors empty]
  | tensorPower order factor => rw [dual, dual_eq_self_of_basedSpaces factor empty]
  | symmetricPower order factor => rw [dual, dual_eq_self_of_basedSpaces factor empty]
  | exteriorPower order factor => rw [dual, dual_eq_self_of_basedSpaces factor empty]
  | directSum summands => rw [dual, dualAll_eq_self_of_basedSpaces summands empty]
  | diagonal left right =>
      obtain ⟨first, second⟩ := List.append_eq_nil_iff.mp empty
      rw [dual, dual_eq_self_of_basedSpaces left first, dual_eq_self_of_basedSpaces right second]

theorem dualAll_eq_self_of_basedSpaces (spaces : List Space) (empty : basedSpacesAll spaces = []) :
    dualAll spaces = spaces := by
  cases spaces with
  | nil => rfl
  | cons s rest =>
      obtain ⟨first, later⟩ := List.append_eq_nil_iff.mp empty
      rw [dualAll, dual_eq_self_of_basedSpaces s first, dualAll_eq_self_of_basedSpaces rest later]

end

/-- The first based space that occurs is not the first of the dual. -/
theorem dual_eq_self_iff {s : Space} : s.dual = s ↔ s.basedSpaces = [] := by
  refine ⟨fun same => ?_, dual_eq_self_of_basedSpaces s⟩
  have mapped : s.basedSpaces = s.basedSpaces.map BasedSpace.dual := by rw [← basedSpaces_dual, same]
  cases occurring : s.basedSpaces with
  | nil => rfl
  | cons v rest =>
      rw [occurring, List.map_cons] at mapped
      exact absurd (List.cons.inj mapped).1.symm (BasedSpace.dual_ne_self v)

/-- Duality is an involution that commutes with the factors, the flattening and the summands, and that neither the
dimension nor an index map can tell. Natural pairing is symmetric, and reflexive only where no based space
occurs. -/
theorem duality (s t : Space) :
    s.dual.dual = s ∧
      s.dual.tensorFactors = s.tensorFactors.map (·.map dual) ∧
      s.dual.splitFactors = s.splitFactors.map (·.map dual) ∧
      s.dual.flattened = s.flattened.map dual ∧
      s.dual.summands = s.summands.map (·.map dual) ∧
      s.dual.dimension = s.dimension ∧
      s.dual.isEuclidean = s.isEuclidean ∧
      (∀ parts, s.dual.bundleIndex parts = s.bundleIndex parts) ∧
      (∀ flat, s.dual.splitIndex flat = s.splitIndex flat) ∧
      (s.pairsWith t ↔ t.pairsWith s) ∧
      (s.pairsWith s ↔ s.basedSpaces = []) :=
  ⟨dual_dual s, tensorFactors_dual s, splitFactors_dual s, flattened_dual s, summands_dual s, dimension_dual s,
    isEuclidean_dual s, bundleIndex_dual s, splitIndex_dual s, pairsWith_comm, pairsWith_iff.trans dual_eq_self_iff⟩

end Space

end IndexNotation
