import IndexNotation.Proofs.InnerProduct.Squared
import IndexNotation.Proofs.Summands

namespace IndexNotation

variable {α : Type}

variable [Scalar α]

theorem Metric.ofSummands_eq_ok {summands : List Space} {metrics : List (Metric α)}
    (made : ofSummands summands = .ok metrics) :
    List.Forall₂ (fun s metric => ofSpace s = .ok metric) summands metrics := by
  induction summands generalizing metrics with
  | nil =>
      cases made
      exact .nil
  | cons s summands ih =>
      rw [ofSummands] at made
      rcases bind_eq_ok_iff.mp made with ⟨metric, first, later⟩
      rcases bind_eq_ok_iff.mp later with ⟨others, rest, same⟩
      cases same
      exact .cons first (ih rest)

namespace InnerProduct

/-- Summand number `n` has the metric and the components given, which are there among those of the whole. -/
structure Stretch (lengths : List Nat) (metrics : List (Metric α)) (x : Array α) (n : Nat) (metric : Metric α)
    (y : Array α) : Prop where
  stands : lengths[n]? = some y.size
  kept : metrics[n]? = some metric
  window : ∀ k < y.size, x[(lengths.take n).sum + k]? = y[k]?

variable {summands : List Space} {lengths : List Nat} {metrics : List (Metric α)} {x y : Array α} {n m : Nat}
  {metric : Metric α}

omit [Scalar α] in
theorem Stretch.lies (stretch : Stretch lengths metrics x n metric y) {k : Nat} (small : k < y.size) :
    Lies lengths n k ((lengths.take n).sum + k) := ⟨y.size, stretch.stands, small, rfl⟩

section Pairs

variable (computed : Space.dimensions summands = .ok lengths)

include computed

variable (size : x.size = lengths.sum)

include size

end Pairs

end InnerProduct

namespace Tensor

variable {t u : Tensor α} {memory : Memory α} {summands : List Space} {lengths : List Nat} {n : Nat}

section Laid

variable (laid : t.Laid memory summands lengths)

include laid

omit [Scalar α] in
theorem Laid.value_summand (accepted : t.summand n = .ok u) {k : Nat} (small : k < u.components.length) :
    u.components.value memory k = t.components.value memory ((lengths.take n).sum + k) := by
  rcases laid.exists_of_summand accepted with ⟨length, _, _, windowed⟩
  rw [windowed] at small ⊢
  exact if_pos small

theorem Laid.stretch {metrics : List (Metric α)} {metric : Metric α} {x y : Array α}
    (accepted : t.summand n = .ok u) (onSummands : Metric.ofSummands summands = .ok metrics)
    (onSummand : Metric.ofSpace u.space = .ok metric) (made : t.array memory = .ok x)
    (made' : u.array memory = .ok y) : InnerProduct.Stretch lengths metrics x n metric y := by
  rcases laid.exists_of_summand accepted with ⟨length, stands, here, windowed⟩
  rcases array_eq_ok made with ⟨sized, components⟩
  rcases array_eq_ok made' with ⟨sized', components'⟩
  have counted : u.components.length = y.size :=
    Except.ok.inj ((laid.checked.summand accepted).length.symm.trans sized')
  have counted' : t.components.length = x.size := Except.ok.inj (laid.checked.length.symm.trans sized)
  have size : length = y.size := by
    rw [← counted, windowed]
    rfl
  subst size
  refine ⟨stands, ?_, ?_⟩
  · have each := Metric.ofSummands_eq_ok onSummands
    rcases List.getElem?_eq_some_iff.mp here with ⟨inside, same⟩
    have inside' : n < metrics.length := each.length_eq ▸ inside
    have found := each.get inside inside'
    rw [List.get_eq_getElem, List.get_eq_getElem, same] at found
    cases onSummand.symm.trans found
    exact List.getElem?_eq_getElem inside'
  · intro k small
    have stop := laid.stop_le stands
    rcases components' k small with ⟨b, found', stands'⟩
    rcases components ((lengths.take n).sum + k) (by omega) with ⟨a, found, stands⟩
    rw [laid.value_summand accepted (counted.symm ▸ small), found] at found'
    cases found'
    rw [stands, stands']

end Laid

section Norms

variable {parts : List (Tensor α)} {norms : List α} (checked : t.Checked memory)
  (split : List.Forall₂ (fun n part => t.summand n = .ok part) (List.range summands.length) parts)
  (computed : List.Forall₂ (fun part norm => part.squaredValue memory = .ok norm) parts norms)

include split computed

theorem exists_norm (inside : n < summands.length) :
    ∃ part ∈ parts, ∃ norm, t.summand n = .ok part ∧ part.squaredValue memory = .ok norm ∧ norms[n]? = some norm := by
  have inRange : n < (List.range summands.length).length := by rwa [List.length_range]
  have inParts : n < parts.length := split.length_eq ▸ inRange
  have inNorms : n < norms.length := computed.length_eq ▸ inParts
  have accepted := split.get inRange inParts
  rw [List.get_eq_getElem, List.getElem_range] at accepted
  exact ⟨parts[n], List.getElem_mem inParts, norms[n], accepted, computed.get inParts inNorms,
    List.getElem?_eq_getElem inNorms⟩

include checked

variable (sum : t.space.summands = some summands)

include sum

theorem exists_value {index : Nat} (inside : index < t.components.length) :
    ∃ x, t.components.value memory index = .ok x := by
  rcases checked.exists_laid sum with ⟨lengths, laid⟩
  rw [← laid.total.1] at inside
  rcases exists_lies inside with ⟨n, k, length, stands, small, rfl⟩
  rcases exists_norm split computed (laid.length_eq ▸ (List.getElem?_eq_some_iff.mp stands).1) with
    ⟨part, _, norm, accepted, value, _⟩
  rcases squaredValue_eq_ok value with ⟨_, y, _, _, made, _⟩
  rcases array_eq_ok made with ⟨sized, components⟩
  have size : part.components.length = y.size :=
    Except.ok.inj ((laid.checked.summand accepted).length.symm.trans sized)
  cases stands.symm.trans (laid.length_summand accepted)
  rcases components k (size ▸ small) with ⟨x, found, _⟩
  exact ⟨x, laid.value_summand accepted small ▸ found⟩

end Norms

end Tensor

end IndexNotation
