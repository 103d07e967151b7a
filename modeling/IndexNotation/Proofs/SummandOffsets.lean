import IndexNotation.Proofs.DirectSum
import IndexNotation.Proofs.Space.Exact
import Mathlib.Algebra.BigOperators.Group.List.Basic

namespace IndexNotation.DirectSum

variable {summands : List Space} {lengths : List Nat} {n component : Nat}

theorem exists_lengths {total : Nat} (sized : (Space.directSum summands).dimension = .ok total) :
    ∃ lengths, Space.dimensions summands = .ok lengths ∧ lengths.sum = total ∧ total < Size.bound := by
  rw [Space.dimension] at sized
  obtain ⟨lengths, computed, summed⟩ := bind_eq_ok_iff.mp sized
  exact ⟨lengths, computed, Size.sum_eq_ok summed⟩

section Sized

variable (sized : Space.dimensions summands = .ok lengths)

include sized

theorem offset_eq (small : lengths.sum < Size.bound) (inside : n < summands.length) :
    offset summands n = .ok (lengths.take n).sum := by
  have before : Space.dimensions (summands.take n) = .ok (lengths.take n) :=
    Space.dimensions_eq_ok_iff.mpr (List.forall₂_take n (Space.dimensions_eq_ok_iff.mp sized))
  have split : (lengths.take n).sum + (lengths.drop n).sum = lengths.sum := List.sum_take_add_sum_drop lengths n
  rw [offset, if_pos inside, before, ok_bind, Size.sum_of_lt (by omega)]

theorem offset_eq_error_iff (small : lengths.sum < Size.bound) {fault : Fault} :
    offset summands n = .error fault ↔
      summands.length ≤ n ∧ fault = .refused (.pastListEnd n summands.length) := by
  by_cases inside : n < summands.length
  · rw [offset_eq sized small inside]
    constructor
    · intro absent
      cases absent
    · rintro ⟨past, _⟩
      omega
  · rw [offset, if_neg inside, refuse]
    constructor
    · intro failed
      cases failed
      exact ⟨Nat.le_of_not_lt inside, rfl⟩
    · rintro ⟨_, rfl⟩
      rfl

theorem locateFrom_past {rest : Nat} (past : lengths.sum ≤ rest) (start first : Nat) :
    locateFrom start summands first rest = .error (.offsetTooLarge start (start - (rest - lengths.sum))) := by
  induction summands generalizing lengths rest first with
  | nil =>
      cases sized
      rfl
  | cons s summands ih =>
      obtain ⟨d, lengths, head, tail, rfl⟩ := List.forall₂_cons_left_iff.mp (Space.dimensions_eq_ok_iff.mp sized)
      rw [List.sum_cons] at past
      have beyond : ¬ rest < d := by omega
      have left : lengths.sum ≤ rest - d := by omega
      rw [locateFrom, head, ok_bind, if_neg beyond, ih (Space.dimensions_eq_ok_iff.mpr tail) left,
        List.sum_cons, Nat.sub_sub]

theorem locate_past (some : summands ≠ []) (past : lengths.sum ≤ component) :
    locate summands component = .error (.offsetTooLarge component lengths.sum) := by
  have nonempty : ¬ summands.isEmpty := fun none => some (List.isEmpty_iff.mp none)
  rw [locate, if_neg nonempty, locateFrom_past sized past, Nat.sub_sub_self past]

theorem locate_eq_error_iff {fault : Fault} :
    locate summands component = .error fault ↔
      summands = [] ∧ fault = .emptyDirectSum ∨
        summands ≠ [] ∧ lengths.sum ≤ component ∧ fault = .offsetTooLarge component lengths.sum := by
  by_cases none : summands = []
  · subst none
    rw [locate, if_pos List.isEmpty_nil]
    simp [eq_comm]
  · by_cases small : component < lengths.sum
    · obtain ⟨n, inside, lies⟩ := exists_lies small
      rw [locate_of_lies sized lies]
      constructor
      · intro absent
        cases absent
      · rintro (⟨absent, _⟩ | ⟨_, past, _⟩)
        · exact absurd absent none
        · omega
    · have past := Nat.le_of_not_lt small
      rw [locate_past sized none past]
      simp [none, past, eq_comm]

end Sized

/-- The search and the start undo each other. Below the dimension of the sum the search ends in a summand that has the
component, at what is left of it behind that summand's start; and from a component of any summand it finds just that
one, passing over the empty summands that start there too. The search fails only without summands and past the last
one, the start only for a summand that is not there. -/
theorem locate_inverts_offset {total : Nat} (sized : (Space.directSum summands).dimension = .ok total) :
    (∀ component < total, ∃ n inside s length start, locate summands component = .ok (n, inside) ∧
      summands[n]? = some s ∧ s.dimension = .ok length ∧ inside < length ∧
      offset summands n = .ok start ∧ start + inside = component) ∧
    (∀ n s length, summands[n]? = some s → s.dimension = .ok length →
      ∃ start, offset summands n = .ok start ∧
        ∀ inside < length, locate summands (start + inside) = .ok (n, inside)) ∧
    (∀ component fault, locate summands component = .error fault ↔
      summands = [] ∧ fault = .emptyDirectSum ∨
        summands ≠ [] ∧ total ≤ component ∧ fault = .offsetTooLarge component total) ∧
    ∀ n fault, offset summands n = .error fault ↔
      summands.length ≤ n ∧ fault = .refused (.pastListEnd n summands.length) := by
  obtain ⟨lengths, computed, rfl, small⟩ := exists_lengths sized
  refine ⟨?_, ?_, fun _ _ => locate_eq_error_iff computed, fun _ _ => offset_eq_error_iff computed small⟩
  · intro component below
    obtain ⟨n, inside, length, stands, within, place⟩ := exists_lies below
    obtain ⟨s, here, own⟩ := (Space.getElem?_dimensions_iff computed).mp stands
    have bound : n < summands.length := (List.getElem?_eq_some_iff.mp here).1
    exact ⟨n, inside, s, length, _, locate_of_lies computed ⟨length, stands, within, place⟩, here, own, within,
      offset_eq computed small bound, place.symm⟩
  · intro n s length here own
    have stands := (Space.getElem?_dimensions_iff computed).mpr ⟨s, here, own⟩
    have bound : n < summands.length := (List.getElem?_eq_some_iff.mp here).1
    exact ⟨_, offset_eq computed small bound, fun inside within =>
      locate_of_lies computed ⟨length, stands, within, rfl⟩⟩

theorem locate_inverts_offset_skipping :
    let summands : List Space := [.standard 2 "A", .standard 0 "B", .standard 3 "C", .standard 1 "D"]
    (Space.directSum summands).dimension = .ok 6 ∧ offset summands 1 = .ok 2 ∧ offset summands 2 = .ok 2 ∧
      locate summands 2 = .ok (2, 0) ∧ locate summands 6 = .error (.offsetTooLarge 6 6) ∧
      offset summands 4 = .error (.refused (.pastListEnd 4 4)) := by
  intro summands
  have sized : (Space.directSum summands).dimension = .ok 6 := rfl
  obtain ⟨_, back, past, absent⟩ := locate_inverts_offset sized
  obtain ⟨start, begun, found⟩ := back 2 (.standard 3 "C") 3 rfl rfl
  have two : offset summands 2 = .ok 2 := rfl
  cases begun.symm.trans two
  exact ⟨sized, rfl, two, found 0 (by decide), (past 6 _).mpr (Or.inr ⟨by simp [summands], by decide, rfl⟩),
    (absent 4 _).mpr ⟨by decide, rfl⟩⟩

end IndexNotation.DirectSum
