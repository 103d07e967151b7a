import IndexNotation.DirectSum
import IndexNotation.Proofs.Space.Dimension

namespace IndexNotation

/-- Ranges of the given lengths are laid end to end, and `place` stands `inside` from the start of range
number `n`. -/
def Lies (lengths : List Nat) (n inside place : Nat) : Prop :=
  ∃ length, lengths[n]? = some length ∧ inside < length ∧ place = (lengths.take n).sum + inside

theorem Lies.lt {lengths : List Nat} {n inside place length : Nat} (lies : Lies lengths n inside place)
    (stands : lengths[n]? = some length) : inside < length := by
  obtain ⟨other, found, small, _⟩ := lies
  cases stands.symm.trans found
  exact small

theorem exists_lies {lengths : List Nat} {place : Nat} (small : place < lengths.sum) :
    ∃ n inside, Lies lengths n inside place := by
  induction lengths generalizing place with
  | nil => exact absurd small (Nat.not_lt_zero place)
  | cons length lengths ih =>
      rw [List.sum_cons] at small
      by_cases first : place < length
      · exact ⟨0, place, length, rfl, first, (Nat.zero_add place).symm⟩
      · have rest : place - length < lengths.sum := by omega
        obtain ⟨n, inside, size, stands, within, offset⟩ := ih rest
        refine ⟨n + 1, inside, size, stands, within, ?_⟩
        rw [List.take_succ_cons, List.sum_cons]
        omega

namespace DirectSum

theorem dimension_directSum {summands : List Space} {lengths : List Nat} {d : Nat}
    (computed : Space.dimensions summands = .ok lengths) (sized : (Space.directSum summands).dimension = .ok d) :
    d = lengths.sum := by
  rw [Space.dimension, computed, ok_bind] at sized
  exact (Size.sum_eq_ok sized).1.symm

theorem locateFrom_of_lies {summands : List Space} {lengths : List Nat} {n inside rest : Nat}
    (sized : Space.dimensions summands = .ok lengths) (lies : Lies lengths n inside rest) (start first : Nat) :
    locateFrom start summands first rest = .ok (first + n, inside) := by
  obtain ⟨length, stands, within, offset⟩ := lies
  induction summands generalizing lengths n rest first with
  | nil =>
      cases sized
      cases stands
  | cons s summands ih =>
      obtain ⟨d, lengths, head, tail, rfl⟩ := List.forall₂_cons_left_iff.mp (Space.dimensions_eq_ok_iff.mp sized)
      rw [locateFrom, head, ok_bind]
      cases n with
      | zero =>
          cases stands
          have here : rest = inside := by simpa using offset
          rw [if_pos (here ▸ within), here]
          rfl
      | succ n =>
          rw [List.take_succ_cons, List.sum_cons] at offset
          have past : ¬ rest < d := by omega
          have later : rest - d = (lengths.take n).sum + inside := by omega
          rw [if_neg past, ih (Space.dimensions_eq_ok_iff.mpr tail) (first + 1) stands later]
          simp [Nat.add_assoc, Nat.add_comm 1]

theorem locate_of_lies {summands : List Space} {lengths : List Nat} {n inside component : Nat}
    (sized : Space.dimensions summands = .ok lengths) (lies : Lies lengths n inside component) :
    locate summands component = .ok (n, inside) := by
  have some : summands.isEmpty = false := by
    cases summands with
    | nil =>
        cases sized
        obtain ⟨_, absent, _⟩ := lies
        cases absent
    | cons => rfl
  rw [locate, some, if_neg Bool.false_ne_true, locateFrom_of_lies sized lies, Nat.zero_add]

theorem locateFrom_eq_ok {summands : List Space} {start first rest n inside : Nat}
    (found : locateFrom start summands first rest = .ok (n, inside)) :
    ∃ k s d, n = first + k ∧ summands[k]? = some s ∧ s.dimension = .ok d ∧ inside < d := by
  induction summands generalizing first rest with
  | nil => cases found
  | cons s summands ih =>
      obtain ⟨d, sized, found⟩ := bind_eq_ok_iff.mp found
      split at found
      · rename_i small
        cases found
        exact ⟨0, s, d, rfl, rfl, sized, small⟩
      · obtain ⟨k, s', d', rfl, stands, sized', small⟩ := ih found
        exact ⟨k + 1, s', d', by omega, stands, sized', small⟩

theorem locate_eq_ok {summands : List Space} {component n inside : Nat}
    (found : locate summands component = .ok (n, inside)) :
    ∃ s d, summands[n]? = some s ∧ s.dimension = .ok d ∧ inside < d := by
  rw [locate] at found
  split at found
  · cases found
  · obtain ⟨k, s, d, rfl, stands, sized, small⟩ := locateFrom_eq_ok found
    exact ⟨s, d, (Nat.zero_add k).symm ▸ stands, sized, small⟩

end DirectSum

end IndexNotation
