import IndexNotation.Proofs.Packed
import IndexNotation.Proofs.RowMajor
import Mathlib.Algebra.Group.Int.Defs
import Mathlib.Algebra.Group.Torsion
import Mathlib.Tactic.Ring

namespace IndexNotation

def Sign.ofExchanges (n : Nat) : Sign := if n % 2 = 0 then .positive else .negative

@[simp] theorem Sign.flip_ofExchanges (n : Nat) : (ofExchanges n).flip = ofExchanges (n + 1) := by
  rcases Nat.mod_two_eq_zero_or_one n with even | odd
  · simp [ofExchanges, flip, even, Nat.add_mod]
  · simp [ofExchanges, flip, odd, Nat.add_mod]

namespace Packed

/-- How many pairs of values stand in increasing order. -/
def inversions : List Nat → Nat
  | [] => 0
  | x :: rest => rest.countP (x < ·) + inversions rest

theorem countP_eq_zero_of_pairwise {x y : Nat} {rest : List Nat} (larger : ¬ x < y)
    (descending : (y :: rest).Pairwise (· ≥ ·)) : (y :: rest).countP (x < ·) = 0 := by
  apply List.countP_eq_zero.mpr
  intro z present
  have below : z ≤ y := by
    rcases List.mem_cons.mp present with rfl | later
    · exact Nat.le_refl z
    · exact (List.pairwise_cons.mp descending).1 z later
  simp only [decide_eq_true_eq]
  omega

theorem insertDescending_snd {x n : Nat} {sorted : List Nat} (descending : sorted.Pairwise (· ≥ ·)) :
    (insertDescending x (.ofExchanges n) sorted).2 = .ofExchanges (n + sorted.countP (x < ·)) := by
  induction sorted generalizing n with
  | nil => rfl
  | cons y rest ih =>
      rw [insertDescending]
      split
      · rename_i smaller
        have passed : (y :: rest).countP (x < ·) = rest.countP (x < ·) + 1 := by simp [smaller]
        simp only [Sign.flip_ofExchanges]
        rw [ih descending.of_cons, passed, Nat.add_assoc, Nat.add_comm 1]
      · rename_i larger
        rw [countP_eq_zero_of_pairwise larger descending, Nat.add_zero]

theorem sortDescending_snd (parts : List Nat) :
    (sortDescending parts).2 = .ofExchanges (inversions parts) := by
  induction parts with
  | nil => rfl
  | cons x rest ih =>
      rw [sortDescending]
      dsimp only
      rw [ih, insertDescending_snd (sortDescending_pairwise rest), inversions,
        (sortDescending_perm rest).countP_eq, Nat.add_comm]

theorem exists_repeat {sorted : List Nat} (repeats : hasEqualNeighbours sorted = true) :
    ∃ front x back, sorted = front ++ x :: x :: back := by
  induction sorted with
  | nil => cases repeats
  | cons x rest ih =>
      cases rest with
      | nil => cases repeats
      | cons y back =>
          rw [hasEqualNeighbours, Bool.or_eq_true, beq_iff_eq] at repeats
          rcases repeats with rfl | later
          · exact ⟨[], x, back, rfl⟩
          · obtain ⟨front, z, back, same⟩ := ih later
            exact ⟨x :: front, z, back, by rw [same, List.cons_append]⟩

section Exchange

variable {R : Type} [CommRing R] {dims : List Nat} {order n : Nat} {c : R} {f : List Nat → R}

/-- Exchanging two neighbouring values of a tuple multiplies `f` by `c`. -/
def ExchangesBy (c : R) (dims : List Nat) (f : List Nat → R) : Prop :=
  ∀ front x y back, RowMajor.Below (front ++ x :: y :: back) dims →
    f (front ++ x :: y :: back) = c * f (front ++ y :: x :: back)

theorem below_replicate_perm {first second : List Nat} (permuted : first.Perm second)
    (below : RowMajor.Below first (List.replicate order n)) :
    RowMajor.Below second (List.replicate order n) := by
  obtain ⟨length, each⟩ := RowMajor.below_replicate_iff.mp below
  refine RowMajor.below_replicate_iff.mpr ⟨permuted.length_eq.symm.trans length, ?_⟩
  exact fun value present => each value (permuted.mem_iff.mpr present)

theorem ExchangesBy.insertDescending (exchanges : ExchangesBy c (List.replicate order n) f) {x : Nat}
    {sorted front : List Nat} (descending : sorted.Pairwise (· ≥ ·))
    (below : RowMajor.Below (front ++ x :: sorted) (List.replicate order n)) (sign : Sign) :
    f (front ++ x :: sorted) =
      c ^ sorted.countP (x < ·) * f (front ++ (insertDescending x sign sorted).1) := by
  induction sorted generalizing front sign with
  | nil => simp [Packed.insertDescending]
  | cons y rest ih =>
      rw [Packed.insertDescending]
      split
      · rename_i smaller
        have passed : (y :: rest).countP (x < ·) = rest.countP (x < ·) + 1 := by simp [smaller]
        have swapped : RowMajor.Below ((front ++ [y]) ++ x :: rest) (List.replicate order n) := by
          apply below_replicate_perm _ below
          simpa using (List.Perm.swap y x rest).append_left front
        have rest := ih descending.of_cons swapped sign.flip
        simp only [List.append_assoc, List.singleton_append] at rest
        rw [exchanges front x y _ below, rest, passed]
        ring
      · rename_i larger
        rw [countP_eq_zero_of_pairwise larger descending, pow_zero, one_mul]

/-- A tuple has the value of its sorted order, times `c` for each pair that is out of order. -/
theorem ExchangesBy.eq_pow_inversions (exchanges : ExchangesBy c (List.replicate order n) f)
    (front : List Nat) {parts : List Nat}
    (below : RowMajor.Below (front ++ parts) (List.replicate order n)) :
    f (front ++ parts) = c ^ inversions parts * f (front ++ (sortDescending parts).1) := by
  induction parts generalizing front with
  | nil => simp [inversions, sortDescending]
  | cons x rest ih =>
      have sorted := sortDescending_perm rest
      have below' : RowMajor.Below (front ++ x :: (sortDescending rest).1) (List.replicate order n) :=
        below_replicate_perm ((sorted.symm.cons x).append_left front) below
      have tail := ih (front ++ [x]) (by simpa using below)
      have head := exchanges.insertDescending (sortDescending_pairwise rest) below' (sortDescending rest).2
      simp only [List.append_assoc, List.singleton_append] at tail
      rw [tail, head, inversions, ← sorted.countP_eq, sortDescending]
      ring

/-- A function that exchanges negate vanishes where a value repeats. -/
theorem ExchangesBy.eq_zero_of_not_nodup [IsAddTorsionFree R] (exchanges : ExchangesBy (-1) (List.replicate order n) f)
    {parts : List Nat} (below : RowMajor.Below parts (List.replicate order n)) (repeats : ¬ parts.Nodup) :
    f parts = 0 := by
  have sorted := sortDescending_perm parts
  have equal : hasEqualNeighbours (sortDescending parts).1 = true := by
    rw [hasEqualNeighbours_iff (sortDescending_pairwise parts), sorted.nodup_iff]
    exact repeats
  obtain ⟨front, x, back, same⟩ := exists_repeat equal
  have below' := below_replicate_perm sorted.symm below
  have negated := exchanges front x x back (same ▸ below')
  rw [neg_one_mul, self_eq_neg] at negated
  have whole := exchanges.eq_pow_inversions [] below
  rw [List.nil_append, List.nil_append, same, negated, mul_zero] at whole
  exact whole

end Exchange

end Packed

end IndexNotation
