import IndexNotation.Counting
import IndexNotation.Proofs.Outcome
import Mathlib.Data.Nat.Choose.Basic
/-!
Binomial coefficients as the running product computes them. Each round makes the next coefficient of the last one, so
that every division is exact. The largest intermediate is the last one before the division, so whether a coefficient
overflows is read off that number alone.
-/
namespace IndexNotation.Counting

theorem choose_le_choose_below_half {n i j : Nat} (ordered : i ≤ j) (half : 2 * j ≤ n) :
    n.choose i ≤ n.choose j := by
  induction j, ordered using Nat.le_induction with
  | base => exact Nat.le_refl _
  | succ j _ ih =>
      have smaller := ih (by omega)
      have next : n.choose j ≤ n.choose (j + 1) := Nat.choose_le_succ_of_lt_half_left (by omega)
      exact Nat.le_trans smaller next

theorem choose_mul_sub (n i : Nat) : n.choose i * (n - i) = (i + 1) * n.choose (i + 1) := by
  rw [Nat.mul_comm (i + 1), Nat.choose_succ_right_eq]

theorem binomialFrom_eq {n count i : Nat} (half : 2 * (i + count) ≤ n) :
    binomialFrom n count i (n.choose i) =
      if count = 0 ∨ (i + count) * n.choose (i + count) < Size.bound
      then .ok (n.choose (i + count)) else .error .overflow := by
  induction count generalizing i with
  | zero => simp [binomialFrom]
  | succ count ih =>
      have shifted : i + 1 + count = i + (count + 1) := by omega
      have rest := ih (i := i + 1) (by omega)
      rw [shifted] at rest
      have largest : (i + 1) * n.choose (i + 1) ≤ (i + (count + 1)) * n.choose (i + (count + 1)) :=
        Nat.mul_le_mul (by omega) (choose_le_choose_below_half (by omega) half)
      rw [binomialFrom, Size.mul, Size.checked, choose_mul_sub]
      by_cases small : (i + 1) * n.choose (i + 1) < Size.bound
      · rw [if_pos small, ok_bind, Nat.mul_div_cancel_left _ (by omega), rest]
        by_cases last : count = 0
        · subst last
          simp [small]
        · simp [last]
      · have large : ¬ (i + (count + 1)) * n.choose (i + (count + 1)) < Size.bound := by omega
        simp [small, large]

/-- The last product before a division is a size. A coefficient that is zero is not multiplied out. -/
def Fits (n k : Nat) : Prop := k ≤ n → min k (n - k) * n.choose k < Size.bound

instance (n k : Nat) : Decidable (Fits n k) :=
  inferInstanceAs (Decidable (k ≤ n → min k (n - k) * n.choose k < Size.bound))

/-- The running product gives the binomial coefficient exactly when its last intermediate is a size. -/
theorem binomial_eq (n k : Nat) :
    binomial n k = if Fits n k then .ok (n.choose k) else .error .overflow := by
  rw [binomial]
  split
  · rename_i short
    have fits : Fits n k := fun within => absurd within (by omega)
    rw [if_pos fits, Nat.choose_eq_zero_of_lt short]
  · rename_i within
    have symmetric : n.choose (min k (n - k)) = n.choose k := by
      rcases Nat.le_total k (n - k) with small | small
      · rw [Nat.min_eq_left small]
      · rw [Nat.min_eq_right small, Nat.choose_symm (by omega)]
    have half : 2 * (0 + min k (n - k)) ≤ n := by omega
    have product := binomialFrom_eq half
    rw [Nat.zero_add, Nat.choose_zero_right, symmetric] at product
    rw [product]
    have positive : 0 < Size.bound := by decide
    have condition : (min k (n - k) = 0 ∨ min k (n - k) * n.choose k < Size.bound) ↔ Fits n k := by
      constructor
      · intro either _
        rcases either with zero | small
        · rw [zero, Nat.zero_mul]
          exact positive
        · exact small
      · intro fits
        exact Or.inr (fits (by omega))
    simp only [condition]

theorem binomial_eq_ok_iff {n k c : Nat} : binomial n k = .ok c ↔ Fits n k ∧ n.choose k = c := by
  rw [binomial_eq]
  split <;> simp [*]

theorem binomial_eq_error_iff {n k : Nat} {fault : Fault} :
    binomial n k = .error fault ↔ fault = .overflow ∧ ¬ Fits n k := by
  rw [binomial_eq]
  split <;> simp [*, eq_comm]

theorem Fits.mono {n k n' k' : Nat} (fits : Fits n k) (chosen : k' ≤ k)
    (left : n' + k ≤ n + k') : Fits n' k' := by
  intro within'
  have within : k ≤ n := by omega
  have coefficients : n'.choose k' ≤ n.choose k :=
    calc n'.choose k' ≤ (k' + (n - k)).choose k' := Nat.choose_le_choose k' (by omega)
      _ = (k' + (n - k)).choose (n - k) := by
        rw [← Nat.choose_symm (by omega), Nat.add_sub_cancel_left]
      _ ≤ n.choose (n - k) := Nat.choose_le_choose (n - k) (by omega)
      _ = n.choose k := Nat.choose_symm within
  have counts : min k' (n' - k') ≤ min k (n - k) := by omega
  exact Nat.lt_of_le_of_lt (Nat.mul_le_mul counts coefficients) (fits within)

section Rounds

/-- The counter and the product of `binomial n k` before each of its rounds and after the last one. -/
inductive Running (n k : Nat) : (i product : Nat) → Prop
  | start (within : k ≤ n) : Running n k 0 1
  | round {i product grown : Nat} (reached : Running n k i product) (more : i < min k (n - k))
      (multiplied : Size.mul product (n - i) = .ok grown) : Running n k (i + 1) (grown / (i + 1))

variable {n k i product grown : Nat}

theorem Running.eq_choose (reached : Running n k i product) : product = n.choose i := by
  induction reached with
  | start within => exact (Nat.choose_zero_right n).symm
  | @round i product grown _ _ multiplied ih =>
      obtain ⟨rfl, _⟩ := Size.mul_eq_ok_iff.mp multiplied
      rw [ih, choose_mul_sub, Nat.mul_div_cancel_left _ (Nat.succ_pos i)]

theorem Running.dvd (reached : Running n k i product) (multiplied : Size.mul product (n - i) = .ok grown) :
    i + 1 ∣ grown := by
  obtain ⟨rfl, _⟩ := Size.mul_eq_ok_iff.mp multiplied
  rw [reached.eq_choose, choose_mul_sub]
  exact Nat.dvd_mul_right _ _

/-- What the rounds to come make of the product is the coefficient that was asked for. -/
theorem Running.binomial_eq_rest (reached : Running n k i product) :
    i ≤ min k (n - k) ∧ binomial n k = binomialFrom n (min k (n - k) - i) i product := by
  induction reached with
  | start within =>
      refine ⟨Nat.zero_le _, ?_⟩
      rw [binomial, if_neg (Nat.not_lt.mpr within), Nat.sub_zero]
  | @round i product grown _ more multiplied ih =>
      refine ⟨more, ih.2.trans ?_⟩
      obtain ⟨rounds, left⟩ : ∃ rounds, min k (n - k) - i = rounds + 1 := ⟨min k (n - k) - i - 1, by omega⟩
      have fewer : min k (n - k) - (i + 1) = rounds := by omega
      rw [left, fewer, binomialFrom, multiplied, ok_bind]

theorem not_fits_iff (within : k ≤ n) :
    ¬ Fits n k ↔ 1 ≤ min k (n - k) ∧ Size.bound ≤ min k (n - k) * n.choose k := by
  have positive : 0 < Size.bound := by decide
  rw [Fits, Classical.not_imp, Nat.not_lt]
  constructor
  · rintro ⟨_, large⟩
    exact ⟨Nat.pos_of_mul_pos_right (Nat.lt_of_lt_of_le positive large), large⟩
  · rintro ⟨_, large⟩
    exact ⟨within, large⟩

/-- The coefficient is given exactly, zero where more is chosen than there is, or the running product overflows. Before
each of its rounds the result is what the rounds to come make of the product, and the division of the round leaves no
remainder. The overflow comes just where something is both chosen and left out and the coefficient, times the smaller of
these numbers, is no size, though the coefficient may be one. -/
theorem binomial_exact (n k : Nat) :
    (binomial n k = .ok (n.choose k) ∨ binomial n k = .error .overflow) ∧
    (n < k → binomial n k = .ok 0) ∧
    (∀ i product, Running n k i product → i ≤ min k (n - k) ∧
      binomial n k = binomialFrom n (min k (n - k) - i) i product ∧
      ∀ grown, Size.mul product (n - i) = .ok grown → i + 1 ∣ grown) ∧
    (k ≤ n → (binomial n k = .error .overflow ↔
      1 ≤ min k (n - k) ∧ Size.bound ≤ min k (n - k) * n.choose k)) := by
  refine ⟨?_, ?_, ?_, ?_⟩
  · rw [binomial_eq]
    split
    · exact Or.inl rfl
    · exact Or.inr rfl
  · intro short
    rw [binomial, if_pos short]
  · intro i product reached
    obtain ⟨rounds, rest⟩ := reached.binomial_eq_rest
    exact ⟨rounds, rest, fun grown multiplied => reached.dvd multiplied⟩
  · intro within
    rw [binomial_eq_error_iff, not_fits_iff within]
    exact and_iff_right rfl

theorem binomial_exact_at_bound :
    Nat.choose 62 31 = 465428353255261088 ∧ Size.bound ≤ 31 * Nat.choose 63 31 ∧
      Nat.choose 63 31 < Size.bound := by
  have fits : binomial 62 31 = .ok 465428353255261088 := rfl
  have overflows : binomial 63 31 = .error .overflow := rfl
  obtain ⟨_, _, _, boundary⟩ := binomial_exact 63 31
  refine ⟨(binomial_eq_ok_iff.mp fits).2, ((boundary (by decide)).mp overflows).2, ?_⟩
  have below : binomial 62 30 = .ok 450883717216034179 := rfl
  rw [Nat.choose_succ_succ, (binomial_eq_ok_iff.mp fits).2, (binomial_eq_ok_iff.mp below).2]
  decide

end Rounds

end IndexNotation.Counting
