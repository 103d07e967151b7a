import IndexNotation.Proofs.Space.Orders
/-!
The exact dimension of a space, a number of any size. A dimension is computed through sizes only, so it is that
number or it overflows, and it overflows just where a number on the way is no size.
-/
namespace IndexNotation

namespace Size

/-- The outcome is the number where it fits, and an overflow where it does not. -/
def Exact {β : Type} (fits : Prop) (number : β) (outcome : Except Fault β) : Prop :=
  fits ∧ outcome = .ok number ∨ ¬ fits ∧ outcome = .error .overflow

namespace Exact

variable {β γ : Type} {fits more : Prop} {b : β} {c : γ} {outcome : Except Fault β}

theorem bind {f : β → Except Fault γ} (first : Exact fits b outcome) (rest : Exact more c (f b)) :
    Exact (fits ∧ more) c (outcome >>= f) := by
  rcases first with ⟨holds, rfl⟩ | ⟨broken, rfl⟩
  · rcases rest with ⟨also, made⟩ | ⟨broken, failed⟩
    · exact Or.inl ⟨⟨holds, also⟩, made⟩
    · exact Or.inr ⟨fun both => broken both.2, failed⟩
  · exact Or.inr ⟨fun both => broken both.1, rfl⟩

theorem congr (exact : Exact fits b outcome) (same : fits ↔ more) : Exact more b outcome := by
  rw [Exact, ← same]
  exact exact

theorem map (exact : Exact fits b outcome) (g : β → γ) : Exact fits (g b) (do return g (← outcome)) :=
  (exact.bind (c := g b) (f := fun b => pure (g b)) (Or.inl ⟨trivial, rfl⟩)).congr (and_iff_left trivial)

theorem eq_overflow (exact : Exact fits b outcome) {fault : Fault} (failed : outcome = .error fault) :
    fault = .overflow := by
  rcases exact with ⟨_, made⟩ | ⟨_, overflow⟩
  · cases made.symm.trans failed
  · cases overflow.symm.trans failed
    rfl

end Exact

theorem exact_checked (n : Nat) : Exact (n < bound) n (checked n) := by
  by_cases small : n < bound
  · exact Or.inl ⟨small, checked_eq_ok_iff.mpr ⟨rfl, small⟩⟩
  · exact Or.inr ⟨small, if_neg small⟩

theorem exact_pow (base exponent : Nat) : Exact (base ^ exponent < bound) (base ^ exponent) (pow base exponent) := by
  by_cases small : base ^ exponent < bound
  · exact Or.inl ⟨small, pow_eq_ok_iff.mpr ⟨rfl, small⟩⟩
  · refine Or.inr ⟨small, ?_⟩
    cases computed : pow base exponent with
    | ok n =>
        rcases pow_eq_ok_iff.mp computed with ⟨rfl, below⟩
        exact absurd below small
    | error fault =>
        unfold pow at computed
        split at computed
        · cases computed
        · split at computed
          · exact computed.symm
          · rw [checked_eq_error computed]

theorem exact_foldlM_add (sizes : List Nat) {acc : Nat} (small : acc < bound) :
    Exact (acc + sizes.sum < bound) (acc + sizes.sum) (sizes.foldlM add acc) := by
  induction sizes generalizing acc with
  | nil => exact Or.inl ⟨small, rfl⟩
  | cons size sizes ih =>
      rw [List.foldlM_cons, List.sum_cons, ← Nat.add_assoc]
      rcases exact_checked (acc + size) with ⟨next, added⟩ | ⟨large, failed⟩
      · rw [add, added]
        exact ih next
      · rw [add, failed]
        exact Or.inr ⟨fun below => large (Nat.lt_of_le_of_lt (Nat.le_add_right _ _) below), rfl⟩

theorem exact_sum (sizes : List Nat) : Exact (sizes.sum < bound) sizes.sum (sum sizes) := by
  have folded := exact_foldlM_add sizes (show 0 < bound by decide)
  rwa [Nat.zero_add] at folded

theorem sum_of_lt {sizes : List Nat} (small : sizes.sum < bound) : sum sizes = .ok sizes.sum := by
  rcases exact_sum sizes with ⟨_, computed⟩ | ⟨large, _⟩
  · exact computed
  · exact absurd small large

theorem exact_foldlM_mul (sizes : List Nat) {acc : Nat} (small : acc < bound) :
    Exact (∀ k, acc * (sizes.take k).prod < bound) (acc * sizes.prod) (sizes.foldlM mul acc) := by
  induction sizes generalizing acc with
  | nil => exact Or.inl ⟨by simpa using small, by simp [pure, Except.pure]⟩
  | cons size sizes ih =>
      have steps : (∀ k, acc * ((size :: sizes).take k).prod < bound) ↔
          ∀ k, acc * size * (sizes.take k).prod < bound := by
        constructor
        · intro all k
          simpa [Nat.mul_assoc] using all (k + 1)
        · rintro all (_ | k)
          · simpa using small
          · simpa [Nat.mul_assoc] using all k
      rw [List.foldlM_cons, List.prod_cons, ← Nat.mul_assoc]
      rcases exact_checked (acc * size) with ⟨next, multiplied⟩ | ⟨large, failed⟩
      · rw [mul, multiplied]
        exact (ih next).congr steps.symm
      · rw [mul, failed]
        exact Or.inr ⟨fun all => large (by simpa using steps.mp all 0), rfl⟩

theorem exact_product (sizes : List Nat) :
    Exact (∀ k, (sizes.take k).prod < bound) sizes.prod (product sizes) := by
  have folded := exact_foldlM_mul sizes (show 1 < bound by decide)
  simp only [Nat.one_mul] at folded
  exact folded

end Size

namespace Counting

theorem exact_binomial (n k : Nat) : Size.Exact (Fits n k) (n.choose k) (binomial n k) := by
  rw [binomial_eq]
  by_cases fits : Fits n k
  · exact Or.inl ⟨fits, if_pos fits⟩
  · exact Or.inr ⟨fits, if_neg fits⟩

theorem exact_symmetricDimension (order n : Nat) :
    Size.Exact (n = 0 ∨ n + order < Size.bound ∧ Fits (n + order - 1) order) ((n + order - 1).choose order)
      (symmetricDimension order n) := by
  rw [symmetricDimension]
  by_cases none : n = 0
  · subst none
    refine Or.inl ⟨Or.inl rfl, ?_⟩
    cases order with
    | zero => rfl
    | succ order => simp
  · rw [if_neg none]
    have added := Size.exact_checked (n + order)
    exact (added.bind (exact_binomial _ order)).congr (by simp [none])

end Counting

namespace Space

mutual

def count : Space → Nat
  | .based v => v.size
  | .tensorProduct factors => (counts factors).prod
  | .tensorPower order factor => factor.count ^ order
  | .symmetricPower order factor => (factor.count + order - 1).choose order
  | .exteriorPower order factor => factor.count.choose order
  | .directSum summands => (counts summands).sum
  | .diagonal left right => min left.count right.count

def counts : List Space → List Nat
  | [] => []
  | s :: rest => s.count :: counts rest

end

mutual

/-- Every number that the dimension is computed through is a size. -/
def Sized : Space → Prop
  | .based v => v.size < Size.bound
  | .tensorProduct factors => AllSized factors ∧ ∀ k, ((counts factors).take k).prod < Size.bound
  | .tensorPower order factor => factor.Sized ∧ factor.count ^ order < Size.bound
  | .symmetricPower order factor => factor.Sized ∧
    (factor.count = 0 ∨
      factor.count + order < Size.bound ∧ Counting.Fits (factor.count + order - 1) order)
  | .exteriorPower order factor => factor.Sized ∧ Counting.Fits factor.count order
  | .directSum summands => AllSized summands ∧ (counts summands).sum < Size.bound
  | .diagonal left right => left.Sized ∧ right.Sized

def AllSized : List Space → Prop
  | [] => True
  | s :: rest => s.Sized ∧ AllSized rest

end

mutual

theorem exact_dimension (s : Space) (fits : s.OrdersFit) : Size.Exact s.Sized s.count s.dimension := by
  match s with
  | .based v => exact Size.exact_checked v.size
  | .tensorProduct factors =>
      rw [dimension]
      exact (exact_dimensions factors fits).bind (Size.exact_product (counts factors))
  | .tensorPower order factor =>
      rw [dimension, Nat.mod_eq_of_lt fits.1]
      exact (exact_dimension factor fits.2).bind (Size.exact_pow factor.count order)
  | .symmetricPower order factor =>
      rw [dimension]
      exact (exact_dimension factor fits).bind (Counting.exact_symmetricDimension order factor.count)
  | .exteriorPower order factor =>
      rw [dimension]
      exact (exact_dimension factor fits).bind (Counting.exact_binomial factor.count order)
  | .directSum summands =>
      rw [dimension]
      exact (exact_dimensions summands fits).bind (Size.exact_sum (counts summands))
  | .diagonal left right =>
      rw [dimension]
      exact (exact_dimension left fits.1).bind ((exact_dimension right fits.2).map (min left.count))

theorem exact_dimensions (spaces : List Space) (fits : AllFit spaces) :
    Size.Exact (AllSized spaces) (counts spaces) (dimensions spaces) := by
  match spaces with
  | [] => exact Or.inl ⟨trivial, rfl⟩
  | s :: rest =>
      rw [dimensions]
      exact (exact_dimension s fits.1).bind ((exact_dimensions rest fits.2).map (s.count :: ·))

end

mutual

theorem dimension_eq_error {s : Space} {fault : Fault} (failed : s.dimension = .error fault) :
    fault = .overflow := by
  match s with
  | .based v => exact (Size.exact_checked v.size).eq_overflow failed
  | .tensorProduct factors =>
      rcases bind_eq_error_iff.mp failed with inside | ⟨dims, _, product⟩
      · exact dimensions_eq_error inside
      · exact (Size.exact_product dims).eq_overflow product
  | .tensorPower order factor =>
      rcases bind_eq_error_iff.mp failed with inside | ⟨n, _, power⟩
      · exact dimension_eq_error inside
      · exact (Size.exact_pow n _).eq_overflow power
  | .symmetricPower order factor =>
      rcases bind_eq_error_iff.mp failed with inside | ⟨n, _, counting⟩
      · exact dimension_eq_error inside
      · exact (Counting.exact_symmetricDimension order n).eq_overflow counting
  | .exteriorPower order factor =>
      rcases bind_eq_error_iff.mp failed with inside | ⟨n, _, counting⟩
      · exact dimension_eq_error inside
      · exact (Counting.exact_binomial n order).eq_overflow counting
  | .directSum summands =>
      rcases bind_eq_error_iff.mp failed with inside | ⟨dims, _, total⟩
      · exact dimensions_eq_error inside
      · exact (Size.exact_sum dims).eq_overflow total
  | .diagonal left right =>
      rcases bind_eq_error_iff.mp failed with first | ⟨n, _, later⟩
      · exact dimension_eq_error first
      · rcases bind_eq_error_iff.mp later with second | ⟨m, _, done⟩
        · exact dimension_eq_error second
        · cases done

theorem dimensions_eq_error {spaces : List Space} {fault : Fault} (failed : dimensions spaces = .error fault) :
    fault = .overflow := by
  match spaces with
  | [] => cases failed
  | s :: rest =>
      rcases bind_eq_error_iff.mp failed with first | ⟨d, _, later⟩
      · exact dimension_eq_error first
      · rcases bind_eq_error_iff.mp later with others | ⟨dims, _, done⟩
        · exact dimensions_eq_error others
        · cases done

end

/-- The dimension is exact or overflows, and it overflows where one of the numbers on the way is no size. -/
theorem dimension_eq_count_or_overflow {s : Space} (fits : s.OrdersFit) :
    (s.dimension = .ok s.count ∧ s.Sized) ∨ (s.dimension = .error .overflow ∧ ¬ s.Sized) := by
  rcases exact_dimension s fits with ⟨sized, computed⟩ | ⟨large, failed⟩
  · exact Or.inl ⟨computed, sized⟩
  · exact Or.inr ⟨failed, large⟩

theorem dimension_eq_count_nested :
    ∃ s : Space, s = .directSum [.exteriorPower 3 (.symmetricPower 2 (.standard 5 "X")),
        .symmetricPower 2 (.symmetricPower 1 (.standard 5 "Y")),
        .diagonal (.tensorPower 2 (.standard 2 "Z")) (.standard 3 "W")] ∧
      s.OrdersFit ∧ s.count = 473 ∧ s.dimension = .ok 473 := by
  let s : Space := .directSum [.exteriorPower 3 (.symmetricPower 2 (.standard 5 "X")),
    .symmetricPower 2 (.symmetricPower 1 (.standard 5 "Y")),
    .diagonal (.tensorPower 2 (.standard 2 "Z")) (.standard 3 "W")]
  have fits : s.OrdersFit := ⟨trivial, trivial, ⟨⟨by decide, trivial⟩, trivial⟩, trivial⟩
  have counted : s.count = 473 := by decide
  rcases dimension_eq_count_or_overflow fits with ⟨computed, _⟩ | ⟨failed, _⟩
  · exact ⟨s, rfl, fits, counted, counted ▸ computed⟩
  · exact absurd failed (by decide)

/-- The exponent of a tensor power is counted modulo `2 ^ 32`: of a plane it leaves one component. -/
theorem dimension_tensorPower_wrapped :
    (tensorPower (Nat.pow 2 32) (.standard 2 "X")).dimension = .ok 1 ∧
      1 < (tensorPower (Nat.pow 2 32) (.standard 2 "X")).count := by
  have several {order : Nat} (positive : 0 < order) : 1 < (tensorPower order (.standard 2 "X")).count :=
    Nat.one_lt_two_pow (Nat.ne_of_gt positive)
  exact ⟨by decide, several (by decide)⟩

end Space

end IndexNotation
