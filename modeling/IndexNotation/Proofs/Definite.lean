import IndexNotation.Proofs.Components
import IndexNotation.Proofs.PackedNorm
import Mathlib.Algebra.Order.BigOperators.Group.Finset
import Mathlib.Algebra.Order.Ring.Int

namespace IndexNotation

variable {α : Type}

def Tensor.atPair (g : Tensor α) (p q : Nat) : EvalM α α := do
  g.component (← EvalM.ofExcept (Packed.symmetricFlat [p, q]))

variable [Scalar α]

namespace InnerProduct

variable {space : Space}

theorem exists_of_tensor {t : Tensor α} (made : tensor space = .ok t) :
    ∃ g : Generator α, generator space = .ok g ∧ t = ⟨.symmetricPower 2 space.dual, .generated g⟩ := by
  rcases bind_eq_ok_iff.mp made with ⟨g, generated, placed⟩
  exact ⟨g, generated, (Tensor.ofComponents_eq_ok placed).2⟩

theorem exists_dimension {g : Generator α} (made : generator space = .ok g) : ∃ n, space.dimension = .ok n := by
  rcases generator_eq_ok made with ⟨_, _, _, counted, _⟩
  rw [Space.dimension, Space.dimension_dual] at counted
  rcases bind_eq_ok_iff.mp counted with ⟨n, sized, _⟩
  exact ⟨n, sized⟩

theorem atPair_eq {metric : Metric α} {g : Generator α} {n p q : Nat} (s : Space)
    (found : Metric.ofSpace space = .ok metric) (made : generator space = .ok g)
    (sized : space.dimension = .ok n) (small : p < n) (small' : q < n) :
    Tensor.atPair ⟨s, .generated g⟩ p q = EvalM.ofExcept (metric (max p q) (min p q)) := by
  have evaluated := evaluate_generator found made sized small small'
  have lifted := congrArg (EvalM.ofCountM (α := α)) evaluated
  rw [EvalM.ofCountM_bind] at lifted
  exact lifted

theorem sum_squares_definite {d : Nat} (entry : Nat → Int) {weight : Nat → Int} (positive : ∀ p < d, 0 < weight p) :
    0 ≤ ∑ p ∈ Finset.range d, entry p ^ 2 * weight p ∧
      (∑ p ∈ Finset.range d, entry p ^ 2 * weight p = 0 ↔ ∀ p < d, entry p = 0) := by
  have terms : ∀ p ∈ Finset.range d, 0 ≤ entry p ^ 2 * weight p := by
    intro p member
    exact Int.mul_nonneg (sq_nonneg _) (Int.le_of_lt (positive p (Finset.mem_range.mp member)))
  refine ⟨Finset.sum_nonneg terms, ?_⟩
  rw [Finset.sum_eq_zero_iff_of_nonneg terms]
  constructor
  · intro vanish p small
    have product := vanish p (Finset.mem_range.mpr small)
    rcases Int.mul_eq_zero.mp product with square | weightless
    · exact pow_eq_zero_iff (by decide) |>.mp square
    · exact absurd weightless (Int.ne_of_gt (positive p small))
  · intro vanish p member
    rw [vanish p (Finset.mem_range.mp member)]
    exact Int.zero_mul _

theorem squaredSum_definite (reading : Reading α Int) {t : Tensor α} (fits : t.space.OrdersFit)
    {memory : Memory α} {scratch later : Scratch α} {a : α}
    (ran : t.squaredSum memory scratch = (.ok a, later)) :
    ∃ x middle, t.toArray memory scratch = (.ok x, middle) ∧ 0 ≤ reading.val a ∧
      (reading.val a = 0 ↔ ∀ y ∈ x, reading.val y = 0) := by
  rcases squaredSum_eq_ok ran with ⟨g, x, middle, _, made, evaluated, summed⟩
  rcases generator_eq_ok made with ⟨metric, _, found, _⟩
  have sized := (Tensor.toArray_eq_ok evaluated).1
  have standard := Metric.standard_ofSpace sized fits False.elim found
  rcases val_quadraticSum reading found made sized (standard.diagonal reading) summed with ⟨present, total⟩
  have positive : ∀ p < x.size, 0 < Metric.square reading metric p := by
    intro p small
    rcases present p small with ⟨y, computed⟩
    rcases standard.image small small computed with ⟨m, equal, image⟩
    have weight : Metric.square reading metric p = m := by
      rw [Metric.square, computed, ← image.val reading]
      rfl
    rw [weight]
    exact Int.natCast_pos.mpr (equal.mpr rfl)
  have definite := sum_squares_definite (reading.entry x) positive
  rw [← total] at definite
  refine ⟨x, middle, evaluated, definite.1, definite.2.trans ?_⟩
  constructor
  · intro vanish y member
    rcases Array.mem_iff_getElem.mp member with ⟨p, small, rfl⟩
    rw [← reading.entry_eq (Array.getElem?_eq_getElem small)]
    exact vanish p small
  · intro vanish p small
    rw [reading.entry_eq (Array.getElem?_eq_getElem small)]
    exact vanish x[p] (Array.getElem_mem small)

/-- Read at the pairs of basis tensors, an inner product is a symmetric matrix that overflows or is computed; nothing
else can fail but to hold the tuples of a power of enormous order. What is computed are images of numbers that are
positive on the diagonal and zero off it, so that no squared norm over exact integers is negative, and only that of a
tensor whose components are all zero is zero. -/
theorem atPair_definite (overflows : Scalar.OverflowsOnly α) (fits : space.OrdersFit) {g : Tensor α}
    (made : tensor space = .ok g) :
    ∃ n, space.dimension = .ok n ∧
      (∀ p < n, ∀ q < n, ∃ outcome : Except Fault α,
        (∀ memory scratch, (g.atPair p q memory scratch).1 = outcome ∧
          (g.atPair q p memory scratch).1 = outcome) ∧
        (∀ fault, outcome = .error fault → fault = .overflow ∨ fault = .capacity ∧ ¬ space.TuplesFit) ∧
        ∀ x, outcome = .ok x → ∃ m : Nat, (0 < m ↔ p = q) ∧ Scalar.Image m x ∧
          ∀ (R : Type) [CommRing R] (reading : Reading α R), reading.val x = m) ∧
      ∀ (reading : Reading α Int) (t : Tensor α), t.space = space → ∀ memory scratch later a,
        t.squaredSum memory scratch = (.ok a, later) →
        ∃ x middle, t.toArray memory scratch = (.ok x, middle) ∧ 0 ≤ reading.val a ∧
          (reading.val a = 0 ↔ ∀ y ∈ x, reading.val y = 0) := by
  rcases exists_of_tensor made with ⟨g', generated, rfl⟩
  rcases generator_eq_ok generated with ⟨metric, _, found, _⟩
  rcases exists_dimension generated with ⟨n, sized⟩
  have standard := Metric.standard_ofSpace sized fits (id : space.TuplesFit → _) found
  refine ⟨n, sized, ?_, ?_⟩
  · intro p small q small'
    have largest := Nat.max_lt.mpr ⟨small, small'⟩
    have least := Nat.lt_of_le_of_lt (Nat.min_le_left p q) small
    refine ⟨metric (max p q) (min p q), ?_, ?_, ?_⟩
    · intro memory scratch
      rw [atPair_eq _ found generated sized small small', atPair_eq _ found generated sized small' small,
        Nat.max_comm q, Nat.min_comm q]
      exact ⟨rfl, rfl⟩
    · intro fault failed
      rcases standard.fails largest least failed with overflow | full | arithmetic
      · exact Or.inl overflow
      · exact Or.inr full
      · exact Or.inl (overflows fault arithmetic)
    · intro x computed
      rcases standard.image largest least computed with ⟨m, positive, image⟩
      have equal : max p q = min p q ↔ p = q := by omega
      exact ⟨m, positive.trans equal, image, fun R _ reading => image.val reading⟩
  · rintro reading t rfl memory scratch later a ran
    exact squaredSum_definite reading fits ran

/-- The symmetric square of a plane: the middle component stands for two pairs of the plane, and weighs twice in the
squared norm of `(1, 3, 0)`. -/
theorem atPair_definite_square :
    ∃ (g t : Tensor (Bounded .signed32)) (memory : Memory (Bounded .signed32)) (m : Nat),
      tensor (.symmetricPower 2 (.standard 2 "X")) = .ok g ∧ t.space = .symmetricPower 2 (.standard 2 "X") ∧
        (g.atPair 1 1 memory ⟨#[], #[]⟩).1 = .ok (.wrap 2) ∧ 0 < m ∧
        Scalar.Image m (Bounded.wrap 2 : Bounded .signed32) ∧
        (t.squaredSum memory ⟨#[], #[]⟩).1 = .ok (.wrap 19) ∧
        ∃ x middle, t.toArray memory ⟨#[], #[]⟩ = (.ok x, middle) ∧ ¬ ∀ y ∈ x, y.val = 0 := by
  let space : Space := .symmetricPower 2 (.standard 2 "X")
  let t : Tensor (Bounded .signed32) := ⟨space, .stored .member 0 0 3⟩
  let memory : Memory (Bounded .signed32) :=
    { blocks := #[⟨0, #[.wrap 1, .wrap 3, .wrap 0]⟩], nextAddress := 12 }
  obtain ⟨g, made, middle⟩ : ∃ g : Tensor (Bounded .signed32), tensor space = .ok g ∧
      (g.atPair 1 1 memory ⟨#[], #[]⟩).1 = .ok (.wrap 2) := ⟨_, rfl, by decide +kernel⟩
  have total : (t.squaredSum memory ⟨#[], #[]⟩).1 = .ok (.wrap 19) := by decide +kernel
  have fits : space.OrdersFit := trivial
  rcases atPair_definite (Bounded.overflowsOnly .signed32) fits made with ⟨n, sized, entries, definite⟩
  cases sized
  rcases entries 1 (by decide) 1 (by decide) with ⟨outcome, same, _, image⟩
  rcases image _ ((same memory ⟨#[], #[]⟩).1.symm.trans middle) with ⟨m, positive, image, _⟩
  rcases definite (Bounded.reading .signed32) t rfl memory _ _ _ (Prod.fst_eq_iff.mp total) with
    ⟨x, later, evaluated, _, vanishes⟩
  refine ⟨g, t, memory, m, made, rfl, middle, positive.mpr rfl, image, total, x, later, evaluated, fun zeros => ?_⟩
  exact absurd (vanishes.mpr zeros) (by decide)

/-- Two to the power of 128 is no finite single-precision number. It stands on the diagonal of the first factor, and
the zeros off the diagonal of the second times an infinite number are not zeros, nor equal to themselves. And a power
of a line has one component, whose tuple of zeros can be too long to be held. -/
theorem atPair_neither_number_nor_overflow :
    (∃ (space : Space) (g : Tensor Float32) (x : Float32), space.OrdersFit ∧ space.dimension = .ok 2 ∧
      tensor space = .ok g ∧ (g.atPair 0 1 .empty ⟨#[], #[]⟩).1 = .ok x ∧
        Scalar.same x Scalar.zero = false ∧ Scalar.same x x = false) ∧
      ∃ (space : Space) (g : Tensor (Bounded .signed64)), space.OrdersFit ∧ space.dimension = .ok 1 ∧
        tensor space = .ok g ∧ (g.atPair 0 0 .empty ⟨#[], #[]⟩).1 = .error .capacity := by
  constructor
  · let space : Space :=
      .tensorProduct [.symmetricPower 128 (.exteriorPower 2 (.standard 2 "X")), .standard 2 "X"]
    obtain ⟨g, made, apart⟩ : ∃ g : Tensor Float32, tensor space = .ok g ∧
        ((g.atPair 0 1 .empty ⟨#[], #[]⟩).1.toOption.any fun x =>
          !Scalar.same x Scalar.zero && !Scalar.same x x) = true := ⟨_, rfl, by decide +kernel⟩
    rcases outcome : (g.atPair 0 1 .empty ⟨#[], #[]⟩).1 with fault | x
    · rw [outcome] at apart
      cases apart
    · rw [outcome] at apart
      have both : (!Scalar.same x Scalar.zero && !Scalar.same x x) = true := apart
      rw [Bool.and_eq_true, Bool.not_eq_true', Bool.not_eq_true'] at both
      exact ⟨space, g, x, ⟨trivial, trivial, trivial⟩, rfl, made, outcome, both.1, both.2⟩
  · exact ⟨.symmetricPower (Nat.pow 2 60) (.standard 1 "X"), _, trivial, by decide +kernel, rfl, by decide +kernel⟩

end InnerProduct

end IndexNotation
