import IndexNotation.Proofs.QuadraticSum
import IndexNotation.Proofs.Space.Exact
/-!
Which spaces have an inner product. The space must be Euclidean, the powers that its metric is made of must have
positive orders, and no dimension that is taken on the way may overflow. Where there is no inner product, the
fault names a condition that is broken.
-/
namespace IndexNotation

namespace Space

mutual

def underlying : Space → List BasedSpace
  | .based v => [v]
  | .tensorProduct factors => underlyingAll factors
  | .tensorPower _ factor => factor.underlying
  | .symmetricPower _ factor => factor.underlying
  | .exteriorPower _ factor => factor.underlying
  | .directSum summands => underlyingAll summands
  | .diagonal left right => left.underlying ++ right.underlying

def underlyingAll : List Space → List BasedSpace
  | [] => []
  | s :: rest => s.underlying ++ underlyingAll rest

end

mutual

theorem isEuclidean_iff (s : Space) : s.isEuclidean = true ↔ ∀ v ∈ s.underlying, v.basis.isStandard = true := by
  match s with
  | .based v => simp [isEuclidean, underlying]
  | .tensorProduct factors => exact allEuclidean_iff factors
  | .tensorPower order factor => exact isEuclidean_iff factor
  | .symmetricPower order factor => exact isEuclidean_iff factor
  | .exteriorPower order factor => exact isEuclidean_iff factor
  | .directSum summands => exact allEuclidean_iff summands
  | .diagonal left right =>
      rw [isEuclidean, underlying, Bool.and_eq_true, isEuclidean_iff left, isEuclidean_iff right,
        List.forall_mem_append]

theorem allEuclidean_iff (spaces : List Space) :
    allEuclidean spaces = true ↔ ∀ v ∈ underlyingAll spaces, v.basis.isStandard = true := by
  match spaces with
  | [] => simp [allEuclidean, underlyingAll]
  | s :: rest =>
      rw [allEuclidean, underlyingAll, Bool.and_eq_true, isEuclidean_iff s, allEuclidean_iff rest,
        List.forall_mem_append]

end

mutual

/-- The powers whose metrics the metric of the space is made of have positive orders. A diagonal takes no metric
from its sides, so none is asked for there. -/
def OrdersPositive : Space → Prop
  | .based _ => True
  | .tensorProduct factors => AllPositive factors
  | .tensorPower order factor => 0 < order ∧ factor.OrdersPositive
  | .symmetricPower order factor => 0 < order ∧ factor.OrdersPositive
  | .exteriorPower order factor => 0 < order ∧ factor.OrdersPositive
  | .directSum summands => AllPositive summands
  | .diagonal _ _ => True

def AllPositive : List Space → Prop
  | [] => True
  | s :: rest => s.OrdersPositive ∧ AllPositive rest

end

theorem allPositive_iff {spaces : List Space} : AllPositive spaces ↔ ∀ s ∈ spaces, s.OrdersPositive := by
  induction spaces with
  | nil => simp [AllPositive]
  | cons s rest ih => rw [AllPositive, ih, List.forall_mem_cons]

mutual

/-- The dimensions that the metric of the space is made with can be computed: of the factors that follow one in a
product, and of the lower orders of a tensor power. -/
def Measured : Space → Prop
  | .based _ => True
  | .tensorProduct factors => FactorsMeasured factors
  | .tensorPower order factor => factor.Measured ∧
    ∀ less, less + 1 < order → ∃ d, (tensorPower (less + 1) factor).dimension = .ok d
  | .symmetricPower _ factor => factor.Measured
  | .exteriorPower _ factor => factor.Measured
  | .directSum summands => SummandsMeasured summands
  | .diagonal _ _ => True

def FactorsMeasured : List Space → Prop
  | [] => True
  | s :: rest => s.Measured ∧ FactorsMeasured rest ∧ ∃ d, (tensorProduct rest).dimension = .ok d

def SummandsMeasured : List Space → Prop
  | [] => True
  | s :: rest => s.Measured ∧ SummandsMeasured rest

end

end Space

namespace Metric

/-- An outcome that is there just where three conditions hold. A fault tells which of them is broken. -/
inductive Judged {β : Type} (euclidean positive measured : Prop) : Except Fault β → Prop
  | accepted (b : β) : euclidean → positive → measured → Judged euclidean positive measured (.ok b)
  | skew (part : Space) : ¬ euclidean → Judged euclidean positive measured (refuse (.noInnerProduct part))
  | zeroth : ¬ positive → Judged euclidean positive measured (refuse .orderMustBePositive)
  | large : ¬ measured → Judged euclidean positive measured (.error .overflow)

namespace Judged

variable {β γ : Type} {euclidean positive measured euclidean' positive' measured' : Prop} {outcome : Except Fault β}

theorem exists_iff (judged : Judged euclidean positive measured outcome) :
    (∃ b, outcome = .ok b) ↔ euclidean ∧ positive ∧ measured := by
  cases judged with
  | accepted b holds holds' holds'' => simp [holds, holds', holds'']
  | skew part broken => simp [broken]
  | zeroth broken => simp [broken]
  | large broken => simp [broken]

theorem fault_cases (judged : Judged euclidean positive measured outcome) {fault : Fault}
    (failed : outcome = .error fault) :
    (∃ part, fault = .refused (.noInnerProduct part)) ∧ ¬ euclidean ∨
      fault = .refused .orderMustBePositive ∧ ¬ positive ∨ fault = .overflow ∧ ¬ measured := by
  cases judged with
  | accepted b _ _ _ => cases failed
  | skew part broken =>
      cases failed
      exact Or.inl ⟨⟨part, rfl⟩, broken⟩
  | zeroth broken =>
      cases failed
      exact Or.inr (Or.inl ⟨rfl, broken⟩)
  | large broken =>
      cases failed
      exact Or.inr (Or.inr ⟨rfl, broken⟩)

theorem eq_overflow (judged : Judged euclidean positive measured outcome) (holds : euclidean) (holds' : positive)
    {fault : Fault} (failed : outcome = .error fault) : fault = .overflow := by
  rcases judged.fault_cases failed with ⟨_, skew⟩ | ⟨_, zeroth⟩ | ⟨overflow, _⟩
  · exact absurd holds skew
  · exact absurd holds' zeroth
  · exact overflow

theorem bind {f : β → Except Fault γ} (first : Judged euclidean positive measured outcome)
    (rest : ∀ b, outcome = .ok b → Judged euclidean' positive' measured' (f b)) :
    Judged (euclidean ∧ euclidean') (positive ∧ positive') (measured ∧ measured') (outcome >>= f) := by
  cases first with
  | accepted b holds holds' holds'' =>
      have next := rest b rfl
      rw [ok_bind]
      generalize f b = later at next
      cases next with
      | accepted c also also' also'' => exact .accepted c ⟨holds, also⟩ ⟨holds', also'⟩ ⟨holds'', also''⟩
      | skew part broken => exact .skew part fun both => broken both.2
      | zeroth broken => exact .zeroth fun both => broken both.2
      | large broken => exact .large fun both => broken both.2
  | skew part broken => exact .skew part fun both => broken both.1
  | zeroth broken => exact .zeroth fun both => broken both.1
  | large broken => exact .large fun both => broken both.1

theorem congr (judged : Judged euclidean positive measured outcome) (first : euclidean ↔ euclidean')
    (second : positive ↔ positive') (third : measured ↔ measured') :
    Judged euclidean' positive' measured' outcome := by
  rw [← propext first, ← propext second, ← propext third]
  exact judged

theorem map (judged : Judged euclidean positive measured outcome) (g : β → γ) :
    Judged euclidean positive measured (do return g (← outcome)) :=
  (judged.bind fun b _ => .accepted (g b) trivial trivial trivial).congr (and_iff_left trivial)
    (and_iff_left trivial) (and_iff_left trivial)

end Judged

theorem judged_dimension (s : Space) : Judged True True (∃ d, s.dimension = .ok d) s.dimension := by
  cases computed : s.dimension with
  | ok d => exact .accepted d trivial trivial ⟨d, rfl⟩
  | error fault =>
      rw [Space.dimension_eq_error computed]
      exact .large (by simp)

variable {α : Type} [Scalar α]

theorem judged_tensorPower (factor : Space) (metric : Metric α) (order : Nat) :
    Judged True True (∀ less, less < order → ∃ d, (Space.tensorPower (less + 1) factor).dimension = .ok d)
      (tensorPower factor metric (order + 1)) := by
  induction order with
  | zero => exact .accepted metric trivial trivial fun less absurd => (Nat.not_lt_zero less absurd).elim
  | succ order ih =>
      rw [tensorPower]
      have width := judged_dimension (.tensorPower (order + 1) factor)
      refine (ih.bind fun body _ => width.map (product metric body)).congr (by simp) (by simp) ?_
      constructor
      · rintro ⟨lower, last⟩ less below
        rcases Nat.lt_or_eq_of_le (Nat.le_of_lt_succ below) with earlier | rfl
        · exact lower less earlier
        · exact last
      · intro all
        exact ⟨fun less below => all less (by omega), all order (by omega)⟩

theorem judged_ofPower {power factor : Space} {order : Nat} {metric : Except Fault (Metric α)} {positive measured : Prop}
    (judged : Judged (factor.isEuclidean = true) positive measured metric) :
    Judged (factor.isEuclidean = true) (0 < order ∧ positive) measured (ofPower power order factor metric) := by
  unfold ofPower
  by_cases none : order = 0
  · rw [if_pos none]
    exact .zeroth fun both => absurd none (Nat.ne_of_gt both.1)
  · rw [if_neg none]
    have some := Nat.pos_of_ne_zero none
    cases euclidean : factor.isEuclidean with
    | false => exact .skew power (by simp)
    | true =>
        rw [euclidean] at judged
        exact (judged.map (packed power)).congr Iff.rfl (by simp [some]) Iff.rfl

mutual

theorem judged_ofSpace (s : Space) :
    Judged (s.isEuclidean = true) s.OrdersPositive s.Measured (ofSpace s : Except Fault (Metric α)) := by
  match s with
  | .based v =>
      rw [ofSpace]
      by_cases standard : v.basis.isStandard
      · rw [if_pos standard]
        exact .accepted identity standard trivial trivial
      · rw [if_neg standard]
        exact .skew _ standard
  | .tensorProduct factors => exact judged_ofFactors factors
  | .tensorPower order factor =>
      rw [ofSpace]
      cases order with
      | zero => exact .zeroth fun both => absurd both.1 (Nat.lt_irrefl 0)
      | succ order =>
          rw [if_neg (Nat.succ_ne_zero order)]
          refine ((judged_ofSpace factor).bind fun metric _ => judged_tensorPower factor metric order).congr ?_ ?_ ?_
          · simp [Space.isEuclidean]
          · simp [Space.OrdersPositive]
          · simp [Space.Measured]
  | .symmetricPower order factor => exact judged_ofPower (judged_ofSpace factor)
  | .exteriorPower order factor => exact judged_ofPower (judged_ofSpace factor)
  | .directSum summands => exact (judged_ofSummands summands).map (directSum summands)
  | .diagonal left right =>
      rw [ofSpace]
      by_cases both : left.isEuclidean && right.isEuclidean
      · rw [if_pos both]
        exact .accepted identity both trivial trivial
      · rw [if_neg both]
        exact .skew _ both

theorem judged_ofFactors (factors : List Space) :
    Judged (Space.allEuclidean factors = true) (Space.AllPositive factors) (Space.FactorsMeasured factors)
      (ofFactors factors : Except Fault (Metric α)) := by
  match factors with
  | [] => exact .accepted _ rfl trivial trivial
  | [factor] =>
      have alone : ∃ d, (Space.tensorProduct []).dimension = .ok d := ⟨1, rfl⟩
      refine (judged_ofSpace factor).congr ?_ ?_ ?_
      · simp [Space.allEuclidean]
      · simp [Space.AllPositive]
      · simp [Space.FactorsMeasured, alone]
  | head :: next :: rest =>
      rw [ofFactors]
      have width := judged_dimension (.tensorProduct (next :: rest))
      refine ((judged_ofSpace head).bind fun first _ => (judged_ofFactors (next :: rest)).bind fun body _ =>
        width.map (product first body)).congr ?_ ?_ ?_
      · rw [Space.allEuclidean.eq_def (head :: next :: rest)]
        simp
      · rw [Space.AllPositive.eq_def (head :: next :: rest)]
        simp
      · rw [Space.FactorsMeasured.eq_def (head :: next :: rest)]

theorem judged_ofSummands (summands : List Space) :
    Judged (Space.allEuclidean summands = true) (Space.AllPositive summands) (Space.SummandsMeasured summands)
      (ofSummands summands : Except Fault (List (Metric α))) := by
  match summands with
  | [] => exact .accepted _ rfl trivial trivial
  | s :: rest =>
      rw [ofSummands]
      refine ((judged_ofSpace s).bind fun metric _ => (judged_ofSummands rest).map (metric :: ·)).congr ?_ ?_ ?_
      · simp [Space.allEuclidean]
      · simp [Space.AllPositive]
      · simp [Space.SummandsMeasured]

end

theorem ofPower_eq {power factor : Space} {order : Nat} {metric : Metric α} (positive : 0 < order)
    (found : ofSpace factor = .ok metric) :
    ofPower power order factor (ofSpace factor) = .ok (packed power metric) := by
  have euclidean : factor.isEuclidean = true := ((judged_ofSpace factor).exists_iff.mp ⟨metric, found⟩).1
  unfold ofPower
  simp only [Nat.ne_of_gt positive, if_false, euclidean, Bool.not_true, Bool.false_eq_true, found]
  rfl

end Metric

namespace InnerProduct

variable {α : Type} [Scalar α]

def SquareMeasured (s : Space) : Prop := ∃ d, (Space.symmetricPower 2 s).dimension = .ok d

theorem judged_generator (s : Space) :
    Metric.Judged (s.isEuclidean = true) s.OrdersPositive (s.Measured ∧ SquareMeasured s)
      (generator s : Except Fault (Generator α)) := by
  have square := Metric.judged_dimension (.symmetricPower 2 s.dual)
  have same : (Space.symmetricPower 2 s.dual).dimension = (Space.symmetricPower 2 s).dimension := by
    rw [Space.dimension, Space.dimension, Space.dimension_dual]
  refine ((Metric.judged_ofSpace s).bind fun metric _ => square.map _).congr (by simp) (by simp) ?_
  rw [SquareMeasured, same]

theorem tensor_of_generator {s : Space} {g : Generator α} (made : generator s = .ok g) :
    tensor s = .ok ⟨.symmetricPower 2 s.dual, .generated g⟩ := by
  rw [tensor, made, ok_bind]
  rcases generator_eq_ok made with ⟨metric, dimension, _, sized, rfl⟩
  simp [Tensor.procedural, Tensor.ofComponents, sized, Components.length, Generator.ofFunction]

theorem judged_tensor (s : Space) :
    Metric.Judged (s.isEuclidean = true) s.OrdersPositive (s.Measured ∧ SquareMeasured s)
      (tensor s : Except Fault (Tensor α)) := by
  rw [tensor]
  refine ((judged_generator s).bind fun g made => ?_).congr (and_iff_left trivial) (and_iff_left trivial)
    (and_iff_left trivial)
  have accepted := tensor_of_generator made
  rw [tensor, made, ok_bind] at accepted
  rw [accepted]
  exact .accepted _ trivial trivial trivial

/-- A space has an inner product just where it is Euclidean and the powers in it have positive orders, if no
dimension overflows that is taken on the way. A fault names what is broken. -/
theorem exists_tensor_iff (s : Space) :
    ((∃ t : Tensor α, tensor s = .ok t) ↔
        s.isEuclidean = true ∧ s.OrdersPositive ∧ s.Measured ∧ SquareMeasured s) ∧
      ∀ fault, (tensor s : Except Fault (Tensor α)) = .error fault →
        (∃ part, fault = .refused (.noInnerProduct part)) ∧ (∃ v ∈ s.underlying, v.basis.isStandard = false) ∨
          fault = .refused .orderMustBePositive ∧ ¬ s.OrdersPositive ∨
          fault = .overflow ∧ ¬ (s.Measured ∧ SquareMeasured s) := by
  have judged : Metric.Judged _ _ _ (tensor s : Except Fault (Tensor α)) := judged_tensor s
  refine ⟨judged.exists_iff, ?_⟩
  intro fault failed
  rcases judged.fault_cases failed with ⟨skew, broken⟩ | other
  · rw [Space.isEuclidean_iff] at broken
    push Not at broken
    simp only [ne_eq, Bool.not_eq_true] at broken
    exact Or.inl ⟨skew, broken⟩
  · exact Or.inr other

/-- A symmetric power beside a diagonal, whose side of order zero is not looked into; and a zeroth power in the
place of the diagonal. -/
theorem exists_tensor_sum :
    (∃ s : Space, s = .directSum [.symmetricPower 2 (.standard 2 "X"),
        .diagonal (.tensorPower 0 (.standard 3 "Y")) (.standard 2 "Z")] ∧
      ∃ t : Tensor (Bounded .signed64), tensor s = .ok t) ∧
    (∃ s : Space, s = .directSum [.symmetricPower 2 (.standard 2 "X"), .tensorPower 0 (.standard 3 "Y")] ∧
      (tensor s : Except Fault (Tensor (Bounded .signed64))) = .error (.refused .orderMustBePositive)) := by
  let s : Space := .directSum [.symmetricPower 2 (.standard 2 "X"),
    .diagonal (.tensorPower 0 (.standard 3 "Y")) (.standard 2 "Z")]
  let r : Space := .directSum [.symmetricPower 2 (.standard 2 "X"), .tensorPower 0 (.standard 3 "Y")]
  have positive : s.OrdersPositive := ⟨⟨by decide, trivial⟩, trivial, trivial⟩
  have measured : s.Measured := ⟨trivial, trivial, trivial⟩
  have standard : ∀ v ∈ r.underlying, v.basis.isStandard = true := by decide
  refine ⟨⟨s, rfl, (exists_tensor_iff s).1.mpr ⟨by decide, positive, measured, 10, by decide⟩⟩, r, rfl, ?_⟩
  rcases made : (tensor r : Except Fault (Tensor (Bounded .signed64))) with fault | t
  · rcases (exists_tensor_iff r).2 fault made with ⟨_, v, inside, skew⟩ | ⟨rfl, _⟩ | ⟨_, large⟩
    · exact absurd (standard v inside) (by simp [skew])
    · rfl
    · exact absurd ⟨⟨trivial, ⟨trivial, fun _ below => absurd below (Nat.not_lt_zero _)⟩, trivial⟩, 10, by decide⟩
        large
  · exact absurd ((exists_tensor_iff r).1.mp ⟨t, made⟩).2.1.2.1.1 (Nat.lt_irrefl 0)

/-- The sides of a diagonal are asked for their bases alone, so a zeroth power there does no harm. -/
theorem tensor_diagonal_zeroth :
    ∃ t : Tensor (Bounded .signed64),
      tensor (.diagonal (.tensorPower 0 (.standard 2 "X")) (.standard 2 "X")) = .ok t :=
  ⟨_, rfl⟩

end InnerProduct

end IndexNotation
