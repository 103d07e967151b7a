import IndexNotation.Scalar.Complex
import IndexNotation.Scalar.Integer
import IndexNotation.Proofs.Decimal.Text
/-!
Which scalars their texts tell apart: all integers, all floating-point numbers that are numbers, and the complex numbers
over them.
-/
namespace IndexNotation

/-- No other scalar has the text of `x`. -/
def Scalar.Shown {α : Type} [Scalar α] (x : α) : Prop := ∀ y, detail x = detail y → x = y

theorem Bounded.shown {r : IntegerRange} (x : Bounded r) : Scalar.Shown x := by
  intro y same
  have equal : x.val = y.val := Int.repr_inj.mp same
  cases x
  cases y
  cases equal
  rfl

section Real

open Decimal

theorem Float.shown {x : Float} (number : doubleValue x ≠ .notANumber) : Scalar.Shown x := by
  intro y same
  have values : doubleValue x = doubleValue y := eq_of_text BinaryFormat.legible_double rfl rfl same
  have words := BinaryValue.ofBits_injective (f := .double) x.toBits.toNat_lt y.toBits.toNat_lt number values
  exact Float.toBits_inj.mp (UInt64.toNat_inj.mp words)

theorem Float32.shown {x : Float32} (number : singleValue x ≠ .notANumber) : Scalar.Shown x := by
  intro y same
  have values : singleValue x = singleValue y := eq_of_text BinaryFormat.legible_single rfl rfl same
  have words := BinaryValue.ofBits_injective (f := .single) x.toBits.toNat_lt y.toBits.toNat_lt number values
  exact Float32.toBits_inj.mp (UInt32.toNat_inj.mp words)

theorem Complex.shown {α : Type} [RealScalar α] {z : Complex α} (re : Scalar.Shown z.re) (im : Scalar.Shown z.im)
    (first : ',' ∉ (Scalar.detail z.re).toList) (second : ',' ∉ (Scalar.detail z.im).toList) : Scalar.Shown z := by
  intro w same
  have text (z : Complex α) : (Scalar.detail z).toList = "Complex \x7b re: ".toList ++
      ((Scalar.detail z.re).toList ++ ',' :: (" im: ".toList ++ (Scalar.detail z.im).toList)) ++ " \x7d".toList := by
    change (Text.record "Complex" [("re", Scalar.detail z.re), ("im", Scalar.detail z.im)]).toList = _
    simp [Text.record]
  have listed := congrArg String.toList same
  rw [text, text, List.append_left_inj, List.append_right_inj] at listed
  have behind : ',' ∉ " im: ".toList ++ (Scalar.detail z.im).toList := by
    rw [List.mem_append, not_or]
    exact ⟨by decide, second⟩
  obtain ⟨reals, _, rest⟩ := (List.append_cons_inj_of_notMem first behind).mp listed
  rw [List.append_right_inj] at rest
  have equal : z.re = w.re := re w.re (String.toList_inj.mp reals)
  have equal' : z.im = w.im := im w.im (String.toList_inj.mp rest)
  cases z
  cases w
  cases equal
  cases equal'
  rfl

theorem Complex.shown_double {z : Complex Float} (re : doubleValue z.re ≠ .notANumber)
    (im : doubleValue z.im ≠ .notANumber) : Scalar.Shown z :=
  Complex.shown (Float.shown re) (Float.shown im) (comma_not_mem_text BinaryFormat.legible_double rfl)
    (comma_not_mem_text BinaryFormat.legible_double rfl)

theorem Complex.shown_single {z : Complex Float32} (re : singleValue z.re ≠ .notANumber)
    (im : singleValue z.im ≠ .notANumber) : Scalar.Shown z :=
  Complex.shown (Float32.shown re) (Float32.shown im) (comma_not_mem_text BinaryFormat.legible_single rfl)
    (comma_not_mem_text BinaryFormat.legible_single rfl)

end Real

end IndexNotation
