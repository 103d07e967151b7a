import IndexNotation.Scalar.Complex
import IndexNotation.Scalar.Integer
import IndexNotation.Proofs.Outcome
import Mathlib.Algebra.BigOperators.Group.List.Basic
import Mathlib.Algebra.Ring.Int.Defs
import Mathlib.Data.Nat.Cast.Basic
/-!
Scalars read as the elements of a commutative ring. Their arithmetic may fail, but what it gives is
exact; integers of a range are read as integers. What any scalar makes of a natural number is its image.
-/
namespace IndexNotation

/-- A ring element for each scalar, which the arithmetic respects wherever it gives a result. -/
structure Reading (α : Type) [Scalar α] (R : Type) [CommRing R] where
  val : α → R
  val_zero : val Scalar.zero = 0
  val_one : val Scalar.one = 1
  val_add : ∀ {a b c : α}, Scalar.add a b = .ok c → val c = val a + val b
  val_sub : ∀ {a b c : α}, Scalar.sub a b = .ok c → val c = val a - val b
  val_mul : ∀ {a b c : α}, Scalar.mul a b = .ok c → val c = val a * val b

def Bounded.reading (r : IntegerRange) : Reading (Bounded r) Int where
  val := Bounded.val
  val_zero := rfl
  val_one := rfl
  val_add := fun added => Bounded.ofInt_eq_ok_iff.mp added
  val_sub := fun subtracted => Bounded.ofInt_eq_ok_iff.mp subtracted
  val_mul := fun multiplied => Bounded.ofInt_eq_ok_iff.mp multiplied

theorem exists_of_foldlM_add {α γ : Type} [Scalar α] {steps : List γ} {term : γ → Except Fault α} {acc y : α}
    (folded : steps.foldlM (fun acc step => do Scalar.add acc (← term step)) acc = .ok y) :
    ∀ step ∈ steps, ∃ x, term step = .ok x := by
  induction steps generalizing acc with
  | nil => simp
  | cons step steps ih =>
      rw [List.foldlM_cons] at folded
      rcases bind_eq_ok_iff.mp folded with ⟨next, added, rest⟩
      rcases bind_eq_ok_iff.mp added with ⟨x, computed, _⟩
      exact List.forall_mem_cons.mpr ⟨⟨x, computed⟩, ih rest⟩

namespace Reading

variable {α γ R : Type} [Scalar α] [CommRing R] (reading : Reading α R)

def of : Except Fault α → R
  | .ok x => reading.val x
  | .error _ => 0

theorem val_foldlM_add {steps : List γ} {term : γ → Except Fault α} {acc y : α}
    (folded : steps.foldlM (fun acc step => do Scalar.add acc (← term step)) acc = .ok y) :
    (∀ step ∈ steps, ∃ x, term step = .ok x) ∧
      reading.val y = reading.val acc + (steps.map fun step => reading.of (term step)).sum := by
  refine ⟨exists_of_foldlM_add folded, ?_⟩
  induction steps generalizing acc with
  | nil =>
      cases folded
      simp
  | cons step steps ih =>
      rw [List.foldlM_cons] at folded
      rcases bind_eq_ok_iff.mp folded with ⟨next, added, rest⟩
      rcases bind_eq_ok_iff.mp added with ⟨x, computed, sum⟩
      rw [ih rest, reading.val_add sum, List.map_cons, List.sum_cons, computed, add_assoc]
      rfl

theorem of_mul {left right : Except Fault α} {x : α}
    (multiplied : (do Scalar.mul (← left) (← right)) = Except.ok x) :
    (∃ a, left = .ok a) ∧ (∃ b, right = .ok b) ∧
      reading.val x = reading.of left * reading.of right := by
  obtain ⟨a, rfl, later⟩ := bind_eq_ok_iff.mp multiplied
  obtain ⟨b, rfl, product⟩ := bind_eq_ok_iff.mp later
  exact ⟨⟨a, rfl⟩, ⟨b, rfl⟩, reading.val_mul product⟩

end Reading

/-- `x` is what sums and products of scalars, started from zeros and ones, make of the number `n`. An exact
scalar is that number; a floating-point one is rounded at each step and may leave the finite range. -/
inductive Scalar.Image {α : Type} [Scalar α] : Nat → α → Prop
  | zero : Image 0 zero
  | one : Image 1 one
  | add {m n : Nat} {x y z : α} : Image m x → Image n y → add x y = .ok z → Image (m + n) z
  | mul {m n : Nat} {x y z : α} : Image m x → Image n y → mul x y = .ok z → Image (m * n) z

theorem Scalar.Image.val {α R : Type} [Scalar α] [CommRing R] (reading : Reading α R) {n : Nat} {x : α}
    (image : Image n x) : reading.val x = n := by
  induction image with
  | zero => rw [reading.val_zero, Nat.cast_zero]
  | one => rw [reading.val_one, Nat.cast_one]
  | add _ _ added left right => rw [reading.val_add added, left, right, Nat.cast_add]
  | mul _ _ multiplied left right => rw [reading.val_mul multiplied, left, right, Nat.cast_mul]

theorem Scalar.Image.addOnes {α : Type} [Scalar α] {n count : Nat} {x y : α} (image : Image n x)
    (added : Scalar.addOnes count x = .ok y) : Image (n + count) y := by
  induction count generalizing n x with
  | zero =>
      cases added
      exact image
  | succ count ih =>
      rw [Scalar.addOnes] at added
      rcases bind_eq_ok_iff.mp added with ⟨next, once, rest⟩
      have counted := ih (image.add .one once) rest
      rwa [Nat.add_assoc, Nat.add_comm 1] at counted

def ArithmeticFails (α : Type) [Scalar α] (fault : Fault) : Prop :=
  ∃ x y : α, Scalar.add x y = .error fault ∨ Scalar.mul x y = .error fault

def RingFails (α : Type) [Scalar α] (fault : Fault) : Prop :=
  ∃ x y : α, Scalar.add x y = .error fault ∨ Scalar.sub x y = .error fault ∨ Scalar.mul x y = .error fault

theorem ArithmeticFails.ringFails {α : Type} [Scalar α] {fault : Fault} (fails : ArithmeticFails α fault) :
    RingFails α fault := by
  obtain ⟨x, y, sum | product⟩ := fails
  · exact ⟨x, y, Or.inl sum⟩
  · exact ⟨x, y, Or.inr (Or.inr product)⟩

def Scalar.OverflowsOnly (α : Type) [Scalar α] : Prop :=
  ∀ fault, ArithmeticFails α fault → fault = .overflow

theorem Bounded.overflowsOnly (r : IntegerRange) : Scalar.OverflowsOnly (Bounded r) := by
  have each {n : Int} {fault : Fault} (failed : (ofInt n : Except Fault (Bounded r)) = .error fault) :
      fault = .overflow := by
    unfold ofInt at failed
    split at failed
    · cases failed
    · cases failed
      rfl
  rintro fault ⟨x, y, failed | failed⟩
  · exact each failed
  · exact each failed

theorem Scalar.overflowsOnly_of_total {α : Type} [Scalar α] (sums : ∀ x y : α, ∃ z, add x y = .ok z)
    (products : ∀ x y : α, ∃ z, mul x y = .ok z) : OverflowsOnly α := by
  rintro fault ⟨x, y, failed | failed⟩
  · obtain ⟨z, computed⟩ := sums x y
    cases computed.symm.trans failed
  · obtain ⟨z, computed⟩ := products x y
    cases computed.symm.trans failed

theorem Scalar.overflowsOnly_double : OverflowsOnly Float :=
  overflowsOnly_of_total (fun _ _ => ⟨_, rfl⟩) fun _ _ => ⟨_, rfl⟩

theorem Scalar.overflowsOnly_single : OverflowsOnly Float32 :=
  overflowsOnly_of_total (fun _ _ => ⟨_, rfl⟩) fun _ _ => ⟨_, rfl⟩

theorem Scalar.overflowsOnly_complexDouble : OverflowsOnly (Complex Float) :=
  overflowsOnly_of_total (fun _ _ => ⟨_, rfl⟩) fun _ _ => ⟨_, rfl⟩

theorem Scalar.overflowsOnly_complexSingle : OverflowsOnly (Complex Float32) :=
  overflowsOnly_of_total (fun _ _ => ⟨_, rfl⟩) fun _ _ => ⟨_, rfl⟩

theorem foldlM_add_eq_error {α γ : Type} [Scalar α] {steps : List γ} {term : γ → Except Fault α}
    {acc : α} {fault : Fault}
    (failed : steps.foldlM (fun acc step => do Scalar.add acc (← term step)) acc = .error fault) :
    (∃ step ∈ steps, term step = .error fault) ∨ ArithmeticFails α fault := by
  rcases foldlM_eq_error failed with ⟨before, step, present, fails⟩
  rcases bind_eq_error_iff.mp fails with here | adding
  · exact Or.inl ⟨step, present, here⟩
  · rcases adding with ⟨x, _, overflow⟩
    exact Or.inr ⟨before, x, Or.inl overflow⟩

end IndexNotation
