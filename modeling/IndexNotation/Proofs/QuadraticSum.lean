import IndexNotation.Expression.Component
import IndexNotation.Proofs.Expression.Value
import IndexNotation.Proofs.Metric

namespace IndexNotation

variable {α : Type}

namespace CountM

variable {β γ : Type}

theorem ofExcept_bind (x : Except Fault β) (f : β → Except Fault γ) :
    (ofExcept x >>= fun b => ofExcept (f b)) = ofExcept (x >>= f) := by
  cases x with
  | error fault => rfl
  | ok b => rfl

theorem foldlM_ofExcept {steps : List γ} {f : β → γ → CountM β} {g : β → γ → Except Fault β} {acc : β}
    (each : ∀ acc, ∀ step ∈ steps, f acc step = ofExcept (g acc step)) :
    steps.foldlM f acc = ofExcept (steps.foldlM g acc) := by
  induction steps generalizing acc with
  | nil => rfl
  | cons step steps ih =>
      rw [List.foldlM_cons, List.foldlM_cons, each acc step List.mem_cons_self, ← ofExcept_bind]
      apply congrArg (ofExcept (g acc step) >>= ·)
      funext next
      exact ih fun acc later present => each acc later (List.mem_cons_of_mem step present)

end CountM

theorem Generator.evaluate_ofFunction (id : String) (dimension : Nat) (component : Nat → Except Fault α)
    (index : Nat) :
    (ofFunction id dimension component).evaluate index =
      CountM.ofExcept
        (if index < dimension then component index else .error (.generatorOutOfRange index id dimension)) := by
  rw [evaluate]
  change (if index < dimension then CountM.ofExcept (component index) else _) = _
  split
  · rfl
  · rfl

variable [Scalar α]

namespace InnerProduct

def pairComponent (metric : Metric α) (flat : Nat) : Except Fault α := do
  match ← Packed.symmetricParts flat 2 with
  | p :: q :: _ => metric p q
  | _ => throw .outOfBounds

theorem generator_eq_ok {space : Space} {g : Generator α} (made : generator space = .ok g) :
    ∃ metric dimension, Metric.ofSpace space = .ok metric ∧
      (Space.symmetricPower 2 space.dual).dimension = .ok dimension ∧
      g = .ofFunction (Text.applied "inner_product" [space.text]) dimension (pairComponent metric) := by
  rcases bind_eq_ok_iff.mp made with ⟨metric, found, rest⟩
  rcases bind_eq_ok_iff.mp rest with ⟨dimension, sized, done⟩
  cases done
  exact ⟨metric, dimension, found, sized, rfl⟩

omit [Scalar α] in
theorem mergeSort_pair (p q : Nat) : [p, q].mergeSort (· ≥ ·) = [max p q, min p q] := by
  rw [← Packed.sortDescending_eq_mergeSort]
  simp only [Packed.sortDescending, Packed.insertDescending]
  split
  · rename_i smaller
    rw [Nat.max_eq_right (Nat.le_of_lt smaller), Nat.min_eq_left (Nat.le_of_lt smaller)]
  · rename_i larger
    rw [Nat.max_eq_left (Nat.le_of_not_lt larger), Nat.min_eq_right (Nat.le_of_not_lt larger)]

theorem evaluate_generator {space : Space} {metric : Metric α} {g : Generator α} {n p q : Nat}
    (found : Metric.ofSpace space = .ok metric) (made : generator space = .ok g)
    (sized : space.dimension = .ok n) (small : p < n) (small' : q < n) :
    (do g.evaluate (← CountM.ofExcept (Packed.symmetricFlat [p, q]))) =
      CountM.ofExcept (metric (max p q) (min p q)) := by
  rcases generator_eq_ok made with ⟨metric', dimension, found', counted, rfl⟩
  rw [found] at found'
  cases found'
  have computed := counted
  rw [Space.dimension, Space.dimension_dual, sized, ok_bind] at computed
  have maps : (Space.symmetricPower 2 space.dual).IndexMaps dimension [n, n] :=
    Space.indexMaps_symmetricPower computed (by decide)
  rcases maps.bundles [p, q] ⟨small, small', trivial⟩ id with ⟨flat, inside, sign, bundled, sorted⟩
  have packed : Packed.symmetricFlat [p, q] = .ok flat := by
    rcases bind_eq_ok_iff.mp bundled with ⟨other, packed, same⟩
    cases same
    exact packed
  have split : Packed.symmetricParts flat 2 = .ok [max p q, min p q] := by
    have parts := maps.splits flat inside
    rw [sorted] at parts
    exact parts.trans (congrArg Except.ok (mergeSort_pair p q))
  rw [packed]
  change Generator.evaluate _ flat = _
  rw [Generator.evaluate_ofFunction, if_pos inside, pairComponent, split]
  rfl

def pairTerm (metric : Metric α) (x : Array α) (pair : List Nat) : Except Fault α :=
  match pair with
  | [p, q] =>
    match x[p]?, x[q]? with
    | some left, some right => do
      let product ← Scalar.mul left right
      Scalar.mul product (← metric (max p q) (min p q))
    | _, _ => .error .outOfBounds
  | _ => .error .outOfBounds

def squared (metric : Metric α) (x : Array α) : Except Fault α :=
  (RowMajor.tuples [x.size, x.size]).foldlM
    (fun acc pair => do Scalar.add acc (← pairTerm metric x pair)) Scalar.zero

theorem exists_pairTerm {metric : Metric α} {x : Array α} {a : α} (computed : squared metric x = .ok a) {p q : Nat}
    (small : p < x.size) (small' : q < x.size) : ∃ y, pairTerm metric x [p, q] = .ok y :=
  exists_of_foldlM_add computed _ (RowMajor.mem_tuples.mpr ⟨small, small', trivial⟩)

theorem quadraticSum_eq {space : Space} {metric : Metric α} {g : Generator α} {x : Array α}
    (found : Metric.ofSpace space = .ok metric) (made : generator space = .ok g)
    (sized : space.dimension = .ok x.size) :
    quadraticSum g x = CountM.ofExcept (squared metric x) := by
  rw [quadraticSum, squared, RowMajor.foldTuples_eq_foldlM]
  apply CountM.foldlM_ofExcept
  intro acc pair present
  rcases Space.below_pair_iff.mp (RowMajor.mem_tuples.mp present) with ⟨p, q, rfl, small, small'⟩
  have looked : term g x p q = CountM.ofExcept (pairTerm metric x [p, q]) := by
    have evaluated := evaluate_generator found made sized small small'
    rw [term, pairTerm, Array.getElem?_eq_getElem small, Array.getElem?_eq_getElem small']
    dsimp only
    rw [← CountM.ofExcept_bind]
    apply congrArg (CountM.ofExcept (Scalar.mul x[p] x[q]) >>= ·)
    funext product
    rw [← CountM.ofExcept_bind, ← evaluated, bind_assoc]
  dsimp only
  rw [looked, CountM.ofExcept_bind]

end InnerProduct

section Reading

variable {R : Type} [CommRing R] (reading : Reading α R)

def Reading.entry (x : Array α) (p : Nat) : R := reading.val (x[p]?.getD Scalar.zero)

theorem Reading.entry_eq {x : Array α} {p : Nat} {y : α} (present : x[p]? = some y) :
    reading.entry x p = reading.val y := by
  rw [entry, present]
  rfl

namespace InnerProduct

theorem val_pairTerm {metric : Metric α} {x : Array α} {p q : Nat} {y : α}
    (computed : pairTerm metric x [p, q] = .ok y) :
    ∃ weight, metric (max p q) (min p q) = .ok weight ∧
      reading.val y = reading.entry x p * reading.entry x q * reading.val weight := by
  rw [pairTerm] at computed
  split at computed
  · rename_i first second
    rcases bind_eq_ok_iff.mp computed with ⟨product, squared, rest⟩
    rcases bind_eq_ok_iff.mp rest with ⟨weight, looked, multiplied⟩
    refine ⟨weight, looked, ?_⟩
    rw [reading.val_mul multiplied, reading.val_mul squared, reading.entry_eq first, reading.entry_eq second]
  · cases computed

theorem of_pairTerm {metric : Metric α} {x : Array α} (diagonal : Metric.Diagonal reading x.size metric)
    {p q : Nat} (small : p < x.size) (small' : q < x.size) {y : α}
    (computed : pairTerm metric x [p, q] = .ok y) :
    reading.val y = if p = q then reading.entry x p ^ 2 * Metric.square reading metric p else 0 := by
  rcases val_pairTerm reading computed with ⟨weight, looked, value⟩
  rw [value]
  split
  · rename_i same
    subst same
    rw [Nat.max_self, Nat.min_self] at looked
    rw [Metric.square, looked, sq]
    rfl
  · rename_i different
    have apart : max p q ≠ min p q := by omega
    have inside := Nat.lt_of_le_of_lt (Nat.min_le_left p q) small
    rw [diagonal _ (Nat.max_lt.mpr ⟨small, small'⟩) _ inside apart weight looked, mul_zero]

theorem val_squared {metric : Metric α} {x : Array α} {a : α} (computed : squared metric x = .ok a) :
    reading.val a =
      ∑ p ∈ Finset.range x.size, ∑ q ∈ Finset.range x.size, reading.of (pairTerm metric x [p, q]) := by
  rw [(reading.val_foldlM_add computed).2, reading.val_zero, zero_add, RowMajor.sum_map_tuples]
  apply Finset.sum_congr rfl
  intro p _
  rw [RowMajor.sum_map_tuples]
  apply Finset.sum_congr rfl
  intro q _
  simp [RowMajor.tuples]

theorem val_squared_diagonal {metric : Metric α} {x : Array α} {a : α}
    (diagonal : Metric.Diagonal reading x.size metric) (computed : squared metric x = .ok a) :
    (∀ p < x.size, ∃ y, metric p p = .ok y) ∧
      reading.val a = ∑ p ∈ Finset.range x.size, reading.entry x p ^ 2 * Metric.square reading metric p := by
  refine ⟨?_, ?_⟩
  · intro p small
    rcases exists_pairTerm computed small small with ⟨y, computed⟩
    rw [pairTerm, Array.getElem?_eq_getElem small] at computed
    rcases bind_eq_ok_iff.mp computed with ⟨_, _, rest⟩
    rcases bind_eq_ok_iff.mp rest with ⟨weight, looked, _⟩
    rw [Nat.max_self, Nat.min_self] at looked
    exact ⟨weight, looked⟩
  · have row {p : Nat} (small : p < x.size) :
        ∑ q ∈ Finset.range x.size, reading.of (pairTerm metric x [p, q]) =
          reading.entry x p ^ 2 * Metric.square reading metric p := by
      calc ∑ q ∈ Finset.range x.size, reading.of (pairTerm metric x [p, q])
          = ∑ q ∈ Finset.range x.size,
              if p = q then reading.entry x p ^ 2 * Metric.square reading metric p else 0 := by
            apply Finset.sum_congr rfl
            intro q member
            rcases exists_pairTerm computed small (Finset.mem_range.mp member) with ⟨y, computed⟩
            rw [← of_pairTerm reading diagonal small (Finset.mem_range.mp member) computed, computed]
            rfl
        _ = reading.entry x p ^ 2 * Metric.square reading metric p := by
            rw [Finset.sum_ite_eq, if_pos (Finset.mem_range.mpr small)]
    rw [val_squared reading computed]
    exact Finset.sum_congr rfl fun p member => row (Finset.mem_range.mp member)

theorem val_quadraticSum {space : Space} {metric : Metric α} {g : Generator α} {x : Array α} {a : α}
    {counts : Counts} (found : Metric.ofSpace space = .ok metric) (made : generator space = .ok g)
    (sized : space.dimension = .ok x.size) (diagonal : Metric.Diagonal reading x.size metric)
    (ran : (quadraticSum g x counts).1 = .ok a) :
    (∀ p < x.size, ∃ y, metric p p = .ok y) ∧
      reading.val a = ∑ p ∈ Finset.range x.size, reading.entry x p ^ 2 * Metric.square reading metric p := by
  rw [quadraticSum_eq found made sized] at ran
  exact val_squared_diagonal reading diagonal ran

end InnerProduct

end Reading

end IndexNotation
