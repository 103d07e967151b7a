import IndexNotation.InnerProduct
import IndexNotation.Proofs.DirectSum
import IndexNotation.Proofs.Orderings
import IndexNotation.Proofs.Scalar.Reading
import IndexNotation.Proofs.Space.Orders
import IndexNotation.Proofs.Space.Power
/-!
The standard metrics. Different basis tensors are orthogonal in every space, so a metric is known by the
squared lengths of basis tensors. In a product these multiply, and in a packed power the orderings count too.
-/
namespace IndexNotation.Metric

variable {α R : Type} [Scalar α] [CommRing R] (reading : Reading α R)

def Diagonal (d : Nat) (metric : Metric α) : Prop :=
  ∀ p < d, ∀ q < d, p ≠ q → ∀ x, metric p q = .ok x → reading.val x = 0

def square (metric : Metric α) (p : Nat) : R := reading.of (metric p p)

section Standard

/-- On the basis tensors of a space of dimension `d` the metric gives the image of a number that is positive
just for one with itself. It fails in its arithmetic alone where there is `room` for all tuples. -/
structure Standard (room : Prop) (d : Nat) (metric : Metric α) : Prop where
  image : ∀ {p q : Nat} {x : α}, p < d → q < d → metric p q = .ok x →
    ∃ n : Nat, (0 < n ↔ p = q) ∧ Scalar.Image n x
  fails : ∀ {p q : Nat} {fault : Fault}, p < d → q < d → metric p q = .error fault →
    fault = .overflow ∨ fault = .capacity ∧ ¬ room ∨ ArithmeticFails α fault

variable {room : Prop}

theorem Standard.diagonal {d : Nat} {metric : Metric α} (standard : Standard room d metric) :
    Diagonal reading d metric := by
  intro p small q small' different x computed
  rcases standard.image small small' computed with ⟨n, positive, image⟩
  have none : n = 0 := Nat.eq_zero_of_not_pos fun more => different (positive.mp more)
  rw [image.val reading, none, Nat.cast_zero]

theorem standard_identity (d : Nat) : Standard room d (identity : Metric α) where
  image := by
    intro p q x _ _ computed
    rw [identity] at computed
    split at computed
    · rename_i same
      cases computed
      exact ⟨1, iff_of_true Nat.one_pos same, .one⟩
    · rename_i different
      cases computed
      exact ⟨0, iff_of_false (Nat.lt_irrefl 0) different, .zero⟩
  fails := by
    intro p q fault _ _ failed
    cases failed

section Product

variable {head body : Metric α} {width p q : Nat} {x : α}

theorem product_eq (positive : 0 < width) (head body : Metric α) (p q : Nat) :
    product head body width p q = (do
      let headComponent ← head (p / width) (q / width)
      Scalar.mul headComponent (← body (p % width) (q % width))) := by
  simp only [product, Size.div, Size.mod, if_neg (Nat.ne_of_gt positive), ok_bind]

theorem product_eq_ok (computed : product head body width p q = .ok x) :
    0 < width ∧ ∃ first, head (p / width) (q / width) = .ok first ∧
      ∃ second, body (p % width) (q % width) = .ok second ∧ Scalar.mul first second = .ok x := by
  rcases Nat.eq_zero_or_pos width with none | positive
  · subst none
    cases computed
  · rw [product_eq positive] at computed
    rcases bind_eq_ok_iff.mp computed with ⟨first, onHead, rest⟩
    rcases bind_eq_ok_iff.mp rest with ⟨second, onBody, multiplied⟩
    exact ⟨positive, first, onHead, second, onBody, multiplied⟩

theorem standard_product {n : Nat} (first : Standard room n head) (second : Standard room width body) :
    Standard room (n * width) (product head body width) := by
  have inHead {p : Nat} (small : p < n * width) : p / width < n :=
    Nat.div_lt_of_lt_mul (Nat.mul_comm n width ▸ small)
  have inBody {p : Nat} (small : p < n * width) : p % width < width :=
    Nat.mod_lt p (Nat.pos_of_mul_pos_left (Nat.zero_lt_of_lt small))
  constructor
  · intro p q x small small' computed
    rcases product_eq_ok computed with ⟨_, a, onHead, b, onBody, multiplied⟩
    rcases first.image (inHead small) (inHead small') onHead with ⟨k, equal, image⟩
    rcases second.image (inBody small) (inBody small') onBody with ⟨l, equal', image'⟩
    refine ⟨k * l, ?_, image.mul image' multiplied⟩
    have positive : 0 < k * l ↔ 0 < k ∧ 0 < l := CanonicallyOrderedAdd.mul_pos
    rw [positive, equal, equal']
    constructor
    · rintro ⟨heads, bodies⟩
      rw [← Nat.div_add_mod p width, ← Nat.div_add_mod q width, heads, bodies]
    · rintro rfl
      exact ⟨rfl, rfl⟩
  · intro p q fault small small' failed
    rw [product_eq (Nat.pos_of_mul_pos_left (Nat.zero_lt_of_lt small))] at failed
    rcases bind_eq_error_iff.mp failed with onHead | ⟨a, _, rest⟩
    · exact first.fails (inHead small) (inHead small') onHead
    rcases bind_eq_error_iff.mp rest with onBody | ⟨b, _, multiplying⟩
    · exact second.fails (inBody small) (inBody small') onBody
    · exact Or.inr (Or.inr ⟨a, b, Or.inr multiplying⟩)

theorem val_product (computed : product head body width p p = .ok x) :
    reading.val x = square reading head (p / width) * square reading body (p % width) := by
  rcases product_eq_ok computed with ⟨_, a, onHead, b, onBody, multiplied⟩
  rw [reading.val_mul multiplied, square, square, onHead, onBody]
  rfl

end Product

theorem standard_tensorPower {factor : Space} {metric made : Metric α} {order n : Nat}
    (sized : factor.dimension = .ok n) (small : order < Nat.pow 2 32) (standard : Standard room n metric)
    (accepted : tensorPower factor metric order = .ok made) : Standard room (n ^ order) made := by
  induction order using Nat.strongRecOn generalizing made with
  | ind order ih =>
      match order with
      | 0 => cases accepted
      | 1 =>
          cases accepted
          rw [pow_one]
          exact standard
      | order + 2 =>
          rw [tensorPower] at accepted
          rcases bind_eq_ok_iff.mp accepted with ⟨body, rest, later⟩
          rcases bind_eq_ok_iff.mp later with ⟨width, counted, done⟩
          cases done
          rcases Space.dimension_tensorPower counted (by omega) with ⟨n', sized', power, _⟩
          rw [sized] at sized'
          cases sized'
          have onBody := ih (order + 1) (by omega) (by omega) rest
          rw [pow_succ', ← power]
          exact standard_product standard (power ▸ onBody)

theorem directSum_of_lies {summands : List Space} {dims : List Nat} {metrics : List (Metric α)}
    (computed : Space.dimensions summands = .ok dims) {p q n m first second : Nat} (atP : Lies dims n first p)
    (atQ : Lies dims m second q) :
    directSum summands metrics p q =
      if n = m then (metrics[n]?.map fun metric => metric first second).getD (.error .outOfBounds)
      else .ok Scalar.zero := by
  rw [directSum, DirectSum.locate_of_lies computed atP, DirectSum.locate_of_lies computed atQ]
  simp only [ok_bind]
  split
  · cases metrics[n]? with
    | none => rfl
    | some metric => rfl
  · rfl

theorem standard_directSum {summands : List Space} {dims : List Nat} {metrics : List (Metric α)}
    (computed : Space.dimensions summands = .ok dims) (each : List.Forall₂ (Standard room) dims metrics) :
    Standard room dims.sum (directSum summands metrics) := by
  have summand {n first place : Nat} (lies : Lies dims n first place) :
      ∃ d metric, dims[n]? = some d ∧ metrics[n]? = some metric ∧ Standard room d metric := by
    rcases lies with ⟨d, stands, _, _⟩
    rcases List.getElem?_eq_some_iff.mp stands with ⟨bound, same⟩
    have inside : n < metrics.length := each.length_eq ▸ bound
    have standard := each.get bound inside
    rw [List.get_eq_getElem, List.get_eq_getElem, same] at standard
    exact ⟨d, metrics[n], stands, List.getElem?_eq_getElem inside, standard⟩
  constructor
  · intro p q x small small' found
    rcases exists_lies small with ⟨n, first, atP⟩
    rcases exists_lies small' with ⟨m, second, atQ⟩
    rw [directSum_of_lies computed atP atQ] at found
    split at found
    · rename_i same
      subst same
      rcases summand atP with ⟨d, metric, stands, kept, standard⟩
      rw [kept] at found
      rcases standard.image (atP.lt stands) (atQ.lt stands) found with ⟨k, positive, image⟩
      refine ⟨k, positive.trans ?_, image⟩
      rcases atP with ⟨_, _, _, rfl⟩
      rcases atQ with ⟨_, _, _, rfl⟩
      exact Nat.add_left_cancel_iff.symm
    · rename_i different
      cases found
      refine ⟨0, iff_of_false (Nat.lt_irrefl 0) ?_, .zero⟩
      rintro rfl
      have found := (DirectSum.locate_of_lies computed atP).symm.trans (DirectSum.locate_of_lies computed atQ)
      cases found
      exact different rfl
  · intro p q fault small small' failed
    rcases exists_lies small with ⟨n, first, atP⟩
    rcases exists_lies small' with ⟨m, second, atQ⟩
    rw [directSum_of_lies computed atP atQ] at failed
    split at failed
    · rename_i same
      subst same
      rcases summand atP with ⟨d, metric, stands, kept, standard⟩
      rw [kept] at failed
      exact standard.fails (atP.lt stands) (atQ.lt stands) failed
    · cases failed

section Packed

variable {power factor : Space} {metric : Metric α} {order n d : Nat}

theorem image_foldlM_mul (standard : Standard room n metric) {parts : List Nat} (small : ∀ part ∈ parts, part < n)
    {acc y : α} {k : Nat} (positive : 0 < k) (image : Scalar.Image k acc)
    (folded : parts.foldlM (fun acc part => do Scalar.mul acc (← metric part part)) acc = .ok y) :
    ∃ l, 0 < l ∧ Scalar.Image l y := by
  induction parts generalizing acc k with
  | nil =>
      cases folded
      exact ⟨k, positive, image⟩
  | cons part parts ih =>
      rw [List.foldlM_cons] at folded
      rcases bind_eq_ok_iff.mp folded with ⟨next, step, rest⟩
      rcases bind_eq_ok_iff.mp step with ⟨x, computed, multiplied⟩
      have inside := small part List.mem_cons_self
      rcases standard.image inside inside computed with ⟨m, square, image'⟩
      exact ih (fun later present => small later (List.mem_cons_of_mem part present))
        (Nat.mul_pos positive (square.mpr rfl)) (image.mul image' multiplied) rest

/-- The weight of a component of a packed power counts at least one ordering of its tuple. -/
theorem standard_packed (kind : power.IsPower order factor) (sized : power.dimension = .ok d)
    (computed : factor.dimension = .ok n) (held : room → order < Nat.pow 2 60) (standard : Standard room n metric) :
    Standard room d (packed power metric) := by
  rcases Nat.lt_or_ge order (Nat.pow 2 60) with short | long
  case inr =>
    have splits (p : Nat) : power.splitIndex p = .error .capacity := Space.splitIndex_of_long kind long p
    constructor
    · intro p q x _ _ found
      rw [packed, packedWeight, splits, error_bind] at found
      split at found
      · cases found
      · rename_i different
        cases found
        exact ⟨0, iff_of_false (Nat.lt_irrefl 0) different, .zero⟩
    · intro p q fault _ _ failed
      rw [packed, packedWeight, splits, error_bind] at failed
      split at failed
      · cases failed
        exact Or.inr (Or.inl ⟨rfl, fun given => Nat.not_lt.mpr long (held given)⟩)
      · cases failed
  have maps := kind.exists_indexMaps sized computed short
  have below {p : Nat} (small : p < d) : ∀ part ∈ power.partsAt p, part < n :=
    (kind.of_canonical (maps.oneToOne.mapsTo small)).2.1
  constructor
  · intro p q x small _ found
    rw [packed] at found
    split at found
    · rename_i same
      rw [packedWeight, maps.splits p small, ok_bind] at found
      rcases bind_eq_ok_iff.mp found with ⟨count, counted, rest⟩
      rcases bind_eq_ok_iff.mp rest with ⟨orderings, added, folded⟩
      rcases image_foldlM_mul standard (below small) (Counting.orderings_pos counted)
        (Nat.zero_add count ▸ Scalar.Image.zero.addOnes added) folded with ⟨l, positive, image⟩
      exact ⟨l, iff_of_true positive same, image⟩
    · rename_i different
      cases found
      exact ⟨0, iff_of_false (Nat.lt_irrefl 0) different, .zero⟩
  · intro p q fault small _ failed
    rw [packed] at failed
    split at failed
    · rw [packedWeight, maps.splits p small, ok_bind] at failed
      rcases bind_eq_error_iff.mp failed with counting | ⟨count, _, rest⟩
      · exact Or.inl (Counting.orderings_eq_error counting)
      rcases bind_eq_error_iff.mp rest with adding | ⟨orderings, _, folding⟩
      · rw [Scalar.addOnes_eq_foldlM] at adding
        rcases foldlM_eq_error adding with ⟨acc, one, _, overflow⟩
        exact Or.inr (Or.inr ⟨acc, one, Or.inl overflow⟩)
      · rcases foldlM_eq_error folding with ⟨acc, part, present, fails⟩
        rcases bind_eq_error_iff.mp fails with inside | ⟨x, _, multiplying⟩
        · exact standard.fails (below small part present) (below small part present) inside
        · exact Or.inr (Or.inr ⟨acc, x, Or.inr multiplying⟩)
    · cases failed

end Packed

theorem ofPower_eq_ok {power factor : Space} {order : Nat} {metric : Except Fault (Metric α)}
    {made : Metric α} (accepted : ofPower power order factor metric = .ok made) :
    order ≠ 0 ∧ factor.isEuclidean = true ∧ ∃ inner, metric = .ok inner ∧ made = packed power inner := by
  unfold ofPower at accepted
  by_cases none : order = 0
  · simp [none] at accepted
  · cases euclidean : factor.isEuclidean with
    | false => simp [none, euclidean] at accepted
    | true =>
        simp only [none, euclidean, if_false, Bool.not_true, Bool.false_eq_true] at accepted
        rcases bind_eq_ok_iff.mp accepted with ⟨inner, found, made⟩
        cases made
        exact ⟨none, rfl, inner, found, rfl⟩

theorem standard_ofPower {power factor : Space} {order d : Nat} {made : Metric α}
    (kind : power.IsPower order factor) (sized : power.dimension = .ok d) (held : room → order < Nat.pow 2 60)
    (accepted : ofPower power order factor (ofSpace factor) = .ok made)
    (onFactor : ∀ (n : Nat) (inner : Metric α), factor.dimension = .ok n → ofSpace factor = .ok inner →
      Standard room n inner) :
    Standard room d made := by
  rcases ofPower_eq_ok accepted with ⟨_, _, inner, found, rfl⟩
  rcases kind.exists_dimension sized with ⟨n, computed⟩
  exact standard_packed kind sized computed held (onFactor n inner computed found)

mutual

/-- The metric of every space is the standard one. -/
theorem standard_ofSpace {s : Space} {d : Nat} {metric : Metric α} (sized : s.dimension = .ok d)
    (fits : s.OrdersFit) (held : room → s.TuplesFit) (made : ofSpace s = .ok metric) :
    Standard room d metric := by
  match s with
  | .based v =>
      rw [ofSpace] at made
      split at made
      · cases made
        exact standard_identity d
      · cases made
  | .tensorProduct factors =>
      rw [Space.dimension] at sized
      rcases bind_eq_ok_iff.mp sized with ⟨dims, computed, product⟩
      rw [← (RowMajor.product_eq_ok product).1]
      exact standard_ofFactors computed fits held made
  | .tensorPower order factor =>
      rw [ofSpace] at made
      split at made
      · cases made
      · rcases bind_eq_ok_iff.mp made with ⟨inner, found, power⟩
        rcases Space.dimension_tensorPower sized fits.1 with ⟨n, computed, rfl, _⟩
        exact standard_tensorPower computed fits.1 (standard_ofSpace computed fits.2 held found) power
  | .symmetricPower order factor =>
      exact standard_ofPower (Or.inl rfl) sized (fun given => (held given).1) made fun n inner computed found =>
        standard_ofSpace computed fits (fun given => (held given).2) found
  | .exteriorPower order factor =>
      exact standard_ofPower (Or.inr rfl) sized (fun given => (held given).1) made fun n inner computed found =>
        standard_ofSpace computed fits (fun given => (held given).2) found
  | .directSum summands =>
      rw [Space.dimension] at sized
      rcases bind_eq_ok_iff.mp sized with ⟨dims, computed, total⟩
      rcases bind_eq_ok_iff.mp made with ⟨metrics, found, done⟩
      cases done
      rw [← (Size.sum_eq_ok total).1]
      exact standard_directSum computed (standard_ofSummands computed fits held found)
  | .diagonal left right =>
      rw [ofSpace] at made
      split at made
      · cases made
        exact standard_identity d
      · cases made

theorem standard_ofFactors {factors : List Space} {dims : List Nat} {metric : Metric α}
    (computed : Space.dimensions factors = .ok dims) (fits : Space.AllFit factors)
    (held : room → Space.AllTuplesFit factors) (made : ofFactors factors = .ok metric) :
    Standard room dims.prod metric := by
  match factors with
  | [] =>
      cases computed
      cases made
      constructor
      · intro p q x small small' found
        rw [List.prod_nil, Nat.lt_one_iff] at small small'
        cases found
        exact ⟨1, iff_of_true Nat.one_pos (small.trans small'.symm), .one⟩
      · intro p q fault _ _ failed
        cases failed
  | [factor] =>
      rw [Space.dimensions] at computed
      rcases bind_eq_ok_iff.mp computed with ⟨d, sized, rest⟩
      cases rest
      rw [List.prod_singleton]
      exact standard_ofSpace sized fits.1 (fun given => (held given).1) made
  | head :: next :: rest =>
      rw [Space.dimensions] at computed
      rcases bind_eq_ok_iff.mp computed with ⟨d, sized, later⟩
      rcases bind_eq_ok_iff.mp later with ⟨others, computed', same⟩
      cases same
      rw [ofFactors] at made
      rcases bind_eq_ok_iff.mp made with ⟨headMetric, onHead, later⟩
      rcases bind_eq_ok_iff.mp later with ⟨body, onBody, later⟩
      rcases bind_eq_ok_iff.mp later with ⟨width, counted, done⟩
      cases done
      rw [Space.dimension, computed', ok_bind] at counted
      have same := (RowMajor.product_eq_ok counted).1
      rw [List.prod_cons, same]
      exact standard_product (standard_ofSpace sized fits.1 (fun given => (held given).1) onHead)
        (same ▸ standard_ofFactors computed' fits.2 (fun given => (held given).2) onBody)

theorem standard_ofSummands {summands : List Space} {dims : List Nat} {metrics : List (Metric α)}
    (computed : Space.dimensions summands = .ok dims) (fits : Space.AllFit summands)
    (held : room → Space.AllTuplesFit summands) (made : ofSummands summands = .ok metrics) :
    List.Forall₂ (Standard room) dims metrics := by
  match summands with
  | [] =>
      cases computed
      cases made
      exact .nil
  | s :: rest =>
      rw [Space.dimensions] at computed
      rcases bind_eq_ok_iff.mp computed with ⟨d, sized, later⟩
      rcases bind_eq_ok_iff.mp later with ⟨others, computed', same⟩
      cases same
      rw [ofSummands] at made
      rcases bind_eq_ok_iff.mp made with ⟨metric, first, later⟩
      rcases bind_eq_ok_iff.mp later with ⟨more, others, done⟩
      cases done
      exact .cons (standard_ofSpace sized fits.1 (fun given => (held given).1) first)
        (standard_ofSummands computed' fits.2 (fun given => (held given).2) others)

end

end Standard

theorem diagonal_packed (power : Space) (metric : Metric α) (d : Nat) :
    Diagonal reading d (packed power metric) := by
  intro p _ q _ different x computed
  rw [packed, if_neg different] at computed
  cases computed
  exact reading.val_zero

theorem val_ofFactors_cons {head : Space} {rest : List Space} {dims : List Nat} {made : Metric α}
    (computed : Space.dimensions rest = .ok dims) (accepted : ofFactors (head :: rest) = .ok made) :
    ∃ first body : Metric α, ofSpace head = .ok first ∧ ofFactors rest = .ok body ∧
      ∀ p x, made p p = .ok x → (∃ y, body (p % dims.prod) (p % dims.prod) = .ok y) ∧
        reading.val x = square reading first (p / dims.prod) * square reading body (p % dims.prod) := by
  cases rest with
  | nil =>
      cases computed
      refine ⟨made, _, accepted, rfl, fun p x found => ⟨⟨_, rfl⟩, ?_⟩⟩
      rw [List.prod_nil, Nat.div_one, square, found, square]
      change reading.val x = reading.val x * reading.val Scalar.one
      rw [reading.val_one, mul_one]
  | cons next rest =>
      rw [ofFactors] at accepted
      rcases bind_eq_ok_iff.mp accepted with ⟨first, onHead, later⟩
      rcases bind_eq_ok_iff.mp later with ⟨body, onBody, later⟩
      rcases bind_eq_ok_iff.mp later with ⟨width, counted, done⟩
      cases done
      rw [Space.dimension, computed, ok_bind] at counted
      rw [(RowMajor.product_eq_ok counted).1]
      refine ⟨first, body, onHead, onBody, fun p x found => ⟨?_, val_product reading found⟩⟩
      rcases product_eq_ok found with ⟨_, _, _, y, second, _⟩
      exact ⟨y, second⟩

section Power

variable {factor : Space} {metric : Metric α} {n : Nat}

theorem val_ofFactors_replicate {order : Nat} {made : Metric α} (found : ofSpace factor = .ok metric)
    (sized : factor.dimension = .ok n) (accepted : ofFactors (List.replicate order factor) = .ok made)
    {parts : List Nat} (below : RowMajor.Below parts (List.replicate order n)) {x : α}
    (computed : made (RowMajor.number parts (List.replicate order n))
      (RowMajor.number parts (List.replicate order n)) = .ok x) :
    reading.val x = (parts.map (square reading metric)).prod := by
  induction order generalizing made parts x with
  | zero =>
      rcases List.length_eq_zero_iff.mp (below.length_eq.trans List.length_replicate) with rfl
      cases accepted
      cases computed
      exact reading.val_one
  | succ order ih =>
      cases parts with
      | nil => cases below
      | cons value rest =>
          rcases below with ⟨_, later⟩
          have small := RowMajor.number_lt later
          have positive := Nat.zero_lt_of_lt small
          rcases val_ofFactors_cons reading (Space.dimensions_replicate sized) accepted with
            ⟨first, body, onHead, onBody, values⟩
          cases found.symm.trans onHead
          have place : RowMajor.number (value :: rest) (List.replicate (order + 1) n) =
              (List.replicate order n).prod * value + RowMajor.number rest (List.replicate order n) := by
            rw [List.replicate_succ, RowMajor.number, Nat.mul_comm]
          rw [place] at computed
          rcases values _ x computed with ⟨⟨y, inside⟩, length⟩
          rw [Nat.mul_add_div positive, Nat.div_eq_of_lt small, Nat.add_zero] at length
          rw [Nat.mul_add_mod, Nat.mod_eq_of_lt small] at length inside
          rw [length, List.map_cons, List.prod_cons, ← ih onBody later inside, square, square, inside]
          rfl

theorem val_addOnes {count : Nat} {acc y : α} (added : Scalar.addOnes count acc = .ok y) :
    reading.val y = reading.val acc + count := by
  induction count generalizing acc with
  | zero =>
      cases added
      simp
  | succ count ih =>
      rw [Scalar.addOnes] at added
      rcases bind_eq_ok_iff.mp added with ⟨next, one, rest⟩
      rw [ih rest, reading.val_add one, reading.val_one]
      push_cast
      ring

theorem val_foldlM_mul {parts : List Nat} {acc y : α}
    (folded : parts.foldlM (fun acc part => do Scalar.mul acc (← metric part part)) acc = .ok y) :
    reading.val y = reading.val acc * (parts.map (square reading metric)).prod := by
  induction parts generalizing acc with
  | nil =>
      cases folded
      simp
  | cons part parts ih =>
      rw [List.foldlM_cons] at folded
      rcases bind_eq_ok_iff.mp folded with ⟨next, step, rest⟩
      rcases bind_eq_ok_iff.mp step with ⟨x, computed, multiplied⟩
      rw [ih rest, reading.val_mul multiplied, List.map_cons, List.prod_cons, square, computed, mul_assoc]
      rfl

theorem val_packed {power : Space} {p : Nat} {x : α} (computed : packed power metric p p = .ok x) :
    ∃ parts count, power.splitIndex p = .ok parts ∧ Counting.orderings parts = .ok count ∧
      reading.val x = count * (parts.map (square reading metric)).prod := by
  rw [packed, if_pos rfl] at computed
  rcases bind_eq_ok_iff.mp computed with ⟨parts, split, rest⟩
  rcases bind_eq_ok_iff.mp rest with ⟨count, counted, rest⟩
  rcases bind_eq_ok_iff.mp rest with ⟨orderings, added, folded⟩
  refine ⟨parts, count, split, counted, ?_⟩
  rw [val_foldlM_mul reading folded, val_addOnes reading added, reading.val_zero, zero_add]

end Power

end IndexNotation.Metric
