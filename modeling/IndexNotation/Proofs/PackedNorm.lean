import IndexNotation.Proofs.Expression.Bundling
import IndexNotation.Proofs.Expression.Materialized
import IndexNotation.Proofs.InnerProduct.Defined
import IndexNotation.Proofs.Space.Power
/-!
The norm of a packed power. A tensor of a symmetric or exterior power has the squared norm of the full tensor
that it splits into: each of its components stands for all orderings of its tuple, and counts for as many.
-/
namespace IndexNotation

variable {α : Type}

section Sums

variable {β R : Type} [CommRing R]

theorem sum_ite_eq_countP_mul (counted : β → Prop) [DecidablePred counted] (xs : List β) (c : R) :
    (xs.map fun x => if counted x then c else 0).sum = (xs.countP (fun x => decide (counted x)) : R) * c := by
  rw [List.sum_map_ite, List.map_const', List.map_const', List.sum_replicate, List.sum_replicate, nsmul_zero,
    add_zero, nsmul_eq_mul, List.countP_eq_length_filter]

theorem sum_map_sum (xs : List β) (f : Nat → β → R) (d : Nat) :
    (xs.map fun x => ∑ i ∈ Finset.range d, f i x).sum = ∑ i ∈ Finset.range d, (xs.map (f i)).sum := by
  induction xs with
  | nil => simp
  | cons x xs ih => simp only [List.map_cons, List.sum_cons, ih, Finset.sum_add_distrib]

end Sums

namespace Space.IsPower

variable {s factor : Space} {order n d : Nat} (power : s.IsPower order factor)

include power

theorem ofSpace_eq [Scalar α] {metric : Metric α} (positive : 0 < order)
    (found : Metric.ofSpace factor = .ok metric) : Metric.ofSpace s = .ok (Metric.packed s metric) := by
  rcases power with rfl | rfl
  · exact Metric.ofPower_eq positive found
  · exact Metric.ofPower_eq positive found

variable {R : Type} [CommRing R]

/-- Every tuple counts for the component that it sorts to, and every component has the orderings of its tuple
for tuples that sort to it. -/
theorem sum_tuples (maps : s.IndexMaps d (List.replicate order n)) {term : List Nat → R}
    {canonical : List Nat → R}
    (vanishing : ∀ tuple, RowMajor.Below tuple (List.replicate order n) → s.Vanishes tuple → term tuple = 0)
    (sorted : ∀ tuple, RowMajor.Below tuple (List.replicate order n) → ¬ s.Vanishes tuple →
      term tuple = canonical (s.canonicalOrder tuple)) :
    ((RowMajor.tuples (List.replicate order n)).map term).sum =
      ∑ flat ∈ Finset.range d,
        (Counting.arrangements n (s.partsAt flat) : R) * canonical (s.partsAt flat) := by
  have facts {flat : Nat} (small : flat < d) := power.of_canonical (maps.oneToOne.mapsTo small)
  have each : ∀ tuple ∈ RowMajor.tuples (List.replicate order n), term tuple =
      ∑ flat ∈ Finset.range d, if tuple.Perm (s.partsAt flat) then canonical (s.partsAt flat) else 0 := by
    intro tuple present
    have below := RowMajor.mem_tuples.mp present
    by_cases vanishes : s.Vanishes tuple
    · rw [vanishing tuple below vanishes]
      symm
      apply Finset.sum_eq_zero
      intro flat member
      exact if_neg fun permuted => (facts (Finset.mem_range.mp member)).2.2.2 tuple permuted vanishes
    · rcases maps.bundles tuple below vanishes with ⟨flat, small, _, _, same⟩
      rw [sorted tuple below vanishes, ← same]
      have permuted : tuple.Perm (s.partsAt flat) := by
        rw [same, power.canonicalOrder_eq]
        exact (List.mergeSort_perm tuple (· ≥ ·)).symm
      rw [Finset.sum_eq_single flat, if_pos permuted]
      · intro other member different
        apply if_neg
        intro permuted'
        apply different
        -- two descending orders of one tuple are the same
        apply maps.oneToOne.injOn (Finset.mem_range.mp member) small
        apply (permuted'.symm.trans permuted).eq_of_pairwise fun _ _ _ _ large small => Nat.le_antisymm small large
        · exact (facts (Finset.mem_range.mp member)).2.2.1
        · exact (facts small).2.2.1
      · intro absent
        exact absurd (Finset.mem_range.mpr small) absent
  rw [List.map_congr_left each, sum_map_sum]
  apply Finset.sum_congr rfl
  intro flat member
  rw [Counting.arrangements, (facts (Finset.mem_range.mp member)).1]
  exact sum_ite_eq_countP_mul (fun tuple : List Nat => tuple.Perm (s.partsAt flat)) _ _

end Space.IsPower

section Norm

variable [Scalar α]

/-- The squared norm before it is read as a real number. -/
def Tensor.squaredSum (t : Tensor α) : EvalM α α := InnerProduct.squaredSum t.space t.toArray

def Expression.squaredSum (e : Expression α) : EvalM α α := do
  let components ← e.toArray
  InnerProduct.squaredSum e.space (pure components)

theorem Tensor.squaredNorm_eq (t : Tensor α) :
    t.squaredNorm = do return Scalar.magnitude (← t.squaredSum) := rfl

theorem Expression.squaredNorm_eq (e : Expression α) :
    e.squaredNorm = do return Scalar.magnitude (← e.squaredSum) := by
  rw [squaredNorm, squaredSum, bind_assoc]
  rfl

theorem InnerProduct.squaredSum_eq_ok {space : Space} {components : EvalM α (Array α)} {memory : Memory α}
    {scratch later : Scratch α} {a : α}
    (ran : squaredSum space components memory scratch = (.ok a, later)) :
    ∃ g x middle counts, generator space = .ok g ∧ components memory scratch = (.ok x, middle) ∧
      (quadraticSum g x counts).1 = .ok a := by
  rcases EvalM.bind_run_eq_ok_iff.mp ran with ⟨g, first, built, rest⟩
  have pair : (generator space, scratch) = (.ok g, first) := built
  rcases Prod.mk.inj pair with ⟨made, rfl⟩
  rcases EvalM.bind_run_eq_ok_iff.mp rest with ⟨x, middle, evaluated, summed⟩
  exact ⟨g, x, middle, middle.counts, made, evaluated, congrArg Prod.fst summed⟩

namespace Space.IsPower

variable {R : Type} [CommRing R] (reading : Reading α R) {s factor : Space} {order n d : Nat}
  {metric : Metric α} {x : Array α}

/-- What a canonical tuple adds to the squared norm for each of its orderings. -/
def canonicalTerm (s : Space) (metric : Metric α) (x : Array α) (parts : List Nat) : R :=
  (match s.bundleIndex parts with
    | .ok (some (flat, _)) => reading.entry x flat ^ 2
    | _ => 0) * (parts.map (Metric.square reading metric)).prod

theorem canonicalTerm_eq {parts : List Nat} {flat : Nat} {sign : Sign}
    (bundled : s.bundleIndex parts = .ok (some (flat, sign))) :
    canonicalTerm reading s metric x parts =
      reading.entry x flat ^ 2 * (parts.map (Metric.square reading metric)).prod := by
  rw [canonicalTerm, bundled]

theorem val_quadraticSum (power : s.IsPower order factor) (positive : 0 < order) (short : order < Nat.pow 2 60)
    (found : Metric.ofSpace factor = .ok metric) (computed : factor.dimension = .ok n)
    (sized : s.dimension = .ok x.size) {g : Generator α} {counts : Counts} {a : α}
    (made : InnerProduct.generator s = .ok g) (ran : (InnerProduct.quadraticSum g x counts).1 = .ok a) :
    reading.val a = ∑ flat ∈ Finset.range x.size,
      (Counting.arrangements n (s.partsAt flat) : R) *
        canonicalTerm reading s metric x (s.partsAt flat) := by
  have maps := power.exists_indexMaps sized computed short
  rcases InnerProduct.val_quadraticSum reading (power.ofSpace_eq positive found) made sized
    (Metric.diagonal_packed reading s metric x.size) ran with ⟨weights, total⟩
  rw [total]
  apply Finset.sum_congr rfl
  intro flat member
  have small := Finset.mem_range.mp member
  rcases weights flat small with ⟨w, weight⟩
  rcases Metric.val_packed reading weight with ⟨parts, count, split, counted, val⟩
  rw [maps.splits flat small] at split
  cases split
  rcases power.of_canonical (maps.oneToOne.mapsTo small) with ⟨_, below, _⟩
  rw [Counting.orderings_eq_arrangements counted below] at val
  rw [canonicalTerm_eq reading (maps.bundlesBack flat small), Metric.square, weight]
  change _ * reading.val w = _
  rw [val]
  ring

theorem val_quadraticSum_replicate (found : Metric.ofSpace factor = .ok metric)
    (computed : factor.dimension = .ok n) (fits : factor.OrdersFit) {whole : Space}
    (same : (Metric.ofSpace whole : Except Fault (Metric α)) = Metric.ofFactors (List.replicate order factor))
    {y : Array α} (counted : whole.dimension = .ok y.size) (all : (List.replicate order n).prod = y.size)
    {g : Generator α} {counts : Counts} {b : α} (made : InnerProduct.generator whole = .ok g)
    (ran : (InnerProduct.quadraticSum g y counts).1 = .ok b) :
    reading.val b = ((RowMajor.tuples (List.replicate order n)).map fun tuple =>
      reading.entry y (RowMajor.number tuple (List.replicate order n)) ^ 2 *
        (tuple.map (Metric.square reading metric)).prod).sum := by
  rcases InnerProduct.generator_eq_ok made with ⟨product, _, onWhole, _⟩
  have onFactors := same ▸ onWhole
  have diagonal : Metric.Diagonal reading y.size product := by
    rw [← all]
    have fit : Space.AllFit (List.replicate order factor) :=
      Space.allFit_iff.mpr fun other present => List.eq_of_mem_replicate present ▸ fits
    exact (Metric.standard_ofFactors (Space.dimensions_replicate computed) fit False.elim onFactors).diagonal reading
  rcases InnerProduct.val_quadraticSum reading onWhole made counted diagonal ran with ⟨weights, total⟩
  have squares {tuple : List Nat} (below : RowMajor.Below tuple (List.replicate order n)) :
      Metric.square reading product (RowMajor.number tuple (List.replicate order n)) =
        (tuple.map (Metric.square reading metric)).prod := by
    rcases weights _ (all ▸ RowMajor.number_lt below) with ⟨w, weight⟩
    rw [Metric.square, weight, ← Metric.val_ofFactors_replicate reading found computed onFactors below weight]
    rfl
  rw [total, ← all, ← RowMajor.sum_map_number]
  apply congrArg List.sum
  apply List.map_congr_left
  intro tuple present
  rw [squares (RowMajor.mem_tuples.mp present)]

/-- The squared norm of the tensor that a packed one splits into, whose components are those of the tuples in
canonical order up to sign, comes to the same. -/
theorem val_quadraticSum_split (power : s.IsPower order factor) (short : order < Nat.pow 2 60)
    (found : Metric.ofSpace factor = .ok metric) (computed : factor.dimension = .ok n)
    (fits : factor.OrdersFit) (sized : s.dimension = .ok d) {whole : Space}
    (same : (Metric.ofSpace whole : Except Fault (Metric α)) = Metric.ofFactors (List.replicate order factor))
    {y : Array α}
    (counted : whole.dimension = .ok y.size) (all : (List.replicate order n).prod = y.size)
    (entries : ∀ tuple, RowMajor.Below tuple (List.replicate order n) →
      (s.Vanishes tuple → reading.entry y (RowMajor.number tuple (List.replicate order n)) = 0) ∧
        ∀ flat sign, s.bundleIndex tuple = .ok (some (flat, sign)) →
          reading.entry y (RowMajor.number tuple (List.replicate order n)) ^ 2 = reading.entry x flat ^ 2)
    {g : Generator α} {counts : Counts} {b : α} (made : InnerProduct.generator whole = .ok g)
    (ran : (InnerProduct.quadraticSum g y counts).1 = .ok b) :
    reading.val b = ∑ flat ∈ Finset.range d,
      (Counting.arrangements n (s.partsAt flat) : R) *
        canonicalTerm reading s metric x (s.partsAt flat) := by
  have maps := power.exists_indexMaps sized computed short
  rw [val_quadraticSum_replicate reading found computed fits same counted all made ran]
  apply power.sum_tuples maps
  · intro tuple below vanishes
    rw [(entries tuple below).1 vanishes]
    ring
  · intro tuple below present
    rcases maps.bundles tuple below present with ⟨flat, small, sign, bundled, sorted⟩
    have back := maps.bundlesBack flat small
    rw [sorted] at back
    have permuted : (s.canonicalOrder tuple).Perm tuple := by
      rw [power.canonicalOrder_eq]
      exact List.mergeSort_perm tuple (· ≥ ·)
    rw [(entries tuple below).2 flat sign bundled, canonicalTerm_eq reading back, (permuted.map _).prod_eq]

end Space.IsPower

theorem FreeIndex.ofSpace_space {free : List FreeIndex} :
    (Metric.ofSpace (space free) : Except Fault (Metric α)) = Metric.ofFactors (free.map factor) := by
  match free with
  | [] | [_] | _ :: _ :: _ => rfl

omit [Scalar α] in
theorem FreeIndex.space_of_replicate {free : List FreeIndex} {factor : Space} {order : Nat}
    (same : free.map FreeIndex.factor = List.replicate order factor) :
    space free = if order = 1 then factor else .tensorProduct (List.replicate order factor) := by
  have length := congrArg List.length same
  rw [List.length_map, List.length_replicate] at length
  match free with
  | [] =>
      rw [if_neg (by simp [← length]), ← same]
      rfl
  | [index] =>
      subst length
      rw [List.map_singleton, List.length_singleton, List.replicate_one, List.singleton_inj] at same
      exact same
  | _ :: _ :: _ =>
      rw [if_neg (by simp [← length]), ← same]
      rfl

namespace Tensor

variable {t : Tensor α} {factor : Space} {order n d : Nat} {p : Symbol} {symbols : IndexList}

section Accepted

omit [Scalar α]

variable (power : t.space.IsPower order factor)

include power

theorem index_of_isPower (sized : t.space.dimension = .ok d) (p : Symbol) :
    Expression.index t [p] = .ok (t.indexed [p] [t.space] [d]) := index_single power.tensorFactors sized p

theorem splitAt_of_isPower (listed : t.space.reserveSplitFactors = .ok ()) (length : symbols.length = order)
    (distinct : symbols.Nodup) (apart : p ∉ symbols) :
    (t.indexed [p] [t.space] [d]).splitAt p symbols =
      .ok (t.unpacked d (List.replicate order factor) p symbols) :=
  splitAt_single listed power.splitFactors (by rw [List.length_replicate, length]) distinct apart

end Accepted

omit [Scalar α] in
theorem factors_unpacked {factors : List Space} (length : symbols.length = factors.length) :
    (t.unpacked d factors p symbols).free.map FreeIndex.factor = factors := by
  rw [free_unpacked, FreeIndex.factors_zipWith_mk length]

omit [Scalar α] in
theorem freeDims_unpacked (length : symbols.length = order) (computed : factor.dimension = .ok n) :
    (t.unpacked d (List.replicate order factor) p symbols).freeDims = .ok (List.replicate order n) := by
  rw [Expression.freeDims, FreeIndex.dimensions, factors_unpacked (by rw [length, List.length_replicate]),
    Space.dimensions_replicate computed]

omit [Scalar α] in
theorem cachesApart_unpacked (factors : List Space) : CachesApart [t.unpacked d factors p symbols] :=
  cachesApart_of_nil (by simp [unpacked, indexed, Expression.cacheNodes])

section Value

variable {memory : Memory α} {caches : Caches α} {tuple : List Nat}

theorem value_unpacked (factors : List Space) (length : tuple.length = symbols.length) :
    (t.unpacked d factors p symbols).value memory caches tuple = (do
      match ← t.space.bundleIndex tuple with
      | none => return Scalar.zero
      | some (flat, sign) => sign.apply (← (t.indexed [p] [t.space] [d]).value memory caches [flat])) := by
  have found := @Splitting.operandValues_append
    ((t.indexed [p] [t.space] [d]).splitting 0 t.space symbols factors) [] tuple rfl length []
  rw [List.nil_append, List.append_nil] at found
  rw [unpacked, Expression.value, found]
  change (t.space.bundleIndex tuple).map _ >>= _ = _
  cases t.space.bundleIndex tuple with
  | error fault => rfl
  | ok bundled =>
      cases bundled with
      | none => rfl
      | some bundled => rfl

theorem value_indexed_single (power : t.space.IsPower order factor) (fits : d < Size.bound) {flat : Nat}
    (small : flat < d) (memory : Memory α) (caches : Caches α) (p : Symbol) :
    (t.indexed [p] [t.space] [d]).value memory caches [flat] = t.components.value memory flat := by
  have below : RowMajor.Below ([p].map fun _ => flat) [d] := ⟨small, trivial⟩
  have only : [d].prod ≤ Size.bound := by
    rw [List.prod_singleton]
    exact Nat.le_of_lt fits
  have number : RowMajor.number ([p].map fun _ => flat) [d] = flat := by simp [RowMajor.number]
  rw [← number, ← Expression.valueAt_indexed (indexedFactors_single power.tensorFactors p) below only, number]
  rfl

variable {R : Type} [CommRing R] (reading : Reading α R)

theorem val_sign {sign : Sign} {z y : α} (applied : sign.apply z = .ok y) :
    reading.val y ^ 2 = reading.val z ^ 2 := by
  cases sign with
  | positive =>
      cases applied
      rfl
  | negative =>
      rw [reading.val_sub applied, reading.val_zero]
      ring

/-- The components of the full tensor are those of the packed one, up to sign: a tuple has the component of its
canonical order, or zero. -/
theorem entry_unpacked (power : t.space.IsPower order factor) (short : order < Nat.pow 2 60)
    (computed : factor.dimension = .ok n) (length : symbols.length = order)
    {scratch later scratch' later' : Scratch α} {x y : Array α}
    (ran : t.toArray memory scratch = (.ok x, later))
    (ran' : (t.unpacked x.size (List.replicate order factor) p symbols).toArray memory scratch' =
      (.ok y, later')) :
    (List.replicate order n).prod = y.size ∧ ∀ tuple, RowMajor.Below tuple (List.replicate order n) →
      (t.space.Vanishes tuple → reading.entry y (RowMajor.number tuple (List.replicate order n)) = 0) ∧
        ∀ flat sign, t.space.bundleIndex tuple = .ok (some (flat, sign)) →
          reading.entry y (RowMajor.number tuple (List.replicate order n)) ^ 2 = reading.entry x flat ^ 2 := by
  rcases toArray_eq_ok ran with ⟨sized, components⟩
  have maps := power.exists_indexMaps sized computed short
  rcases Expression.toArray_eq_ok (cachesApart_unpacked _) ran' with ⟨dims, ranged, _, all, values⟩
  rw [freeDims_unpacked length computed] at ranged
  cases ranged
  refine ⟨all, fun tuple below => ?_⟩
  have slots : tuple.length = symbols.length := by rw [below.length_eq, List.length_replicate, length]
  rcases values tuple below with ⟨z, found, stands⟩
  rw [reading.entry_eq stands]
  rw [value_unpacked _ slots] at found
  refine ⟨?_, ?_⟩
  · intro vanishes
    rw [(maps.vanishes tuple below).mpr vanishes] at found
    cases found
    exact reading.val_zero
  · intro flat sign bundled
    have small : flat < x.size := by
      have present : ¬ t.space.Vanishes tuple := by
        intro vanishes
        rw [(maps.vanishes tuple below).mpr vanishes] at bundled
        cases bundled
      rcases maps.bundles tuple below present with ⟨flat', small, sign', bundled', _⟩
      rw [bundled] at bundled'
      cases bundled'
      exact small
    rcases components flat small with ⟨x', component, stands'⟩
    have own := value_indexed_single power (Space.dimension_lt sized) small memory scratch'.caches p
    rw [component] at own
    rw [bundled, ok_bind] at found
    change (t.indexed [p] [t.space] [x.size]).value memory scratch'.caches [flat] >>= _ = _ at found
    rw [own, ok_bind] at found
    rw [val_sign reading found, reading.entry_eq stands']

end Value

variable {R : Type} [CommRing R] (reading : Reading α R)

theorem val_squaredSum_unpacked {metric : Metric α} (power : t.space.IsPower order factor) (positive : 0 < order)
    (short : order < Nat.pow 2 60) (found : Metric.ofSpace factor = .ok metric) (fits : factor.OrdersFit)
    (sized : t.space.dimension = .ok d) (length : symbols.length = order) {memory : Memory α}
    {scratch later scratch' later' : Scratch α} {a b : α}
    (ran : t.squaredSum memory scratch = (.ok a, later))
    (ran' : (t.unpacked d (List.replicate order factor) p symbols).squaredSum memory scratch' = (.ok b, later')) :
    reading.val a = reading.val b := by
  rcases power.exists_dimension sized with ⟨n, computed⟩
  rcases InnerProduct.squaredSum_eq_ok ran with ⟨g, x, _, _, made, evaluated, summed⟩
  rcases EvalM.bind_run_eq_ok_iff.mp ran' with ⟨y, middle, evaluated', rest⟩
  rcases InnerProduct.squaredSum_eq_ok rest with ⟨g', _, _, _, made', same, summed'⟩
  cases same
  have sized' := (toArray_eq_ok evaluated).1
  rw [sized] at sized'
  cases sized'
  rcases Expression.toArray_eq_ok (cachesApart_unpacked _) evaluated' with ⟨_, _, whole, _⟩
  rcases entry_unpacked reading power short computed length evaluated evaluated' with ⟨all, entries⟩
  have onWhole : (Metric.ofSpace (t.unpacked x.size (List.replicate order factor) p symbols).space :
      Except Fault (Metric α)) = Metric.ofFactors (List.replicate order factor) := by
    rw [Expression.space, FreeIndex.ofSpace_space, factors_unpacked (by rw [length, List.length_replicate])]
  calc reading.val a
      = _ := power.val_quadraticSum reading positive short found computed sized made summed
    _ = reading.val b := by
      symm
      exact power.val_quadraticSum_split reading short found computed fits sized onWhole whole all entries
        made' summed'

end Tensor

end Norm

end IndexNotation
