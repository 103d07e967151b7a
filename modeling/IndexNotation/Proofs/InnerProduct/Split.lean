import IndexNotation.Proofs.Definite
import IndexNotation.Proofs.Expression.Faults
import IndexNotation.Proofs.InnerProduct.Squared

namespace IndexNotation

variable {α R : Type} [Scalar α] [CommRing R] (reading : Reading α R)

namespace InnerProduct

variable {space : Space} {component : Nat → Except Fault α}

/-- How a squared norm ends: with the sum of the products of any two components and the inner product of their basis
tensors, or by the fault of a size, of the arithmetic, or of a component. -/
structure IsSquaredNorm (space : Space) (component : Nat → Except Fault α) (outcome : Except Fault α) : Prop where
  value : ∀ a, outcome = .ok a → ∃ (g : Tensor α) (n : Nat), tensor space = .ok g ∧ space.dimension = .ok n ∧
    (∀ p < n, ∃ x, component p = .ok x) ∧
    ∀ memory scratch, (∀ p < n, ∀ q < n, ∃ weight, (g.atPair p q memory scratch).1 = .ok weight) ∧
      reading.val a = ∑ p ∈ Finset.range n, ∑ q ∈ Finset.range n,
        reading.of (component p) * reading.of (component q) * reading.of (g.atPair p q memory scratch).1
  fails : ∀ fault, outcome = .error fault → fault = .overflow ∨ fault = .capacity ∨ ArithmeticFails α fault ∨
    ∃ n, space.dimension = .ok n ∧ ∃ p < n, component p = .error fault

theorem generator_of_squaredValue {x : Array α} {a : α} (computed : squaredValue space x = .ok a) :
    ∃ (g : Generator α) (metric : Metric α), generator space = .ok g ∧ Metric.ofSpace space = .ok metric ∧
      squared metric x = .ok a := by
  rcases squaredValue_eq_ok computed with ⟨metric, found, ⟨d, counted⟩, sum⟩
  have generated : ∃ g : Generator α, generator space = .ok g := by
    rw [generator, found, ok_bind, counted, ok_bind]
    exact ⟨_, rfl⟩
  rcases generated with ⟨g, generated⟩
  exact ⟨g, metric, generated, found, sum⟩

theorem value_of_entries {x : Array α} {a : α} (sized : space.dimension = .ok x.size)
    (entries : ∀ p < x.size, ∃ y, component p = .ok y ∧ x[p]? = some y) (computed : squaredValue space x = .ok a) :
    ∃ (g : Tensor α) (n : Nat), tensor space = .ok g ∧ space.dimension = .ok n ∧
      (∀ p < n, ∃ x, component p = .ok x) ∧
      ∀ memory scratch, (∀ p < n, ∀ q < n, ∃ weight, (g.atPair p q memory scratch).1 = .ok weight) ∧
        reading.val a = ∑ p ∈ Finset.range n, ∑ q ∈ Finset.range n,
          reading.of (component p) * reading.of (component q) * reading.of (g.atPair p q memory scratch).1 := by
  rcases generator_of_squaredValue computed with ⟨g, metric, generated, found, sum⟩
  have term {p q : Nat} (small : p < x.size) (small' : q < x.size) :
      ∃ y weight, pairTerm metric x [p, q] = .ok y ∧ metric (max p q) (min p q) = .ok weight ∧
        reading.val y = reading.entry x p * reading.entry x q * reading.val weight := by
    rcases exists_pairTerm sum small small' with ⟨y, term⟩
    rcases val_pairTerm reading term with ⟨weight, looked, product⟩
    exact ⟨y, weight, term, looked, product⟩
  refine ⟨_, x.size, tensor_of_generator generated, sized, ?_, fun memory scratch => ⟨?_, ?_⟩⟩
  · intro p small
    rcases entries p small with ⟨y, there, _⟩
    exact ⟨y, there⟩
  · intro p small q small'
    rcases term small small' with ⟨_, weight, _, looked, _⟩
    rw [atPair_eq _ found generated sized small small', looked]
    exact ⟨weight, rfl⟩
  · have entry {p : Nat} (small : p < x.size) : reading.entry x p = reading.of (component p) := by
      rcases entries p small with ⟨y, there, stands⟩
      rw [reading.entry_eq stands, there]
      rfl
    rw [val_squared reading sum]
    apply Finset.sum_congr rfl
    intro p member
    apply Finset.sum_congr rfl
    intro q member'
    have small := Finset.mem_range.mp member
    have small' := Finset.mem_range.mp member'
    rcases term small small' with ⟨y, weight, computed, looked, product⟩
    rw [atPair_eq _ found generated sized small small', computed, looked, ← entry small, ← entry small']
    exact product

theorem isSquaredNorm_of_array {array : Except Fault (Array α)} (fits : space.OrdersFit)
    (euclidean : space.isEuclidean = true) (positive : space.OrdersPositive)
    (present : ∀ x, array = .ok x →
      space.dimension = .ok x.size ∧ ∀ p < x.size, ∃ y, component p = .ok y ∧ x[p]? = some y)
    (absent : ∀ fault, array = .error fault → fault = .overflow ∨ fault = .capacity ∨
      ∃ n, space.dimension = .ok n ∧ ∃ p < n, component p = .error fault) :
    IsSquaredNorm reading space component (do squaredValue space (← array)) where
  value := by
    intro a computed
    rcases bind_eq_ok_iff.mp computed with ⟨x, made, sum⟩
    rcases present x made with ⟨sized, entries⟩
    exact value_of_entries reading sized entries sum
  fails := by
    intro fault failed
    rcases bind_eq_error_iff.mp failed with lacking | ⟨x, made, sum⟩
    · exact (absent fault lacking).imp_right (Or.imp_right Or.inr)
    · have failing := squaredValue_eq_error (present x made).1 fits euclidean positive sum
      exact failing.imp_right (Or.imp_right Or.inl)

theorem exists_tensor_or_overflow (euclidean : space.isEuclidean = true) (positive : space.OrdersPositive) :
    (∃ g : Tensor α, tensor space = .ok g) ∨ (tensor space : Except Fault (Tensor α)) = .error .overflow := by
  cases made : (tensor space : Except Fault (Tensor α)) with
  | ok g => exact Or.inl ⟨g, rfl⟩
  | error fault =>
      rw [(judged_tensor space).eq_overflow euclidean positive made]
      exact Or.inr rfl

end InnerProduct

section Runs

variable {memory : Memory α}

omit [Scalar α] [CommRing R] in
theorem Tensor.component_value (t : Tensor α) (flat : Nat) (scratch : Scratch α) :
    (t.component flat memory scratch).1 = t.components.value memory flat := by
  have yields : EvalM.Yields (fun _ => True) memory (t.components.get flat) _ := t.components.get_yields flat
  exact (yields scratch trivial).1

theorem Tensor.isSquaredNorm (t : Tensor α) (fits : t.space.OrdersFit) (euclidean : t.space.isEuclidean = true)
    (positive : t.space.OrdersPositive) (scratch : Scratch α) :
    InnerProduct.IsSquaredNorm reading t.space (fun flat => (t.component flat memory scratch).1)
      (t.squaredSum memory scratch).1 := by
  have norm := @InnerProduct.isSquaredNorm_of_array _ _ _ _ reading t.space
    (fun flat => (t.component flat memory scratch).1) (t.array memory) fits euclidean positive ?_ ?_
  · rw [squaredSum_run]
    constructor
    · intro a computed
      rcases bind_eq_ok_iff.mp computed with ⟨_, _, rest⟩
      exact norm.value a rest
    · intro fault failed
      rcases bind_eq_error_iff.mp failed with lacking | ⟨_, _, rest⟩
      · exact Or.inl ((InnerProduct.judged_generator t.space).eq_overflow euclidean positive lacking)
      · exact norm.fails fault rest
  · intro x made
    rcases array_eq_ok made with ⟨sized, components⟩
    refine ⟨sized, fun p small => ?_⟩
    rw [component_value]
    exact components p small
  · intro fault failed
    rcases bind_eq_error_iff.mp failed with large | ⟨d, sized, rest⟩
    · exact Or.inl (Space.dimension_eq_error large)
    rcases bind_eq_error_iff.mp rest with room | ⟨_, _, copying⟩
    · exact Or.inr (Or.inl (Size.reserve_eq_error room).1)
    rcases bind_eq_error_iff.mp copying with lacking | ⟨_, _, done⟩
    · rcases mapM_eq_error lacking with ⟨flat, member, fails⟩
      rw [List.mem_range'_1, Nat.zero_add] at member
      refine Or.inr (Or.inr ⟨d, sized, flat, member.2, ?_⟩)
      rwa [component_value]
    · cases done

theorem Expression.isSquaredNorm {e : Expression α} {dims : List Nat} (apart : CachesApart [e])
    (ranged : e.freeDims = .ok dims) (fits : e.space.OrdersFit) (euclidean : e.space.isEuclidean = true)
    (positive : e.space.OrdersPositive) (scratch : Scratch α) :
    InnerProduct.IsSquaredNorm reading e.space
      (fun flat => (e.component (RowMajor.split flat dims) memory scratch).1)
      (e.squaredSum memory scratch).1 := by
  have inside : ∀ node ∈ e.cacheNodes, node ∈ [e].flatMap cacheNodes := by
    intro node present
    simpa using present
  have component (values : List Nat) : (e.component values memory scratch).1 = e.value memory scratch.caches values :=
    component_run apart inside values memory scratch
  rw [(squaredSum_yields apart inside scratch (agrees_refl memory scratch.caches [e])).1]
  apply InnerProduct.isSquaredNorm_of_array reading fits euclidean positive
  · intro x made
    rcases array_eq_ok made with ⟨_, ranged', sized, counted, values⟩
    cases ranged.symm.trans ranged'
    refine ⟨sized, fun p small => ?_⟩
    rcases RowMajor.split_spec (counted.symm ▸ small) with ⟨below, numbered⟩
    rcases values _ below with ⟨y, computed, stands⟩
    refine ⟨y, (component _).trans computed, ?_⟩
    rwa [numbered] at stands
  · intro fault failed
    rw [array, ranged, ok_bind] at failed
    cases sized : e.space.dimension with
    | error large =>
        rw [materialized, sized, error_bind] at failed
        cases failed
        exact Or.inl (Space.dimension_eq_error sized)
    | ok d =>
        have counted := prod_freeDims ranged sized
        have offsets : ∀ tuple, RowMajor.Below tuple dims → ∃ offset, RowMajor.offset tuple dims = .ok offset :=
          fun tuple below => ⟨_, RowMajor.offset_eq below (counted ▸ Nat.le_of_lt (Space.dimension_lt sized))⟩
        rcases materialized_eq_error sized offsets failed with ⟨capacity, _⟩ | ⟨tuple, below, fails⟩
        · exact Or.inr (Or.inl capacity)
        · refine Or.inr (Or.inr ⟨d, rfl, RowMajor.number tuple dims, counted ▸ RowMajor.number_lt below, ?_⟩)
          rw [RowMajor.split_number below, component]
          exact fails

end Runs

namespace Space

variable {s factor : Space} {order : Nat}

theorem IsPower.sides (power : s.IsPower order factor) (positive : 0 < order) (fits : factor.OrdersFit)
    (euclidean : factor.isEuclidean = true) (zeroless : factor.OrdersPositive) :
    s.OrdersFit ∧ s.isEuclidean = true ∧ s.OrdersPositive := by
  rcases power with same | same
  · rw [same]
    exact ⟨fits, euclidean, positive, zeroless⟩
  · rw [same]
    exact ⟨fits, euclidean, positive, zeroless⟩

theorem sides_replicate (fits : factor.OrdersFit) (euclidean : factor.isEuclidean = true)
    (zeroless : factor.OrdersPositive) :
    (tensorProduct (List.replicate order factor)).OrdersFit ∧
      (tensorProduct (List.replicate order factor)).isEuclidean = true ∧
      (tensorProduct (List.replicate order factor)).OrdersPositive := by
  refine ⟨allFit_iff.mpr ?_, ?_, allPositive_iff.mpr ?_⟩
  · exact fun s present => List.eq_of_mem_replicate present ▸ fits
  · rw [isEuclidean, allEuclidean_eq_all, List.all_eq_true]
    exact fun s present => List.eq_of_mem_replicate present ▸ euclidean
  · exact fun s present => List.eq_of_mem_replicate present ▸ zeroless

end Space

namespace Tensor

variable {t : Tensor α} {factor : Space} {order n d : Nat} {p : Symbol} {symbols : IndexList}

section Unpacked

omit [Scalar α]

theorem splitAt_unlisted (p : Symbol) (symbols : IndexList) {fault : Fault}
    (unlisted : t.space.reserveSplitFactors = .error fault) :
    (t.indexed [p] [t.space] [d]).splitAt p symbols = .error fault := by
  have free : (t.indexed [p] [t.space] [d]).free = [⟨p, t.space⟩] := rfl
  simp [Expression.splitAt, free, unlisted]

theorem unlisted_of_isPower (power : t.space.IsPower order factor) {fault : Fault}
    (unlisted : t.space.reserveSplitFactors = .error fault) :
    fault = .capacity ∧ Nat.pow 2 63 ≤ order * Space.width := by
  have room : Size.reserve order Space.width = .error fault := by
    rcases power with same | same
    · rwa [same] at unlisted
    · rwa [same] at unlisted
  exact Size.reserve_eq_error room

theorem space_unpacked (length : symbols.length = order) :
    (t.unpacked d (List.replicate order factor) p symbols).space =
      if order = 1 then factor else .tensorProduct (List.replicate order factor) :=
  FreeIndex.space_of_replicate (factors_unpacked (length.trans (List.length_replicate ..).symm))

theorem freeSymbols_unpacked (length : symbols.length = order) :
    (t.unpacked d (List.replicate order factor) p symbols).freeSymbols = symbols := by
  rw [Expression.freeSymbols, free_unpacked,
    FreeIndex.symbols_zipWith_mk (length.trans (List.length_replicate ..).symm)]

end Unpacked

/-- A component of the full tensor is missing only where one of the packed tensor is, or cannot be negated. -/
theorem value_unpacked_eq_error (power : t.space.IsPower order factor) (short : order < Nat.pow 2 60)
    (sized : t.space.dimension = .ok d) (computed : factor.dimension = .ok n) (length : symbols.length = order)
    {memory : Memory α} {caches : Caches α} {tuple : List Nat} (below : RowMajor.Below tuple (List.replicate order n))
    {fault : Fault}
    (failed : (t.unpacked d (List.replicate order factor) p symbols).value memory caches tuple = .error fault) :
    RingFails α fault ∨ ∃ flat < d, t.components.value memory flat = .error fault := by
  have maps := power.exists_indexMaps sized computed short
  have slots : tuple.length = symbols.length := by rw [below.length_eq, List.length_replicate, length]
  rw [value_unpacked _ slots] at failed
  by_cases vanishes : t.space.Vanishes tuple
  · rw [(maps.vanishes tuple below).mpr vanishes] at failed
    cases failed
  · rcases maps.bundles tuple below vanishes with ⟨flat, small, sign, bundled, _⟩
    have component := value_indexed_single power (Space.dimension_lt sized) small memory caches p
    rw [bundled, ok_bind] at failed
    change (t.indexed [p] [t.space] [d]).value memory caches [flat] >>= _ = _ at failed
    rw [component] at failed
    rcases bind_eq_error_iff.mp failed with lacking | ⟨x, _, signing⟩
    · exact Or.inr ⟨flat, small, lacking⟩
    · cases sign with
      | positive => cases signing
      | negative => exact Or.inl ⟨Scalar.zero, x, Or.inr (Or.inl signing)⟩

/-- A tensor of a symmetric or exterior power splits into a full tensor over the product of its factors, unless the
factors are too many to be listed. There is an inner product on both spaces, unless a dimension overflows, and each
squared norm is the sum over all pairs of components or fails. Where both are computed they are the same. -/
theorem val_squaredSum_split {metric : Metric α} (power : t.space.IsPower order factor) (positive : 0 < order)
    (found : Metric.ofSpace factor = .ok metric) (fits : factor.OrdersFit) (sized : t.space.dimension = .ok d)
    (length : symbols.length = order) (distinct : symbols.Nodup) (apart : p ∉ symbols) :
    ∃ whole, Expression.index t [p] = .ok whole ∧
      (whole.splitAt p symbols = .error .capacity ∧ Nat.pow 2 63 ≤ order * Space.width ∨
        ∃ parts dims, whole.splitAt p symbols = .ok parts ∧ parts.freeSymbols = symbols ∧
          parts.space = (if order = 1 then factor else .tensorProduct (List.replicate order factor)) ∧
          parts.freeDims = .ok dims ∧
          (∀ s ∈ [t.space, parts.space], (∃ g : Tensor α, InnerProduct.tensor s = .ok g) ∨
            (InnerProduct.tensor s : Except Fault (Tensor α)) = .error .overflow) ∧
          ∀ memory scratch scratch',
            InnerProduct.IsSquaredNorm reading t.space (fun flat => (t.component flat memory scratch).1)
              (t.squaredSum memory scratch).1 ∧
            InnerProduct.IsSquaredNorm reading parts.space
              (fun flat => (parts.component (RowMajor.split flat dims) memory scratch').1)
              (parts.squaredSum memory scratch').1 ∧
            (∀ flat < dims.prod, ∀ fault,
              (parts.component (RowMajor.split flat dims) memory scratch').1 = .error fault →
              RingFails α fault ∨ ∃ other < d, (t.component other memory scratch).1 = .error fault) ∧
            ∀ a b, (t.squaredSum memory scratch).1 = .ok a → (parts.squaredSum memory scratch').1 = .ok b →
              reading.val a = reading.val b) := by
  refine ⟨_, index_of_isPower power sized p, ?_⟩
  cases listed : t.space.reserveSplitFactors with
  | error fault =>
      obtain ⟨rfl, large⟩ := unlisted_of_isPower power listed
      exact Or.inl ⟨splitAt_unlisted p symbols listed, large⟩
  | ok done =>
      right
      have short := power.short_of_listed listed
      rcases power.exists_dimension sized with ⟨n, computed⟩
      have noCaches : CachesApart [t.unpacked d (List.replicate order factor) p symbols] := cachesApart_unpacked _
      have ranged : (t.unpacked d (List.replicate order factor) p symbols).freeDims = _ :=
        freeDims_unpacked length computed
      rcases (Metric.judged_ofSpace factor).exists_iff.mp ⟨metric, found⟩ with ⟨euclidean, zeroless, _⟩
      have onPower := power.sides positive fits euclidean zeroless
      have onParts : (t.unpacked d (List.replicate order factor) p symbols).space.OrdersFit ∧
          (t.unpacked d (List.replicate order factor) p symbols).space.isEuclidean = true ∧
          (t.unpacked d (List.replicate order factor) p symbols).space.OrdersPositive := by
        rw [space_unpacked length]
        split
        · exact ⟨fits, euclidean, zeroless⟩
        · exact Space.sides_replicate fits euclidean zeroless
      refine ⟨_, _, splitAt_of_isPower power listed length distinct apart, freeSymbols_unpacked length,
        space_unpacked length, ranged, ?_, fun memory scratch scratch' =>
          ⟨t.isSquaredNorm reading onPower.1 onPower.2.1 onPower.2.2 scratch,
            Expression.isSquaredNorm reading noCaches ranged onParts.1 onParts.2.1 onParts.2.2 scratch', ?_, ?_⟩⟩
      · simp only [List.forall_mem_cons, List.not_mem_nil, false_imp_iff, implies_true, and_true]
        exact ⟨InnerProduct.exists_tensor_or_overflow onPower.2.1 onPower.2.2,
          InnerProduct.exists_tensor_or_overflow onParts.2.1 onParts.2.2⟩
      · intro flat small fault failed
        have below := (RowMajor.split_spec small).1
        have inside : ∀ node ∈ (t.unpacked d (List.replicate order factor) p symbols).cacheNodes,
            node ∈ [t.unpacked d (List.replicate order factor) p symbols].flatMap Expression.cacheNodes := by
          intro node present
          simpa using present
        rw [component_run noCaches inside] at failed
        simp only [component_value]
        exact value_unpacked_eq_error power short sized computed length below failed
      · intro a b ran ran'
        exact val_squaredSum_unpacked reading power positive short found fits sized length (Prod.fst_eq_iff.mp ran)
          (Prod.fst_eq_iff.mp ran')

/-- Three components of the exterior square of a space of dimension three: each stands for two of the nine of the
full tensor, one of them negated, and both squared norms are `2 * (1 + 4 + 9)`. -/
theorem val_squaredSum_split_bivector :
    ∃ (t : Tensor (Bounded .signed32)) (whole parts : Expression (Bounded .signed32))
      (memory : Memory (Bounded .signed32)) (a b : Bounded .signed32),
      t.space = .exteriorPower 2 (.standard 3 "V") ∧ Expression.index t [.letter 'p'] = .ok whole ∧
        whole.splitAt (.letter 'p') [.letter 'i', .letter 'j'] = .ok parts ∧
        (t.squaredSum memory ⟨#[], #[]⟩).1 = .ok a ∧ (parts.squaredSum memory ⟨#[], #[]⟩).1 = .ok b ∧
        a.val = 28 ∧ a.val = b.val := by
  let line : Space := .standard 3 "V"
  let bivector : Tensor (Bounded .signed32) := ⟨.exteriorPower 2 line, .stored .member 0 0 3⟩
  let memory : Memory (Bounded .signed32) :=
    { blocks := #[⟨0, #[⟨1, by decide⟩, ⟨2, by decide⟩, ⟨3, by decide⟩]⟩], nextAddress := 12 }
  let total : Bounded .signed32 := ⟨28, by decide⟩
  let leaf := bivector.indexed [.letter 'p'] [bivector.space] [3]
  let full := bivector.unpacked 3 [line, line] (.letter 'p') [.letter 'i', .letter 'j']
  have packed : (bivector.squaredSum memory ⟨#[], #[]⟩).1 = .ok total := by decide +kernel
  have unpacked : (full.squaredSum memory ⟨#[], #[]⟩).1 = .ok total := by decide +kernel
  have power : bivector.space.IsPower 2 line := Or.inr rfl
  have two : [Symbol.letter 'i', .letter 'j'].length = 2 := rfl
  have indexed : Expression.index bivector [.letter 'p'] = .ok leaf := rfl
  have split : leaf.splitAt (.letter 'p') [.letter 'i', .letter 'j'] = .ok full := rfl
  rcases val_squaredSum_split (Bounded.reading .signed32) power (by decide) rfl trivial (d := 3) rfl two
    (by decide) (p := .letter 'p') (by decide) with ⟨_, accepted, outcome⟩
  cases indexed.symm.trans accepted
  rcases outcome with ⟨refused, _⟩ | ⟨_, _, accepted', _, _, _, _, norms⟩
  · cases split.symm.trans refused
  · cases split.symm.trans accepted'
    have equal := (norms memory ⟨#[], #[]⟩ ⟨#[], #[]⟩).2.2.2 total total packed unpacked
    exact ⟨bivector, _, full, memory, total, total, rfl, indexed, split, packed, unpacked, rfl, equal⟩

end Tensor

end IndexNotation
