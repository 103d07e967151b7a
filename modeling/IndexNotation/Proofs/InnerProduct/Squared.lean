import IndexNotation.Proofs.PackedNorm

namespace IndexNotation

variable {α : Type} [Scalar α]

namespace InnerProduct

def squaredValue (space : Space) (x : Array α) : Except Fault α := do
  let metric ← Metric.ofSpace space
  let _ ← (Space.symmetricPower 2 space.dual).dimension
  squared metric x

variable {space : Space} {metric : Metric α} {x : Array α} {a : α} {fault : Fault}

theorem squaredValue_eq_ok (computed : squaredValue space x = .ok a) :
    ∃ metric : Metric α, Metric.ofSpace space = .ok metric ∧
      (∃ d, (Space.symmetricPower 2 space.dual).dimension = .ok d) ∧ squared metric x = .ok a := by
  rcases bind_eq_ok_iff.mp computed with ⟨metric, found, rest⟩
  rcases bind_eq_ok_iff.mp rest with ⟨d, counted, sum⟩
  exact ⟨metric, found, ⟨d, counted⟩, sum⟩

theorem squaredValue_of_generator {g : Generator α} (x : Array α) (made : generator space = .ok g) :
    ∃ metric : Metric α, Metric.ofSpace space = .ok metric ∧ squaredValue space x = squared metric x := by
  rcases generator_eq_ok made with ⟨metric, d, found, counted, _⟩
  exact ⟨metric, found, by rw [squaredValue, found, ok_bind, counted, ok_bind]⟩

theorem generator_squaredValue (space : Space) (x : Array α) :
    (do
      let _ ← (generator space : Except Fault (Generator α))
      squaredValue space x) = squaredValue space x := by
  rw [squaredValue, generator]
  cases (Metric.ofSpace space : Except Fault (Metric α)) with
  | error fault => rfl
  | ok metric =>
      cases (Space.symmetricPower 2 space.dual).dimension with
      | error fault => rfl
      | ok d => rfl

theorem quadraticSum_yields {kept : Caches α → Prop} {memory : Memory α} {g : Generator α}
    (made : generator space = .ok g) (sized : space.dimension = .ok x.size) :
    EvalM.Yields kept memory (EvalM.ofCountM (quadraticSum g x)) (squaredValue space x) := by
  rcases squaredValue_of_generator x made with ⟨metric, found, value⟩
  rw [value, quadraticSum_eq found made sized]
  exact EvalM.yields_ofCountM (CountM.steady_ofExcept _)

theorem squaredSum_yields {kept : Caches α → Prop} {memory : Memory α} {components : EvalM α (Array α)}
    {array : Except Fault (Array α)} (evaluated : EvalM.Yields kept memory components array)
    (sized : ∀ x, array = .ok x → space.dimension = .ok x.size) :
    EvalM.Yields kept memory (squaredSum space components) (do
      let _ ← (generator space : Except Fault (Generator α))
      squaredValue space (← array)) := by
  apply EvalM.Yields.ofExcept_bind
  intro g made
  exact evaluated.bind fun x found => quadraticSum_yields made (sized x found)

theorem squaredSum_pure_yields {kept : Caches α → Prop} {memory : Memory α}
    (sized : space.dimension = .ok x.size) :
    EvalM.Yields kept memory (squaredSum space (pure x)) (squaredValue space x) := by
  rw [← generator_squaredValue]
  exact squaredSum_yields (EvalM.yields_pure x) fun y same => Except.ok.inj same ▸ sized

/-- Once all entries of the metric are standard, only arithmetic can fail, or holding a tuple. -/
theorem squared_eq_error {room : Prop} (standard : Metric.Standard room x.size metric)
    (failed : squared metric x = .error fault) : fault = .overflow ∨ fault = .capacity ∨ ArithmeticFails α fault := by
  rcases foldlM_add_eq_error failed with ⟨pair, present, failing⟩ | adding
  · rcases Space.below_pair_iff.mp (RowMajor.mem_tuples.mp present) with ⟨p, q, rfl, small, small'⟩
    rw [pairTerm, Array.getElem?_eq_getElem small, Array.getElem?_eq_getElem small'] at failing
    rcases bind_eq_error_iff.mp failing with multiplying | ⟨product, _, rest⟩
    · exact Or.inr (Or.inr ⟨_, _, Or.inr multiplying⟩)
    rcases bind_eq_error_iff.mp rest with looking | ⟨weight, _, multiplying⟩
    · have largest := Nat.max_lt.mpr ⟨small, small'⟩
      have least := Nat.lt_of_le_of_lt (Nat.min_le_left p q) small
      exact (standard.fails largest least looking).imp_right (Or.imp_left And.left)
    · exact Or.inr (Or.inr ⟨_, _, Or.inr multiplying⟩)
  · exact Or.inr (Or.inr adding)

/-- Where there is a metric to be had, the squared norm fails by a size or in its arithmetic. -/
theorem squaredValue_eq_error (sized : space.dimension = .ok x.size) (fits : space.OrdersFit)
    (euclidean : space.isEuclidean = true) (positive : space.OrdersPositive)
    (failed : squaredValue space x = .error fault) :
    fault = .overflow ∨ fault = .capacity ∨ ArithmeticFails α fault := by
  rcases bind_eq_error_iff.mp failed with metricless | ⟨metric, found, rest⟩
  · exact Or.inl ((Metric.judged_ofSpace space).eq_overflow euclidean positive metricless)
  · rcases bind_eq_error_iff.mp rest with large | ⟨d, _, sum⟩
    · exact Or.inl (Space.dimension_eq_error large)
    · exact squared_eq_error (Metric.standard_ofSpace sized fits False.elim found) sum

end InnerProduct

def Expression.squaredValue (memory : Memory α) (caches : Caches α) (e : Expression α) : Except Fault α := do
  InnerProduct.squaredValue e.space (← e.array memory caches)

theorem Expression.squaredSum_yields {memory : Memory α} {caches : Caches α} {e : Expression α}
    {expressions : List (Expression α)} (apart : CachesApart expressions)
    (inside : ∀ node ∈ e.cacheNodes, node ∈ expressions.flatMap cacheNodes) :
    EvalM.Yields (Agrees memory caches expressions) memory e.squaredSum (e.squaredValue memory caches) := by
  apply (toArray_yields apart inside).bind
  intro x made
  rcases array_eq_ok made with ⟨_, _, sized, _⟩
  exact InnerProduct.squaredSum_pure_yields sized

def Tensor.squaredValue (memory : Memory α) (t : Tensor α) : Except Fault α := do
  let _ ← (InnerProduct.generator t.space : Except Fault (Generator α))
  InnerProduct.squaredValue t.space (← t.array memory)

theorem Tensor.squaredSum_run (t : Tensor α) (memory : Memory α) (scratch : Scratch α) :
    (t.squaredSum memory scratch).1 = t.squaredValue memory := by
  have yields : EvalM.Yields (fun _ => True) memory t.squaredSum (t.squaredValue memory) :=
    InnerProduct.squaredSum_yields t.toArray_yields fun x made => (array_eq_ok made).1
  exact (yields scratch trivial).1

theorem Tensor.squaredValue_eq_ok {t : Tensor α} {memory : Memory α} {a : α}
    (computed : t.squaredValue memory = .ok a) :
    ∃ (g : Generator α) (x : Array α) (metric : Metric α), InnerProduct.generator t.space = .ok g ∧
      t.array memory = .ok x ∧ Metric.ofSpace t.space = .ok metric ∧ InnerProduct.squared metric x = .ok a := by
  rcases bind_eq_ok_iff.mp computed with ⟨g, generated, rest⟩
  rcases bind_eq_ok_iff.mp rest with ⟨x, made, sum⟩
  rcases InnerProduct.squaredValue_of_generator x generated with ⟨metric, found, value⟩
  exact ⟨g, x, metric, generated, made, found, value ▸ sum⟩

end IndexNotation
