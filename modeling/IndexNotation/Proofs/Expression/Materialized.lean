import IndexNotation.Proofs.Expression.Defined
import IndexNotation.Proofs.Expression.Faults

namespace IndexNotation

variable {α : Type}

theorem foldlM_setIfInBounds {γ : Type} {steps : List γ} {place : γ → Except Fault Nat} {number : γ → Nat}
    {value : γ → Except Fault α} {acc last : Array α} (distinct : (steps.map number).Nodup)
    (placed : ∀ step ∈ steps, place step = .ok (number step) ∧ number step < acc.size)
    (folded : steps.foldlM (fun acc step => do
      let offset ← place step
      return acc.setIfInBounds offset (← value step)) acc = .ok last) :
    (∀ step ∈ steps, ∃ x, value step = .ok x ∧ last[number step]? = some x) ∧
      ∀ other ∉ steps.map number, last[other]? = acc[other]? := by
  induction steps generalizing acc with
  | nil =>
      cases folded
      exact ⟨by simp, fun _ _ => rfl⟩
  | cons step steps ih =>
      rw [List.map_cons, List.nodup_cons] at distinct
      rcases List.forall_mem_cons.mp placed with ⟨⟨first, inside⟩, rest⟩
      rw [List.foldlM_cons] at folded
      rcases bind_eq_ok_iff.mp folded with ⟨next, made, later⟩
      rw [first, ok_bind] at made
      rcases bind_eq_ok_iff.mp made with ⟨x, computed, done⟩
      cases done
      have room : ∀ step' ∈ steps, place step' = .ok (number step') ∧
          number step' < (acc.setIfInBounds (number step) x).size := by
        intro step' present
        rw [Array.size_setIfInBounds]
        exact rest step' present
      rcases ih distinct.2 room later with ⟨written, others⟩
      refine ⟨List.forall_mem_cons.mpr ⟨⟨x, computed, ?_⟩, written⟩, ?_⟩
      · rw [others _ distinct.1, Array.getElem?_setIfInBounds_self_of_lt inside]
      · intro other absent
        rw [List.map_cons, List.mem_cons, not_or] at absent
        rw [others other absent.2, Array.getElem?_setIfInBounds_ne fun same => absent.1 same.symm]

variable [Scalar α]

theorem materialized_eq_ok {space : Space} {dims : List Nat} {value : List Nat → Except Fault α} {x : Array α}
    (whole : space.dimension = .ok dims.prod) (made : materialized space dims value = .ok x) :
    ∀ tuple, RowMajor.Below tuple dims → ∃ y, value tuple = .ok y ∧ x[RowMajor.number tuple dims]? = some y := by
  rw [materialized, whole, ok_bind] at made
  rcases bind_eq_ok_iff.mp made with ⟨_, _, filling⟩
  rw [RowMajor.foldTuples_eq_foldlM] at filling
  have distinct : ((RowMajor.tuples dims).map fun tuple => RowMajor.number tuple dims).Nodup := by
    rw [RowMajor.map_number_tuples]
    exact List.nodup_range
  have placed : ∀ tuple ∈ RowMajor.tuples dims, RowMajor.offset tuple dims = .ok (RowMajor.number tuple dims) ∧
      RowMajor.number tuple dims < (Array.replicate dims.prod (Scalar.zero : α)).size := by
    intro tuple present
    have below := RowMajor.mem_tuples.mp present
    rw [Array.size_replicate]
    exact ⟨RowMajor.offset_eq below (Nat.le_of_lt (Space.dimension_lt whole)), RowMajor.number_lt below⟩
  intro tuple below
  exact (foldlM_setIfInBounds distinct placed filling).1 tuple (RowMajor.mem_tuples.mpr below)

namespace Components

omit [Scalar α]

def firstValues (memory : Memory α) (c : Components α) (count : Nat) : Except Fault (Array α) := do
  return (← (List.range' 0 count).mapM (c.value memory)).toArray

theorem first_yields {kept : Caches α → Prop} {memory : Memory α} (c : Components α) (count : Nat) :
    EvalM.Yields kept memory (c.first count) (c.firstValues memory count) := by
  have pushed : c.firstValues memory count = (List.range' 0 count).foldlM
      (fun acc index => do return acc.push (← c.value memory index)) #[] := by
    rw [foldlM_push]
    simp only [firstValues, Array.empty_append]
  rw [pushed, first, RowMajor.foldFrom_eq_foldlM]
  apply EvalM.Yields.foldlM
  intro acc index _
  exact (c.get_yields index).bind fun x _ => EvalM.yields_pure _

theorem firstValues_eq_ok {c : Components α} {count : Nat} {memory : Memory α} {values : Array α}
    (collected : c.firstValues memory count = .ok values) :
    values.size = count ∧ ∀ index < count, ∃ x, c.value memory index = .ok x ∧ values[index]? = some x := by
  rcases bind_eq_ok_iff.mp collected with ⟨listed, found, made⟩
  cases made
  have each := mapM_eq_ok_iff.mp found
  have size : listed.length = count := by rw [← each.length_eq, List.length_range']
  rw [List.size_toArray]
  refine ⟨size, fun index small => ?_⟩
  have inside : index < listed.length := size.symm ▸ small
  have here := each.get (List.length_range'.symm ▸ small) inside
  refine ⟨listed[index], ?_, ?_⟩
  · simpa using here
  · rw [List.getElem?_toArray, List.getElem?_eq_getElem inside]

theorem first_eq_ok {c : Components α} {count : Nat} {memory : Memory α} {scratch later : Scratch α}
    {values : Array α} (ran : c.first count memory scratch = (.ok values, later)) :
    values.size = count ∧ ∀ index < count, ∃ x, c.value memory index = .ok x ∧ values[index]? = some x := by
  have yields : EvalM.Yields (fun _ => True) memory (c.first count) _ := c.first_yields count
  have outcome := (yields scratch trivial).1
  rw [ran] at outcome
  exact firstValues_eq_ok outcome.symm

end Components

namespace Tensor

variable {t : Tensor α} {memory : Memory α} {x : Array α}

def array (memory : Memory α) (t : Tensor α) : Except Fault (Array α) := do
  let dimension ← t.dimension
  Size.reserve dimension (Scalar.width α)
  t.components.firstValues memory dimension

theorem toArray_yields {kept : Caches α → Prop} (t : Tensor α) :
    EvalM.Yields kept memory t.toArray (t.array memory) := by
  apply EvalM.Yields.ofExcept_bind
  intro dimension _
  apply EvalM.Yields.ofExcept_bind
  intro _ _
  exact t.components.first_yields dimension

theorem array_eq_ok (made : t.array memory = .ok x) :
    t.space.dimension = .ok x.size ∧
      ∀ index < x.size, ∃ y, t.components.value memory index = .ok y ∧ x[index]? = some y := by
  rcases bind_eq_ok_iff.mp made with ⟨dimension, sized, rest⟩
  rcases bind_eq_ok_iff.mp rest with ⟨_, _, copied⟩
  rcases Components.firstValues_eq_ok copied with ⟨rfl, components⟩
  exact ⟨sized, components⟩

theorem toArray_eq_ok {scratch later : Scratch α} (ran : t.toArray memory scratch = (.ok x, later)) :
    t.space.dimension = .ok x.size ∧
      ∀ index < x.size, ∃ y, t.components.value memory index = .ok y ∧ x[index]? = some y := by
  have yields : EvalM.Yields (fun _ => True) memory t.toArray (t.array memory) := t.toArray_yields
  have outcome := (yields scratch trivial).1
  rw [ran] at outcome
  exact array_eq_ok outcome.symm

end Tensor

namespace Expression

variable {memory : Memory α} {e : Expression α} {x : Array α}

def array (memory : Memory α) (caches : Caches α) (e : Expression α) : Except Fault (Array α) := do
  let dims ← e.freeDims
  materialized e.space dims (e.value memory caches)

theorem toArray_yields {caches : Caches α} {expressions : List (Expression α)} (apart : CachesApart expressions)
    (inside : ∀ node ∈ e.cacheNodes, node ∈ expressions.flatMap cacheNodes) :
    EvalM.Yields (Agrees memory caches expressions) memory e.toArray (e.array memory caches) := by
  apply EvalM.Yields.ofExcept_bind
  intro dims _
  exact materialize_yields (component_yields apart inside)

theorem array_eq_ok {caches : Caches α} (made : e.array memory caches = .ok x) :
    ∃ dims, e.freeDims = .ok dims ∧ e.space.dimension = .ok x.size ∧ dims.prod = x.size ∧
      ∀ tuple, RowMajor.Below tuple dims →
        ∃ y, e.value memory caches tuple = .ok y ∧ x[RowMajor.number tuple dims]? = some y := by
  rcases bind_eq_ok_iff.mp made with ⟨dims, computed, filled⟩
  have sized := size_materialized filled
  have counted := prod_freeDims computed sized
  exact ⟨dims, computed, sized, counted, materialized_eq_ok (counted.symm ▸ sized) filled⟩

theorem toArray_eq_ok (apart : CachesApart [e]) {scratch later : Scratch α}
    (ran : e.toArray memory scratch = (.ok x, later)) :
    ∃ dims, e.freeDims = .ok dims ∧ e.space.dimension = .ok x.size ∧ dims.prod = x.size ∧
      ∀ tuple, RowMajor.Below tuple dims →
        ∃ y, e.value memory scratch.caches tuple = .ok y ∧ x[RowMajor.number tuple dims]? = some y := by
  have inside : ∀ node ∈ e.cacheNodes, node ∈ [e].flatMap cacheNodes := by
    intro node present
    simpa using present
  have outcome := (toArray_yields apart inside scratch (agrees_refl memory scratch.caches [e])).1
  rw [ran] at outcome
  exact array_eq_ok outcome.symm

end Expression

end IndexNotation
