import IndexNotation.Expression.Component
import IndexNotation.Proofs.Evaluation
/-!
The components of an expression as values: what they are on a memory and on the caches as they are,
without running the evaluation. A component evaluated from any state that these caches can have come to
has that value, so the order in which components are asked for does not matter.
-/
namespace IndexNotation

variable {α : Type} [Scalar α]

namespace Leaf

def slotValue (memory : Memory α) (leaf : Leaf α) (values summed : List Nat) : Except Fault α := do
  let slots ← Source.gather leaf.slots values summed
  leaf.tensor.components.value memory (← RowMajor.offset slots leaf.slotDims)

def value (memory : Memory α) (leaf : Leaf α) (values : List Nat) : Except Fault α :=
  if leaf.summedDims.isEmpty then leaf.slotValue memory values []
  else
    RowMajor.foldTuples
      (fun summed acc => do Scalar.add acc (← leaf.slotValue memory values summed))
      leaf.summedDims Scalar.zero

end Leaf

def materialized (space : Space) (dims : List Nat) (value : List Nat → Except Fault α) :
    Except Fault (Array α) := do
  let dimension ← space.dimension
  Size.reserve dimension (Scalar.width α)
  RowMajor.foldTuples
    (fun values acc => do
      let offset ← RowMajor.offset values dims
      return acc.setIfInBounds offset (← value values))
    dims (Array.replicate dimension Scalar.zero)

omit [Scalar α] in
/-- The components in a cache, or else those that would fill it. -/
def filled (caches : Caches α) (cache : Nat) (filling : Except Fault (Array α)) :
    Except Fault (Array α) :=
  match caches[cache]?.join with
  | some components => .ok components
  | none => filling

namespace Expression

/-- The component at the given values of the free indices. A filled cache answers for its node. -/
def value (memory : Memory α) (caches : Caches α) : Expression α → List Nat → Except Fault α
  | indexed leaf, values => leaf.value memory values
  | product left right contraction, values =>
    RowMajor.foldTuples
      (fun summed acc => do
        let leftValues ← Source.gather contraction.leftSources values summed
        let rightValues ← Source.gather contraction.rightSources values summed
        let x ← value memory caches left leftValues
        let y ← value memory caches right rightValues
        Scalar.add acc (← Scalar.mul x y))
      contraction.summedDims Scalar.zero
  | sum left right isDifference matching, values => do
    let rightValues ← valuesAt values matching.positions
    let x ← value memory caches left values
    let y ← value memory caches right rightValues
    if isDifference then Scalar.sub x y else Scalar.add x y
  | scaled operand scaling, values => do scaling.apply (← value memory caches operand values)
  | bundled operand bundling, values => do
    value memory caches operand (← bundling.operandValues values)
  | split operand splitting, values => do
    match ← splitting.operandValues values with
    | none => return Scalar.zero
    | some (operandValues, sign) => sign.apply (← value memory caches operand operandValues)
  | renamed operand _ _, values => value memory caches operand values
  | cached operand cache dims, values => do
    let components ← filled caches cache (materialized operand.space dims (value memory caches operand))
    let offset ← RowMajor.offset values dims
    match components[offset]? with
    | some x => .ok x
    | none => .error .outOfBounds

end Expression

structure CacheNode (α : Type) where
  operand : Expression α
  cache : Nat
  dims : List Nat

def CacheNode.filling (memory : Memory α) (caches : Caches α) (node : CacheNode α) :
    Except Fault (Array α) :=
  materialized node.operand.space node.dims (node.operand.value memory caches)

omit [Scalar α] in
def Expression.cacheNodes : Expression α → List (CacheNode α)
  | indexed _ => []
  | product left right _ => left.cacheNodes ++ right.cacheNodes
  | sum left right _ _ => left.cacheNodes ++ right.cacheNodes
  | scaled operand _ => operand.cacheNodes
  | bundled operand _ => operand.cacheNodes
  | split operand _ => operand.cacheNodes
  | renamed operand _ _ => operand.cacheNodes
  | cached operand cache dims => ⟨operand, cache, dims⟩ :: operand.cacheNodes

def CachesApart (expressions : List (Expression α)) : Prop :=
  ∀ node ∈ expressions.flatMap Expression.cacheNodes,
    ∀ other ∈ expressions.flatMap Expression.cacheNodes, node.cache = other.cache → node = other

omit [Scalar α] in
theorem CachesApart.mono {es fs : List (Expression α)} (apart : CachesApart es)
    (inside : fs ⊆ es) : CachesApart fs := by
  have same : ∀ node ∈ fs.flatMap Expression.cacheNodes,
      node ∈ es.flatMap Expression.cacheNodes := by
    intro node present
    obtain ⟨e, member, own⟩ := List.mem_flatMap.mp present
    exact List.mem_flatMap.mpr ⟨e, inside member, own⟩
  intro node present other also
  exact apart node (same node present) other (same other also)

omit [Scalar α] in
theorem cachesApart_of_nil {es : List (Expression α)}
    (none : ∀ e ∈ es, e.cacheNodes = []) : CachesApart es := by
  intro node present
  obtain ⟨e, member, inside⟩ := List.mem_flatMap.mp present
  rw [none e member] at inside
  cases inside

/-- The caches that `caches` can have come to by evaluating the expressions on `memory`: those that are
filled have what their node is filled with, those filled before are still, and there are no more. -/
structure Agrees (memory : Memory α) (caches : Caches α) (expressions : List (Expression α))
    (now : Caches α) : Prop where
  size : now.size = caches.size
  nodes : ∀ node ∈ expressions.flatMap Expression.cacheNodes,
    match now[node.cache]?.join with
    | some components => filled caches node.cache (node.filling memory caches) = .ok components
    | none => caches[node.cache]?.join = none

theorem agrees_refl (memory : Memory α) (caches : Caches α) (expressions : List (Expression α)) :
    Agrees memory caches expressions caches := by
  refine ⟨rfl, fun node _ => ?_⟩
  rw [filled]
  cases caches[node.cache]?.join with
  | some components => rfl
  | none => rfl

theorem Agrees.fill {memory : Memory α} {caches now : Caches α} {expressions : List (Expression α)}
    (agrees : Agrees memory caches expressions now) (apart : CachesApart expressions)
    {node : CacheNode α} (member : node ∈ expressions.flatMap Expression.cacheNodes)
    {components : Array α}
    (filling : filled caches node.cache (node.filling memory caches) = .ok components) :
    Agrees memory caches expressions (now.setIfInBounds node.cache (some components)) := by
  refine ⟨Array.size_setIfInBounds.trans agrees.size, fun other present => ?_⟩
  have before := agrees.nodes other present
  rw [Array.getElem?_setIfInBounds]
  by_cases same : node.cache = other.cache
  · obtain rfl := apart node member other present same
    by_cases inside : node.cache < now.size
    · simp only [inside, if_true, Option.join_some]
      exact filling
    · have outside : now[node.cache]? = none := Array.getElem?_eq_none (Nat.le_of_not_lt inside)
      simpa [inside, outside] using before
  · rw [if_neg same]
    exact before

section Yields

open EvalM

variable {kept : Caches α → Prop} {memory : Memory α} {caches : Caches α}

omit [Scalar α] in
theorem Leaf.slotComponent_yields (leaf : Leaf α) (values summed : List Nat) :
    Yields kept memory (leaf.slotComponent values summed) (leaf.slotValue memory values summed) := by
  apply Yields.ofExcept_bind
  intro slots _
  exact Yields.ofExcept_bind fun offset _ => Components.get_yields _ offset

theorem Leaf.component_yields (leaf : Leaf α) (values : List Nat) :
    Yields kept memory (leaf.component values) (leaf.value memory values) := by
  rw [Leaf.component, Leaf.value]
  split
  · exact leaf.slotComponent_yields values []
  · apply Yields.foldTuples
    intro acc summed _
    exact (leaf.slotComponent_yields values summed).bind fun x _ => yields_ofExcept _

theorem materialize_yields {space : Space} {dims : List Nat} {component : List Nat → EvalM α α}
    {value : List Nat → Except Fault α}
    (each : ∀ values, Yields kept memory (component values) (value values)) :
    Yields kept memory (materialize space dims component) (materialized space dims value) := by
  apply Yields.ofExcept_bind
  intro dimension _
  apply Yields.ofExcept_bind
  intro _ _
  apply Yields.foldTuples
  intro acc values _
  apply Yields.ofExcept_bind
  intro offset _
  exact (each values).bind fun x _ => yields_pure _

theorem once_yields {expressions : List (Expression α)} (apart : CachesApart expressions)
    {node : CacheNode α} (member : node ∈ expressions.flatMap Expression.cacheNodes)
    {evaluate : EvalM α (Array α)}
    (filling : Yields (Agrees memory caches expressions) memory evaluate
      (node.filling memory caches)) :
    Yields (Agrees memory caches expressions) memory (once node.cache evaluate)
      (filled caches node.cache (node.filling memory caches)) := by
  intro scratch agrees
  rw [once_run]
  have now := agrees.nodes node member
  rcases found : scratch.caches[node.cache]?.join with _ | components
  · rw [found] at now
    obtain ⟨outcome, agrees'⟩ := filling scratch agrees
    have empty : filled caches node.cache (node.filling memory caches) =
        node.filling memory caches := by
      rw [filled, now]
    rw [empty]
    rcases ran : evaluate memory scratch with ⟨result, later⟩
    rw [ran] at outcome agrees'
    cases result with
    | error fault => exact ⟨outcome, agrees'⟩
    | ok components => exact ⟨outcome, agrees'.fill apart member (empty.trans outcome.symm)⟩
  · rw [found] at now
    exact ⟨now.symm, agrees⟩

theorem component_yields {expressions : List (Expression α)} (apart : CachesApart expressions)
    {e : Expression α}
    (inside : ∀ node ∈ e.cacheNodes, node ∈ expressions.flatMap Expression.cacheNodes)
    (values : List Nat) :
    Yields (Agrees memory caches expressions) memory (e.component values)
      (e.value memory caches values) := by
  induction e generalizing values with
  | indexed leaf => exact leaf.component_yields values
  | product left right contraction ihLeft ihRight =>
      have insideLeft := fun node present => inside node (List.mem_append_left _ present)
      have insideRight := fun node present => inside node (List.mem_append_right _ present)
      apply Yields.foldTuples
      intro acc summed _
      apply Yields.ofExcept_bind
      intro leftValues _
      apply Yields.ofExcept_bind
      intro rightValues _
      apply (ihLeft insideLeft leftValues).bind
      intro x _
      apply (ihRight insideRight rightValues).bind
      intro y _
      exact yields_ofExcept _
  | sum left right isDifference matching ihLeft ihRight =>
      have insideLeft := fun node present => inside node (List.mem_append_left _ present)
      have insideRight := fun node present => inside node (List.mem_append_right _ present)
      apply Yields.ofExcept_bind
      intro rightValues _
      apply (ihLeft insideLeft values).bind
      intro x _
      apply (ihRight insideRight rightValues).bind
      intro y _
      exact yields_ofExcept _
  | scaled operand scaling ih => exact (ih inside values).bind fun x _ => yields_ofExcept _
  | bundled operand bundling ih =>
      exact Yields.ofExcept_bind fun operandValues _ => ih inside operandValues
  | split operand splitting ih =>
      apply Yields.ofExcept_bind
      intro found _
      match found with
      | none => exact yields_pure _
      | some (operandValues, sign) =>
          exact (ih inside operandValues).bind fun x _ => yields_ofExcept _
  | renamed operand free used ih => exact ih inside values
  | cached operand cache dims ih =>
      have member := inside _ List.mem_cons_self
      have insideOperand := fun node present => inside node (List.mem_cons_of_mem _ present)
      have filling : Yields (Agrees memory caches expressions) memory
          (materialize operand.space dims operand.component)
          (CacheNode.filling memory caches ⟨operand, cache, dims⟩) :=
        materialize_yields (ih insideOperand)
      apply (once_yields apart member filling).bind
      intro components _
      exact Yields.ofExcept_bind fun offset _ => yields_ofExcept _

/-- Whatever other components of the expressions are asked for, each one evaluates to its value. -/
theorem component_run {expressions : List (Expression α)} (apart : CachesApart expressions)
    {e : Expression α}
    (inside : ∀ node ∈ e.cacheNodes, node ∈ expressions.flatMap Expression.cacheNodes)
    (values : List Nat) (memory : Memory α) (scratch : Scratch α) :
    (e.component values memory scratch).1 = e.value memory scratch.caches values := by
  have agrees := agrees_refl memory scratch.caches expressions
  exact (component_yields apart inside values scratch agrees).1

end Yields

end IndexNotation
