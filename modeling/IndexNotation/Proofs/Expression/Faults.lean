import IndexNotation.Proofs.Expression.Defined
import IndexNotation.Proofs.Expression.Value
/-!
Where evaluation stops. Once all that it looks up is there, only the arithmetic of the scalars can fail, and
the allocation of a cache that asks for more bytes than can be addressed.
-/
namespace IndexNotation

variable {α : Type} [Scalar α]

/-- Evaluation stops with the fault: at the arithmetic on components that it has come to, or at the
allocation of a cache. -/
inductive Expression.Stops (memory : Memory α) (caches : Caches α) (fault : Fault) :
    Expression α → List Nat → Prop
  | slots {leaf : Leaf α} {values summed : List Nat} {x : α} (acc : α)
      (slot : leaf.slotValue memory values summed = .ok x) (failed : Scalar.add acc x = .error fault) :
      Stops memory caches fault (indexed leaf) values
  | left {first second : Expression α} {contraction : Contraction} {values summed operandValues : List Nat}
      (gathered : Source.gather contraction.leftSources values summed = .ok operandValues)
      (below : Stops memory caches fault first operandValues) :
      Stops memory caches fault (product first second contraction) values
  | right {first second : Expression α} {contraction : Contraction} {values summed operandValues : List Nat}
      (gathered : Source.gather contraction.rightSources values summed = .ok operandValues)
      (below : Stops memory caches fault second operandValues) :
      Stops memory caches fault (product first second contraction) values
  | factors {first second : Expression α} {contraction : Contraction}
      {values summed leftValues rightValues : List Nat} {x y : α} (acc : α)
      (gathered : Source.gather contraction.leftSources values summed = .ok leftValues)
      (gathered' : Source.gather contraction.rightSources values summed = .ok rightValues)
      (evaluated : first.value memory caches leftValues = .ok x)
      (evaluated' : second.value memory caches rightValues = .ok y)
      (failed : (do Scalar.add acc (← Scalar.mul x y)) = .error fault) :
      Stops memory caches fault (product first second contraction) values
  | summand {first second : Expression α} {isDifference : Bool} {matching : Matching} {values : List Nat}
      (below : Stops memory caches fault first values) :
      Stops memory caches fault (sum first second isDifference matching) values
  | matched {first second : Expression α} {isDifference : Bool} {matching : Matching}
      {values operandValues : List Nat} (found : valuesAt values matching.positions = .ok operandValues)
      (below : Stops memory caches fault second operandValues) :
      Stops memory caches fault (sum first second isDifference matching) values
  | summands {first second : Expression α} {isDifference : Bool} {matching : Matching}
      {values operandValues : List Nat} {x y : α}
      (found : valuesAt values matching.positions = .ok operandValues)
      (evaluated : first.value memory caches values = .ok x)
      (evaluated' : second.value memory caches operandValues = .ok y)
      (failed : (if isDifference then Scalar.sub x y else Scalar.add x y) = .error fault) :
      Stops memory caches fault (sum first second isDifference matching) values
  | scaling {operand : Expression α} {by_ : Scaling α} {values : List Nat} {x : α}
      (evaluated : operand.value memory caches values = .ok x) (failed : by_.apply x = .error fault) :
      Stops memory caches fault (scaled operand by_) values
  | unscaled {operand : Expression α} {by_ : Scaling α} {values : List Nat}
      (below : Stops memory caches fault operand values) :
      Stops memory caches fault (scaled operand by_) values
  | bundle {operand : Expression α} {bundling : Bundling} {values operandValues : List Nat}
      (found : bundling.operandValues values = .ok operandValues)
      (below : Stops memory caches fault operand operandValues) :
      Stops memory caches fault (bundled operand bundling) values
  | parts {operand : Expression α} {splitting : Splitting} {values operandValues : List Nat} {sign : Sign}
      (found : splitting.operandValues values = .ok (some (operandValues, sign)))
      (below : Stops memory caches fault operand operandValues) :
      Stops memory caches fault (split operand splitting) values
  | sign {operand : Expression α} {splitting : Splitting} {values operandValues : List Nat} {sign : Sign}
      {x : α} (found : splitting.operandValues values = .ok (some (operandValues, sign)))
      (evaluated : operand.value memory caches operandValues = .ok x) (failed : sign.apply x = .error fault) :
      Stops memory caches fault (split operand splitting) values
  | rename {operand : Expression α} {free : List FreeIndex} {used : IndexList} {values : List Nat}
      (below : Stops memory caches fault operand values) :
      Stops memory caches fault (renamed operand free used) values
  | filling {operand : Expression α} {cache : Nat} {dims values tuple : List Nat}
      (inRange : RowMajor.Below tuple dims) (below : Stops memory caches fault operand tuple) :
      Stops memory caches fault (cached operand cache dims) values
  /-- A cache takes the components of its operand's whole space. -/
  | allocation {operand : Expression α} {cache dimension : Nat} {dims values : List Nat}
      (capacity : fault = .capacity) (sized : operand.space.dimension = .ok dimension)
      (large : Nat.pow 2 63 ≤ dimension * Scalar.width α) :
      Stops memory caches fault (cached operand cache dims) values

theorem size_materialized {space : Space} {dims : List Nat} {value : List Nat → Except Fault α}
    {components : Array α} (made : materialized space dims value = .ok components) :
    space.dimension = .ok components.size := by
  rcases bind_eq_ok_iff.mp made with ⟨dimension, sized, rest⟩
  rcases bind_eq_ok_iff.mp rest with ⟨_, _, filling⟩
  rw [RowMajor.foldTuples_eq_foldlM] at filling
  have size : components.size = dimension := by
    apply @foldlM_invariant _ _ (fun acc => acc.size = dimension) _ _ _ _ Array.size_replicate ?_ filling
    intro acc tuple next same step
    rcases bind_eq_ok_iff.mp step with ⟨offset, _, rest⟩
    rcases bind_eq_ok_iff.mp rest with ⟨x, _, done⟩
    cases done
    rw [Array.size_setIfInBounds, same]
  rw [size]
  exact sized

omit [Scalar α] in
/-- If the node's cache is filled, it has a component for each number below the dimension. -/
def CacheNode.Sized (caches : Caches α) (node : CacheNode α) : Prop :=
  ∀ components, caches[node.cache]?.join = some components →
    node.operand.space.dimension = .ok components.size

theorem Agrees.sized {memory : Memory α} {caches now : Caches α} {expressions : List (Expression α)}
    (agrees : Agrees memory caches expressions now)
    (sized : ∀ node ∈ expressions.flatMap Expression.cacheNodes, node.Sized caches) :
    ∀ node ∈ expressions.flatMap Expression.cacheNodes, node.Sized now := by
  intro node present components found
  have filling := agrees.nodes node present
  rw [found] at filling
  dsimp only at filling
  rw [filled] at filling
  cases before : caches[node.cache]?.join with
  | some old =>
      rw [before] at filling
      cases filling
      exact sized node present components before
  | none =>
      rw [before] at filling
      exact size_materialized filling

namespace Expression

variable {memory : Memory α} {caches : Caches α} {values : List Nat} {fault : Fault}

theorem stops_indexed {leaf : Leaf α} (defined : (indexed leaf).Defined memory values)
    (failed : leaf.value memory values = .error fault) : Stops memory caches fault (indexed leaf) values := by
  rw [Leaf.value] at failed
  split at failed
  · rename_i none
    have below : RowMajor.Below [] leaf.summedDims := by
      rw [List.isEmpty_iff.mp none]
      trivial
    rcases defined [] below with ⟨x, slot⟩
    rw [slot] at failed
    cases failed
  · rw [RowMajor.foldTuples_eq_foldlM] at failed
    rcases foldlM_eq_error failed with ⟨acc, summed, present, step⟩
    rcases defined summed (RowMajor.mem_tuples.mp present) with ⟨x, slot⟩
    rw [slot] at step
    exact .slots acc slot step

/-- A cache that fails to be filled stops at its allocation or at one of the components. -/
theorem materialized_eq_error {space : Space} {dims : List Nat} {value : List Nat → Except Fault α} {d : Nat}
    (sized : space.dimension = .ok d)
    (offsets : ∀ tuple, RowMajor.Below tuple dims → ∃ offset, RowMajor.offset tuple dims = .ok offset)
    (failed : materialized space dims value = .error fault) :
    fault = .capacity ∧ Nat.pow 2 63 ≤ d * Scalar.width α ∨
      ∃ tuple, RowMajor.Below tuple dims ∧ value tuple = .error fault := by
  rw [materialized, sized, ok_bind] at failed
  rcases bind_eq_error_iff.mp failed with room | ⟨_, _, filling⟩
  · exact Or.inl (Size.reserve_eq_error room)
  · rw [RowMajor.foldTuples_eq_foldlM] at filling
    rcases foldlM_eq_error filling with ⟨acc, tuple, present, step⟩
    have below := RowMajor.mem_tuples.mp present
    rcases offsets tuple below with ⟨offset, placed⟩
    rw [placed, ok_bind] at step
    rcases bind_eq_error_iff.mp step with component | ⟨x, _, done⟩
    · exact Or.inr ⟨tuple, below, component⟩
    · cases done

/-- Evaluation of a component that is defined fails only where it stops at the arithmetic of the scalars or at
an allocation. -/
theorem stops_of_value {e : Expression α} (sized : ∀ node ∈ e.cacheNodes, node.Sized caches)
    (defined : e.Defined memory values) (failed : e.value memory caches values = .error fault) :
    Stops memory caches fault e values := by
  induction e generalizing values with
  | indexed leaf => exact stops_indexed defined failed
  | product left right contraction ihLeft ihRight =>
      rw [value, RowMajor.foldTuples_eq_foldlM] at failed
      rcases foldlM_eq_error failed with ⟨acc, summed, present, step⟩
      rcases defined summed (RowMajor.mem_tuples.mp present) with
        ⟨leftValues, rightValues, gathered, gathered', onLeft, onRight⟩
      rw [gathered, ok_bind, gathered', ok_bind] at step
      rcases bind_eq_error_iff.mp step with first | ⟨x, evaluated, step⟩
      · exact .left gathered
          (ihLeft (fun node present => sized node (List.mem_append_left _ present)) onLeft first)
      · rcases bind_eq_error_iff.mp step with second | ⟨y, evaluated', arithmetic⟩
        · exact .right gathered'
            (ihRight (fun node present => sized node (List.mem_append_right _ present)) onRight second)
        · exact .factors acc gathered gathered' evaluated evaluated' arithmetic
  | sum left right isDifference matching ihLeft ihRight =>
      rcases defined with ⟨rightValues, found, onLeft, onRight⟩
      rw [value, found, ok_bind] at failed
      rcases bind_eq_error_iff.mp failed with first | ⟨x, evaluated, step⟩
      · exact .summand (ihLeft (fun node present => sized node (List.mem_append_left _ present)) onLeft first)
      · rcases bind_eq_error_iff.mp step with second | ⟨y, evaluated', arithmetic⟩
        · exact .matched found
            (ihRight (fun node present => sized node (List.mem_append_right _ present)) onRight second)
        · exact .summands found evaluated evaluated' arithmetic
  | scaled operand by_ ih =>
      rw [value] at failed
      rcases bind_eq_error_iff.mp failed with below | ⟨x, evaluated, arithmetic⟩
      · exact .unscaled (ih sized defined below)
      · exact .scaling evaluated arithmetic
  | bundled operand bundling ih =>
      rcases defined with ⟨_, operandValues, found, below⟩
      rw [value, found, ok_bind] at failed
      exact .bundle found (ih sized below failed)
  | split operand splitting ih =>
      rcases defined with ⟨found, ran, below⟩
      rw [value, ran, ok_bind] at failed
      cases found with
      | none => cases failed
      | some pair =>
          rcases bind_eq_error_iff.mp failed with component | ⟨x, evaluated, arithmetic⟩
          · exact .parts ran (ih sized (below _ _ rfl) component)
          · exact .sign ran evaluated arithmetic
  | renamed operand free used ih => exact .rename (ih sized defined failed)
  | cached operand cache dims ih =>
      rcases defined with ⟨d, counted, ⟨offset, small, placed⟩, below⟩
      have full : ∀ components, filled caches cache
          (materialized operand.space dims (operand.value memory caches)) = .ok components →
            components.size = d := by
        intro components made
        have size : operand.space.dimension = .ok components.size := by
          rw [filled] at made
          cases before : caches[cache]?.join with
          | some old =>
              rw [before] at made
              cases made
              exact sized ⟨operand, cache, dims⟩ List.mem_cons_self components before
          | none =>
              rw [before] at made
              exact size_materialized made
        rw [counted] at size
        exact (Except.ok.inj size).symm
      rw [value] at failed
      rcases bind_eq_error_iff.mp failed with filling | ⟨components, made, lookup⟩
      · rw [filled] at filling
        split at filling
        · cases filling
        · rcases materialized_eq_error counted
            (fun tuple inRange => (below tuple inRange).1.imp fun offset both => both.2) filling with
            ⟨capacity, large⟩ | ⟨tuple, inRange, component⟩
          · exact .allocation capacity counted large
          · have kept := fun node present => sized node (List.mem_cons_of_mem _ present)
            exact .filling inRange (ih kept (below tuple inRange).2 component)
      · rw [placed, ok_bind, Array.getElem?_eq_getElem (full components made ▸ small)] at lookup
        cases lookup

end Expression

end IndexNotation
