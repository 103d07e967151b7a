import IndexNotation.Proofs.Expression.Faults
import IndexNotation.Proofs.Expression.Regrouping
import IndexNotation.Proofs.Expression.Session
import IndexNotation.Proofs.Tally
/-!
How often one component of an expression asks each of its tensors. A product asks both operands once for each tuple of
the symbols that it sums, a tensor is asked once for each tuple of those that it is traced over, and no other node asks
twice.
-/
namespace IndexNotation

variable {α : Type}

/-- The requests to one tensor: once for each tuple below the dimensions, counted by the tensor's generator. -/
structure Read where
  counter : Nat
  dims : List Nat

namespace Read

def under (dims : List Nat) (read : Read) : Read := { read with dims := dims ++ read.dims }

def tally (reads : List Read) : Nat → Nat := (reads.map fun read => Pi.single read.counter read.dims.prod).sum

theorem tally_cons (read : Read) (reads : List Read) :
    tally (read :: reads) = Pi.single read.counter read.dims.prod + tally reads := by
  rw [tally, List.map_cons, List.sum_cons]
  rfl

theorem tally_append (first second : List Read) : tally (first ++ second) = tally first + tally second := by
  rw [tally, List.map_append, List.sum_append]
  rfl

theorem tally_under (dims : List Nat) (reads : List Read) :
    tally (reads.map (under dims)) = dims.prod • tally reads := by
  induction reads with
  | nil => exact (smul_zero _).symm
  | cons read reads ih =>
      have head : Pi.single read.counter (dims ++ read.dims).prod =
          dims.prod • (Pi.single read.counter read.dims.prod : Nat → Nat) := by
        rw [List.prod_append, ← smul_eq_mul, Pi.single_smul]
      rw [List.map_cons, tally_cons, tally_cons, ih, smul_add, ← head]
      rfl

theorem tally_of_notMem {reads : List Read} {other : Nat} (absent : other ∉ reads.map counter) :
    tally reads other = 0 := by
  induction reads with
  | nil => rfl
  | cons read reads ih =>
      rw [List.map_cons, List.mem_cons, not_or] at absent
      rw [tally_cons, Pi.add_apply, Pi.single_eq_of_ne absent.1, ih absent.2]

theorem tally_of_nodup {reads : List Read} (own : (reads.map counter).Nodup) {read : Read} (present : read ∈ reads) :
    tally reads read.counter = read.dims.prod := by
  induction reads with
  | nil => cases present
  | cons first reads ih =>
      rw [List.map_cons, List.nodup_cons] at own
      rw [tally_cons, Pi.add_apply]
      rcases List.mem_cons.mp present with rfl | later
      · rw [Pi.single_eq_same, tally_of_notMem own.1, Nat.add_zero]
      · have other : read.counter ≠ first.counter :=
          ne_of_mem_of_not_mem (List.mem_map_of_mem later) own.1
        rw [Pi.single_eq_of_ne other, ih own.2 later, Nat.zero_add]

end Read

theorem Leaf.tallies_component [Scalar α] {leaf : Leaf α} {id : String} {dimension counter start : Nat}
    {component : Nat → Except Fault α}
    (stacked : Components.Stacked (.generated (.counting id dimension counter component)) leaf.tensor.components start)
    (values : List Nat) : EvalM.Tallies (leaf.component values) (Read.tally [⟨counter, leaf.summedDims⟩]) := by
  have slot (summed : List Nat) : EvalM.Tallies (leaf.slotComponent values summed) (Pi.single counter 1) :=
    .ofExcept_bind fun slots => .ofExcept_bind fun offset => Components.tallies_get stacked offset
  have total : Read.tally [⟨counter, leaf.summedDims⟩] = leaf.summedDims.prod • Pi.single counter 1 := by
    rw [Read.tally_cons, ← Pi.single_smul, smul_eq_mul, mul_one]
    exact add_zero _
  rw [Leaf.component, total]
  split
  · rename_i none
    rw [List.isEmpty_iff.mp none, List.prod_nil, one_smul]
    exact slot []
  · exact EvalM.Tallies.foldTuples fun summed acc => (slot summed).bind_ofExcept

theorem Components.Stacked.total {base last : Components α} {start : Nat} (stacked : Stacked base last start)
    (whole : base.Total) : last.Total := by
  induction stacked with
  | stored storage block offset length => exact whole
  | generated g => exact whole
  | window stacked opened ih =>
      obtain ⟨_, rfl⟩ := window?_eq_ok opened
      exact ih whole

theorem Components.total_counting {id : String} {dimension counter : Nat} {component : Nat → Except Fault α}
    (total : ∀ index < dimension, ∃ x, component index = .ok x) :
    (generated (Generator.counting id dimension counter component)).Total := by
  intro index inside
  rcases total index inside with ⟨x, given⟩
  refine ⟨x, ?_⟩
  rw [Generator.evaluate, if_pos inside, ← given]
  rfl

namespace Expression

section Computed

variable {left right e b : Expression α}

/-- A product whose dimensions are computed has operands whose dimensions are, as a sum is formed over them. -/
theorem computed_of_mul (second : right.freeSymbols.Nodup) (accepted : left.mul right = .ok e)
    (computed : e.Computed) : left.Computed ∧ right.Computed := by
  obtain ⟨_, pairs, dims, summed, rfl⟩ := mul_eq_ok_iff.mp accepted
  constructor
  · intro index present
    by_cases also : index.symbol ∈ right.freeSymbols
    · have among : index ∈ shared left right := List.mem_filter.mpr ⟨present, List.contains_iff_mem.mpr also⟩
      exact Space.exists_dimension_of_mem summed (List.mem_map_of_mem among)
    · exact computed index (mem_free_mul.mpr ⟨Or.inl present, fun both => also both.2⟩)
  · intro index present
    by_cases also : index.symbol ∈ left.freeSymbols
    · obtain ⟨other, there, same⟩ := List.mem_map.mp also
      obtain ⟨d, _, sized⟩ := checkContraction_eq_ok second present same.symm (pairs other there)
      exact ⟨d, sized⟩
    · exact computed index (mem_free_mul.mpr ⟨Or.inr present, fun both => also both.1⟩)

theorem computed_of_combine {isDifference : Bool} (second : right.freeSymbols.Nodup)
    (accepted : combine left right isDifference = .ok e) (computed : e.Computed) :
    left.Computed ∧ right.Computed := by
  obtain ⟨positions, aligned, rfl⟩ := combine_eq_ok_iff.mp accepted
  have permuted := FreeIndex.perm_of_align second aligned
  exact ⟨computed, fun index present => computed index (permuted.mem_iff.mp present)⟩

theorem computed_of_rename {source target : IndexList} {serial next : Nat}
    (accepted : rename e source target serial = .ok (b, next)) (computed : b.Computed) : e.Computed := by
  obtain ⟨_, _, _, _, used, _, rfl⟩ := rename_eq_ok_iff.mp accepted
  intro index present
  have renamed : { index with symbol := IndexList.substitute source target index.symbol } ∈
      FreeIndex.rename (IndexList.substitute source target) e.free := List.mem_map_of_mem present
  obtain ⟨d, sized⟩ := computed _ renamed
  exact ⟨d, sized⟩

theorem computed_of_bundle {symbols : IndexList} {target : Space} {result : Symbol}
    (distinct : e.freeSymbols.Nodup) (accepted : e.bundle symbols target result = .ok b) (computed : b.Computed) :
    e.Computed ∧ ∃ d, target.dimension = .ok d := by
  obtain ⟨_, _, _, merged, found, _, _, _, mergedDims, sized, rfl⟩ := bundle_eq_ok_iff.mp accepted
  have merges := standAt_positionOf found
  refine ⟨fun index present => ?_, computed ⟨result, target⟩ (List.mem_append_right _ List.mem_cons_self)⟩
  by_cases among : index.symbol ∈ symbols
  · have inside : index ∈ e.indicesAt merged := by
      rw [← merges.symbols_indicesAt] at among
      obtain ⟨other, there, named⟩ := List.mem_map.mp among
      rwa [← FreeIndex.eq_of_symbol_eq distinct (e.indicesAt_subset merged there) present named]
    exact Space.exists_dimension_of_mem sized (List.mem_map_of_mem inside)
  · exact computed index (List.mem_append_left _ (mem_kept merges present among))

end Computed

/-- No tensor has `2 ^ 32` slots or more, and no index stands for a product of that many factors. -/
def ShortLists : Expression α → Prop
  | indexed leaf => leaf.slots.length < Nat.pow 2 32
  | product left right _ => left.ShortLists ∧ right.ShortLists
  | sum left right _ _ => left.ShortLists ∧ right.ShortLists
  | scaled operand _ => operand.ShortLists
  | bundled operand bundling => operand.ShortLists ∧
    (bundling.target.tensorFactors.isSome → bundling.target.flattened.length < Nat.pow 2 32)
  | split operand _ => operand.ShortLists
  | renamed operand _ _ => operand.ShortLists
  | cached operand _ _ => operand.ShortLists

/-- An expression that calls without a cache or a split have made over tensors of counting generators, with the requests
that one of its components makes to each tensor. -/
inductive Counted : Expression α → List Read → Prop
  /-- The tensor may show any window of its generator. -/
  | index {t : Tensor α} {id : String} {dimension counter start : Nat} {component : Nat → Except Fault α}
      {symbols : IndexList} {factors : List Space} {dims : List Nat} {e : Expression α}
      (stacked : Components.Stacked (.generated (.counting id dimension counter component)) t.components start)
      (sized : t.space.dimension = .ok t.components.length)
      (total : ∀ index < dimension, ∃ x, component index = .ok x)
      (named : t.space.indexedFactors symbols = .ok factors)
      (summed : Space.dimensions (Leaf.doubledFactors symbols factors) = .ok dims)
      (accepted : Expression.index t symbols = .ok e) : Counted e [⟨counter, dims⟩]
  | mul {left right e : Expression α} {first second : List Read} {dims : List Nat} (inFirst : Counted left first)
      (inSecond : Counted right second) (summed : FreeIndex.dimensions (shared left right) = .ok dims)
      (accepted : left.mul right = .ok e) : Counted e ((first ++ second).map (Read.under dims))
  | combine {left right e : Expression α} {first second : List Read} {isDifference : Bool}
      (inFirst : Counted left first) (inSecond : Counted right second)
      (accepted : Expression.combine left right isDifference = .ok e) : Counted e (first ++ second)
  | scaled {operand : Expression α} {reads : List Read} (inOperand : Counted operand reads) (scaling : Scaling α) :
      Counted (.scaled operand scaling) reads
  | reindex {operand e : Expression α} {reads : List Read} {source target : IndexList} {store later : Store α}
      (inOperand : Counted operand reads) (known : ∀ s ∈ operand.symbols, s.Before store.nextSymbol)
      (written : ∀ s ∈ target, s.Before store.nextSymbol)
      (accepted : operand.reindex source target store = (.ok e, later)) : Counted e reads
  | bundle {operand e : Expression α} {reads : List Read} {symbols : IndexList} {target : Space} {result : Symbol}
      (inOperand : Counted operand reads) (accepted : operand.bundle symbols target result = .ok e) : Counted e reads

namespace Counted

variable {e : Expression α} {reads : List Read}

/-- A component that is given has made these requests, one case for each node. -/
theorem tallies [Scalar α] (counted : e.Counted reads) (values : List Nat) :
    EvalM.Tallies (e.component values) (Read.tally reads) := by
  induction counted generalizing values with
  | index stacked sized total named summed accepted =>
      obtain ⟨leaf, made, rfl⟩ := index_eq_ok_iff.mp accepted
      obtain ⟨factors, named', _, dims, summed', _, _, rfl⟩ := Leaf.make_eq_ok_iff.mp made
      cases named.symm.trans named'
      cases summed.symm.trans summed'
      exact Leaf.tallies_component stacked values
  | mul _ _ summed accepted ihFirst ihSecond =>
      obtain ⟨_, _, dims, summed', rfl⟩ := mul_eq_ok_iff.mp accepted
      cases summed.symm.trans summed'
      rw [Read.tally_under, Read.tally_append]
      refine EvalM.Tallies.foldTuples fun summed acc => ?_
      refine .ofExcept_bind fun leftValues => .ofExcept_bind fun rightValues => ?_
      refine (ihFirst leftValues).bind fun x => ?_
      exact (ihSecond rightValues).bind_ofExcept
  | combine _ _ accepted ihFirst ihSecond =>
      obtain ⟨positions, _, rfl⟩ := combine_eq_ok_iff.mp accepted
      rw [Read.tally_append]
      refine .ofExcept_bind fun rightValues => (ihFirst values).bind fun x => ?_
      exact (ihSecond rightValues).bind_ofExcept
  | scaled _ scaling ih => exact (ih values).bind_ofExcept
  | reindex _ _ _ accepted ih =>
      obtain ⟨next, renamed, _⟩ := reindex_eq_ok accepted
      obtain ⟨_, _, _, _, used, _, rfl⟩ := rename_eq_ok_iff.mp renamed
      exact ih values
  | bundle _ accepted ih =>
      obtain ⟨_, _, _, _, _, _, _, _, _, _, rfl⟩ := bundle_eq_ok_iff.mp accepted
      exact .ofExcept_bind fun operandValues => ih operandValues

theorem cacheNodes (counted : e.Counted reads) : e.cacheNodes = [] := by
  induction counted with
  | index _ _ _ _ _ accepted => exact cacheNodes_index accepted
  | mul _ _ _ accepted ihFirst ihSecond =>
      obtain ⟨_, _, _, _, rfl⟩ := mul_eq_ok_iff.mp accepted
      exact List.append_eq_nil_iff.mpr ⟨ihFirst, ihSecond⟩
  | combine _ _ accepted ihFirst ihSecond =>
      obtain ⟨_, _, rfl⟩ := combine_eq_ok_iff.mp accepted
      exact List.append_eq_nil_iff.mpr ⟨ihFirst, ihSecond⟩
  | scaled _ _ ih => exact ih
  | reindex _ _ _ accepted ih =>
      obtain ⟨_, renamed, _⟩ := reindex_eq_ok accepted
      obtain ⟨_, _, _, _, _, _, rfl⟩ := rename_eq_ok_iff.mp renamed
      exact ih
  | bundle _ accepted ih =>
      obtain ⟨_, _, _, _, _, _, _, _, _, _, rfl⟩ := bundle_eq_ok_iff.mp accepted
      exact ih

theorem wellIndexed (counted : e.Counted reads) : e.WellIndexed := by
  induction counted with
  | index _ _ _ _ _ accepted => exact wellIndexed_index accepted
  | mul _ _ _ accepted ihFirst ihSecond => exact wellIndexed_mul ihFirst ihSecond accepted
  | combine _ _ accepted ihFirst ihSecond => exact wellIndexed_combine ihFirst ihSecond accepted
  | scaled _ _ ih => exact ⟨ih.free, ih.used, ih.apart⟩
  | reindex _ known written accepted _ =>
      obtain ⟨_, renamed, _⟩ := reindex_eq_ok accepted
      exact (wellIndexed_rename known written renamed).1
  | bundle _ accepted ih => exact wellIndexed_bundle ih accepted

theorem inBounds (counted : e.Counted reads) (computed : e.Computed) (short : e.ShortLists) (memory : Memory α) :
    e.InBounds memory := by
  induction counted with
  | index stacked sized total _ _ accepted =>
      apply inBounds_index ⟨sized, stacked.fits trivial⟩ (stacked.total (Components.total_counting total)) _ accepted
      obtain ⟨leaf, made, rfl⟩ := index_eq_ok_iff.mp accepted
      obtain ⟨_, _, _, _, _, _, _, rfl⟩ := Leaf.make_eq_ok_iff.mp made
      intro factors dims
      apply Space.prod_indexedFactors_of_exponent sized
      intro order factor _ many
      rw [many]
      exact (List.length_map _).symm.trans_lt short
  | mul inFirst inSecond _ accepted ihFirst ihSecond =>
      obtain ⟨onLeft, onRight⟩ := computed_of_mul inSecond.wellIndexed.free accepted computed
      obtain ⟨_, _, _, _, rfl⟩ := mul_eq_ok_iff.mp accepted
      exact inBounds_mul (ihFirst onLeft short.1) (ihSecond onRight short.2) accepted
  | combine inFirst inSecond accepted ihFirst ihSecond =>
      obtain ⟨onLeft, onRight⟩ := computed_of_combine inSecond.wellIndexed.free accepted computed
      obtain ⟨_, _, rfl⟩ := combine_eq_ok_iff.mp accepted
      exact inBounds_combine (ihFirst onLeft short.1) (ihSecond onRight short.2) accepted
  | scaled _ scaling ih => exact inBounds_scaled (ih computed short) scaling
  | reindex inOperand known written accepted ih =>
      obtain ⟨_, renamed, _⟩ := reindex_eq_ok accepted
      have onOperand := computed_of_rename renamed computed
      have indexed := (wellIndexed_rename known written renamed).1
      obtain ⟨_, _, _, _, _, _, rfl⟩ := rename_eq_ok_iff.mp renamed
      exact inBounds_rename (ih onOperand short) indexed renamed
  | bundle inOperand accepted ih =>
      obtain ⟨onOperand, d, sized⟩ := computed_of_bundle inOperand.wellIndexed.free accepted computed
      obtain ⟨_, _, _, _, _, _, _, _, _, _, rfl⟩ := bundle_eq_ok_iff.mp accepted
      apply inBounds_bundle (ih onOperand short.1) sized _ accepted
      intro indices mergedDims _ merged expands same
      exact Space.prod_of_flattened_of_few sized (short.2 expands) same merged

/-- One request for a component evaluates each generator once for each tuple of the symbols that are summed above its
tensor, or by it, if only no scalar operation fails. -/
theorem requests [Scalar α] (counted : e.Counted reads) (own : (reads.map Read.counter).Nodup) (values : List Nat)
    (memory : Memory α) (scratch : Scratch α) :
    (∀ x later, e.component values memory scratch = (.ok x, later) → ∀ read ∈ reads,
      later.counts[read.counter]? = scratch.counts[read.counter]?.map (· + read.dims.prod)) ∧
    (e.ShortLists → ∀ dims, e.freeDims = .ok dims → RowMajor.Below values dims →
      (∃ x, (e.component values memory scratch).1 = .ok x) ∨
        ∃ fault, (e.component values memory scratch).1 = .error fault ∧
          Stops memory scratch.caches fault e values) := by
  constructor
  · intro x later ran read present
    rw [counted.tallies values memory scratch x later ran read.counter, Read.tally_of_nodup own present]
  · intro short dims sized below
    have computed : e.Computed := fun index present =>
      Space.exists_dimension_of_mem sized (List.mem_map_of_mem present)
    have defined := (counted.inBounds computed short memory).defined_below sized below
    have noCache : ∀ node, node ∉ e.cacheNodes := by simp [counted.cacheNodes]
    have apart : CachesApart [e] := cachesApart_of_nil (by simp [counted.cacheNodes])
    rw [component_run apart (fun node there => absurd there (noCache node))]
    cases outcome : e.value memory scratch.caches values with
    | ok x => exact Or.inl ⟨x, rfl⟩
    | error fault =>
        exact Or.inr ⟨fault, rfl, stops_of_value (fun node there => absurd there (noCache node)) defined outcome⟩

/-- A traced tensor under two contractions, the outer one over the bundle of what the inner one leaves. -/
theorem requests_nested :
    ∃ (first second third inner merged renamed outer : Expression (Bounded .signed32))
        (store : Store (Bounded .signed32)) (later : Scratch (Bounded .signed32)),
      Expression.index ⟨.tensorProduct [.standard 2 "U", .standard 3 "V", .standard 2 "W"],
        .generated (.counting "first" 12 0 fun index => .ok (.wrap (index + 1)))⟩
        [.letter 'i', .letter 'j', .letter 'k'] = .ok first ∧
      Expression.index ⟨.tensorProduct [(Space.standard 3 "V").dual, .standard 2 "U", (Space.standard 2 "U").dual],
        .generated (.counting "second" 12 1 fun index => .ok (.wrap (2 * index - 5)))⟩
        [.letter 'j', .letter 'l', .letter 'l'] = .ok second ∧
      first.mul second = .ok inner ∧
      inner.bundle [.letter 'i', .letter 'k'] (.tensorProduct [.standard 2 "U", .standard 2 "W"]) (.letter 'p') =
        .ok merged ∧
      merged.reindex [.letter 'p'] [.letter 'q'] .empty = (.ok renamed, store) ∧
      Expression.index ⟨.tensorProduct [(Space.tensorProduct [.standard 2 "U", .standard 2 "W"]).dual],
        .generated (.counting "third" 4 2 fun index => .ok (.wrap (index * index)))⟩ [.letter 'q'] = .ok third ∧
      renamed.mul third = .ok outer ∧
      outer.component [] .empty ⟨#[], #[0, 0, 0]⟩ = (.ok ⟨5576, by decide⟩, later) ∧
      later.counts[0]? = some 12 ∧ later.counts[1]? = some 24 ∧ later.counts[2]? = some 4 := by
  obtain ⟨first, second, third, inner, merged, renamed, outer, store, named, named', multiplied, bundled, reindexed,
    named'', multiplied', symbols, shared, shared', value⟩ :
      ∃ (first second third inner merged renamed outer : Expression (Bounded .signed32))
        (store : Store (Bounded .signed32)),
      Expression.index ⟨.tensorProduct [.standard 2 "U", .standard 3 "V", .standard 2 "W"],
        .generated (.counting "first" 12 0 fun index => .ok (.wrap (index + 1)))⟩
        [.letter 'i', .letter 'j', .letter 'k'] = .ok first ∧
      Expression.index ⟨.tensorProduct [(Space.standard 3 "V").dual, .standard 2 "U", (Space.standard 2 "U").dual],
        .generated (.counting "second" 12 1 fun index => .ok (.wrap (2 * index - 5)))⟩
        [.letter 'j', .letter 'l', .letter 'l'] = .ok second ∧
      first.mul second = .ok inner ∧
      inner.bundle [.letter 'i', .letter 'k'] (.tensorProduct [.standard 2 "U", .standard 2 "W"]) (.letter 'p') =
        .ok merged ∧
      merged.reindex [.letter 'p'] [.letter 'q'] .empty = (.ok renamed, store) ∧
      Expression.index ⟨.tensorProduct [(Space.tensorProduct [.standard 2 "U", .standard 2 "W"]).dual],
        .generated (.counting "third" 4 2 fun index => .ok (.wrap (index * index)))⟩ [.letter 'q'] = .ok third ∧
      renamed.mul third = .ok outer ∧
      merged.symbols = [.letter 'p', .letter 'l', .letter 'j'] ∧
      FreeIndex.dimensions (shared first second) = .ok [3] ∧
      FreeIndex.dimensions (shared renamed third) = .ok [4] ∧
      (outer.component [] .empty ⟨#[], #[0, 0, 0]⟩).1 = .ok ⟨5576, by decide⟩ :=
    ⟨_, _, _, _, _, _, _, _, rfl, rfl, rfl, rfl, rfl, rfl, rfl, rfl, rfl, rfl, by decide +kernel⟩
  have ofFirst : Counted first [⟨0, []⟩] :=
    .index (.generated _) rfl (fun _ _ => ⟨_, rfl⟩) rfl rfl named
  have ofSecond : Counted second [⟨1, [2]⟩] :=
    .index (.generated _) rfl (fun _ _ => ⟨_, rfl⟩) rfl rfl named'
  have ofThird : Counted third [⟨2, []⟩] :=
    .index (.generated _) rfl (fun _ _ => ⟨_, rfl⟩) rfl rfl named''
  have known : ∀ s ∈ merged.symbols, s.Before 0 := by simp [symbols, Symbol.Before]
  have written : ∀ s ∈ [Symbol.letter 'q'], s.Before 0 := by simp [Symbol.Before]
  have counted : Counted outer [⟨0, [4, 3]⟩, ⟨1, [4, 3, 2]⟩, ⟨2, [4]⟩] :=
    .mul (.reindex (.bundle (.mul ofFirst ofSecond shared multiplied) bundled) known written reindexed) ofThird
      shared' multiplied'
  have ran : outer.component [] .empty ⟨#[], #[0, 0, 0]⟩ = (.ok ⟨5576, by decide⟩, _) := Prod.ext value rfl
  have counts := (requests counted (by decide) [] .empty ⟨#[], #[0, 0, 0]⟩).1 _ _ ran
  refine ⟨first, second, third, inner, merged, renamed, outer, store, _, named, named', multiplied, bundled, reindexed,
    named'', multiplied', ran, ?_⟩
  simpa using counts

end Counted

end Expression

end IndexNotation
