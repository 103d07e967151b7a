import IndexNotation.Proofs.Expression.Leaf
import IndexNotation.Proofs.Expression.Regrouping

namespace IndexNotation

variable {α : Type}

theorem FreeIndex.eq_of_symbols_eq {free first second : List FreeIndex} (distinct : (symbols free).Nodup)
    (within : first ⊆ free) (within' : second ⊆ free) (same : symbols first = symbols second) :
    first = second := by
  induction first generalizing second with
  | nil => exact (List.map_eq_nil_iff.mp same.symm).symm
  | cons index first ih =>
      cases second with
      | nil => cases same
      | cons other second =>
          rw [List.cons_subset] at within within'
          have heads : index.symbol = other.symbol := (List.cons.inj same).1
          rw [eq_of_symbol_eq distinct within.1 within'.1 heads,
            ih within.2 within'.2 (List.cons.inj same).2]

namespace Expression

section Bundle

variable {e : Expression α} {symbols : IndexList} {merged : List Nat}

theorem exists_positions (inside : ∀ s ∈ symbols, s ∈ e.freeSymbols) :
    ∃ merged, symbols.mapM e.positionOf = .ok merged := by
  apply exists_mapM_eq_ok
  intro s present
  cases found : FreeIndex.position? e.free s with
  | none => exact absurd (inside s present) (List.idxOf?_eq_none_iff.mp found)
  | some position => exact ⟨position, by rw [positionOf, found]⟩

theorem indicesAt_eq (merges : e.StandAt symbols merged) (distinct : e.freeSymbols.Nodup)
    {indices : List FreeIndex} (within : indices ⊆ e.free) (named : FreeIndex.symbols indices = symbols) :
    e.indicesAt merged = indices := by
  exact FreeIndex.eq_of_symbols_eq distinct (e.indicesAt_subset merged) within
    (merges.symbols_indicesAt.trans named.symm)

theorem StandAt.allFit (merges : e.StandAt symbols merged)
    (each : ∀ index ∈ e.free, index.symbol ∈ symbols → index.factor.OrdersFit) :
    Space.AllFit ((e.indicesAt merged).map FreeIndex.factor) := by
  apply Space.allFit_iff.mpr
  intro factor member
  obtain ⟨index, present, rfl⟩ := List.mem_map.mp member
  apply each index (e.indicesAt_subset merged present)
  rw [← merges.symbols_indicesAt]
  exact List.mem_map_of_mem present

theorem mem_merged_iff (merges : e.StandAt symbols merged) (distinct : e.freeSymbols.Nodup) {position : Nat}
    {index : FreeIndex} (stands : e.free[position]? = some index) :
    position ∈ merged ↔ index.symbol ∈ symbols := by
  have here : e.freeSymbols[position]? = some index.symbol := by
    simp [freeSymbols, FreeIndex.symbols, stands]
  constructor
  · intro among
    rw [← merges.symbols_indicesAt]
    exact List.mem_map_of_mem (mem_indicesAt.mpr ⟨position, among, stands⟩)
  · intro named
    obtain ⟨other, among, there⟩ := merges.exists_position named
    have inside := (List.getElem?_eq_some_iff.mp here).1
    rwa [(List.getElem?_inj inside distinct).mp (here.trans there.symm)]

theorem indicesAt_keptPositions (merges : e.StandAt symbols merged) (distinct : e.freeSymbols.Nodup) :
    e.indicesAt (e.keptPositions merged) = e.free.filter fun index => index.symbol ∉ symbols := by
  conv_rhs => rw [← filterMap_getElem?_range e.free]
  rw [indicesAt, keptPositions, List.filterMap_filter, List.filter_filterMap]
  apply List.filterMap_congr
  intro position _
  cases stands : e.free[position]? with
  | none => simp
  | some index =>
      by_cases named : index.symbol ∈ symbols
      · simp [Option.filter_some, named, (mem_merged_iff merges distinct stands).mpr named]
      · simp [Option.filter_some, named, mt (mem_merged_iff merges distinct stands).mp named]

theorem free_bundling (merges : e.StandAt symbols merged) (distinct : e.freeSymbols.Nodup) (mergedDims : List Nat)
    (target : Space) (result : Symbol) (isProduct : Bool) :
    (bundled e (e.bundling merged mergedDims target result isProduct)).free =
      (e.free.filter fun index => index.symbol ∉ symbols) ++ [⟨result, target⟩] :=
  congrArg (· ++ [(⟨result, target⟩ : FreeIndex)]) (indicesAt_keptPositions merges distinct)

/-- Indices of an expression that make up the factors of a target are merged into one over it. -/
theorem exists_bundle (distinct : e.freeSymbols.Nodup) {indices : List FreeIndex} (inside : indices ⊆ e.free)
    (named : FreeIndex.symbols indices = symbols) (several : 2 ≤ symbols.length) (apart : symbols.Nodup)
    {result : Symbol} (fresh : e.mentions result = false) {target : Space} {expected : List Space}
    {isProduct : Bool}
    (regroups : bundleFactors target (indices.map FreeIndex.factor) = .ok (expected, expected, isProduct))
    {mergedDims : List Nat} (computed : FreeIndex.dimensions indices = .ok mergedDims) :
    ∃ merged, e.StandAt symbols merged ∧
      e.bundle symbols target result = .ok (.bundled e (e.bundling merged mergedDims target result isProduct)) := by
  have free : ∀ s ∈ symbols, s ∈ e.freeSymbols := by
    rw [← named]
    exact fun s given => List.map_subset _ inside given
  obtain ⟨merged, found⟩ := exists_positions free
  have merges := standAt_positionOf found
  refine ⟨merged, merges, bundle_eq_ok_iff.mpr ⟨several, apart, fresh, merged, found, expected, isProduct, ?_,
    mergedDims, ?_, rfl⟩⟩
  · rwa [indicesAt_eq merges distinct inside named]
  · rwa [indicesAt_eq merges distinct inside named]

section Component

variable [Scalar α] (merges : e.StandAt symbols merged) (distinct : e.freeSymbols.Nodup)
  (apart : symbols.Nodup) {mergedDims parts : List Nat} {target : Space} {result : Symbol} {isProduct : Bool}
  {values : Symbol → Nat} (length : parts.length = symbols.length)
  (split : (if isProduct then .ok (RowMajor.split (values result) mergedDims)
    else target.splitIndex (values result)) = .ok parts)

include merges distinct apart length split

omit [Scalar α] in
theorem operandValues_assign :
    (e.bundling merged mergedDims target result isProduct).operandValues
        ((bundled e (e.bundling merged mergedDims target result isProduct)).freeSymbols.map values) =
      .ok (e.freeSymbols.map (symbols.assign parts values)) := by
  rw [freeSymbols_bundling]
  apply operandValues_bundling merges apart
  · intro s kept
    exact (IndexList.assign_of_notMem (disjoint_keptSymbols merges distinct kept)).symm
  · rw [split, IndexList.map_assign values apart length]

theorem component_bundling :
    (bundled e (e.bundling merged mergedDims target result isProduct)).component
        ((bundled e (e.bundling merged mergedDims target result isProduct)).freeSymbols.map values) =
      e.component (e.freeSymbols.map (symbols.assign parts values)) := by
  rw [component, operandValues_assign merges distinct apart length split, EvalM.ofExcept_ok, pure_bind]

theorem valueAt_bundling (memory : Memory α) (caches : Caches α) :
    (bundled e (e.bundling merged mergedDims target result isProduct)).valueAt memory caches values =
      e.valueAt memory caches (symbols.assign parts values) := by
  rw [valueAt, value, operandValues_assign merges distinct apart length split, ok_bind]
  rfl

end Component

end Bundle

section Split

variable {e : Expression α} {position : Nat} {index : FreeIndex} {symbols : IndexList} {factors : List Space}

theorem splitAt_of_stands (stands : e.free[position]? = some index) (distinct : e.freeSymbols.Nodup)
    (listed : index.factor.reserveSplitFactors = .ok ()) (splits : index.factor.splitFactors = some factors)
    (same : symbols.length = factors.length) (apart : symbols.Nodup) (new : ∀ s ∈ symbols, e.mentions s = false) :
    e.splitAt index.symbol symbols =
      .ok (.split e (e.splitting position index.factor symbols factors)) := by
  obtain ⟨place, found⟩ := FreeIndex.exists_findIdx?_symbol (List.mem_of_getElem? stands)
  obtain ⟨other, there, named⟩ := FreeIndex.getElem?_of_findIdx?_symbol found
  have here : e.freeSymbols[position]? = some index.symbol := by
    simp [freeSymbols, FreeIndex.symbols, stands]
  have reached : e.freeSymbols[place]? = some index.symbol := by
    simp [freeSymbols, FreeIndex.symbols, there, named]
  have inside := (List.getElem?_eq_some_iff.mp reached).1
  have equal : place = position := (List.getElem?_inj inside distinct).mp (reached.trans here.symm)
  rw [equal] at found
  exact splitAt_eq_ok_iff.mpr ⟨position, index, factors, found, stands, listed, splits, same, apart, new, rfl⟩

/-- The component that an index map leads to, with its sign; zero where it leads nowhere. -/
def signed [Scalar α] (component : Nat → EvalM α α) : Option (Nat × Sign) → EvalM α α
  | none => return Scalar.zero
  | some (flat, sign) => do EvalM.ofExcept (sign.apply (← component flat))

theorem signed_positive [Scalar α] (component : Nat → EvalM α α) (flat : Nat) :
    signed component (some (flat, .positive)) = component flat := bind_pure (component flat)

theorem bind_signed_congr [Scalar α] {bundled : Except Fault (Option (Nat × Sign))} {first second : Nat → EvalM α α}
    (same : ∀ flat sign, bundled = .ok (some (flat, sign)) → first flat = second flat) :
    EvalM.ofExcept bundled >>= signed first = EvalM.ofExcept bundled >>= signed second := by
  match bundled with
  | .error _ | .ok none => rfl
  | .ok (some (flat, sign)) =>
      rw [EvalM.ofExcept_ok, pure_bind, pure_bind, signed, signed, same flat sign rfl]

theorem component_splitting [Scalar α] (stands : e.free[position]? = some index) (distinct : e.freeSymbols.Nodup)
    (same : symbols.length = factors.length) (values : Symbol → Nat) :
    (split e (e.splitting position index.factor symbols factors)).component
        ((split e (e.splitting position index.factor symbols factors)).freeSymbols.map values) =
      EvalM.ofExcept (index.factor.bundleIndex (symbols.map values)) >>=
        signed fun flat => e.component (e.freeSymbols.map (Function.update values index.symbol flat)) := by
  rw [freeSymbols_splitting same, component, operandValues_splitting stands distinct]
  cases index.factor.bundleIndex (symbols.map values) with
  | error fault => rfl
  | ok bundled =>
      cases bundled with
      | none => rfl
      | some bundled => rfl

theorem exists_splitAt_last [Scalar α] {front : List FreeIndex} {p : Symbol} {source : Space}
    (last : e.free = front ++ [⟨p, source⟩]) (distinct : e.freeSymbols.Nodup)
    (listed : source.reserveSplitFactors = .ok ()) (splits : source.splitFactors = some factors)
    (same : symbols.length = factors.length) (apart : symbols.Nodup) (new : ∀ s ∈ symbols, e.mentions s = false) :
    ∃ r, e.splitAt p symbols = .ok r ∧ r.free = front ++ symbols.zipWith FreeIndex.mk factors ∧
      ∀ values, r.component (r.freeSymbols.map values) =
        EvalM.ofExcept (source.bundleIndex (symbols.map values)) >>=
          signed fun flat => e.component (e.freeSymbols.map (Function.update values p flat)) := by
  have stands : e.free[front.length]? = some ⟨p, source⟩ := by
    rw [last]
    exact List.getElem?_concat_length
  refine ⟨_, splitAt_of_stands stands distinct listed splits same apart new, ?_,
    component_splitting stands distinct same⟩
  change e.free.take front.length ++ _ ++ e.free.drop (front.length + 1) = _
  simp [last]

end Split

end Expression

def Tensor.unpacked (t : Tensor α) (d : Nat) (factors : List Space) (p : Symbol) (symbols : IndexList) :
    Expression α :=
  .split (t.indexed [p] [t.space] [d]) ((t.indexed [p] [t.space] [d]).splitting 0 t.space symbols factors)

namespace Tensor

variable {t : Tensor α} {d : Nat} {factors : List Space} {p : Symbol} {symbols : IndexList}

theorem indexedFactors_single (whole : t.space.tensorFactors = none) (p : Symbol) :
    t.space.indexedFactors [p] = .ok [t.space] := by
  rw [Space.indexedFactors_eq (Space.reserveTensorFactors_of_whole whole), whole]
  rfl

theorem index_single (whole : t.space.tensorFactors = none) (sized : t.space.dimension = .ok d) (p : Symbol) :
    Expression.index t [p] = .ok (t.indexed [p] [t.space] [d]) := by
  apply Expression.index_of_nodup (List.nodup_singleton p) (indexedFactors_single whole p)
  rw [Space.dimensions, sized]
  rfl

theorem splitAt_single (listed : t.space.reserveSplitFactors = .ok ())
    (splits : t.space.splitFactors = some factors) (same : symbols.length = factors.length)
    (distinct : symbols.Nodup) (apart : p ∉ symbols) :
    (t.indexed [p] [t.space] [d]).splitAt p symbols = .ok (t.unpacked d factors p symbols) := by
  have stands : (t.indexed [p] [t.space] [d]).free[0]? = some ⟨p, t.space⟩ := rfl
  apply Expression.splitAt_of_stands stands (List.nodup_singleton p) listed splits same distinct
  intro s present
  have other : s ≠ p := ne_of_mem_of_not_mem present apart
  simp [Expression.mentions, indexed, Expression.freeSymbols, FreeIndex.symbols, Expression.free,
    Expression.used, other]

theorem free_unpacked : (t.unpacked d factors p symbols).free = symbols.zipWith FreeIndex.mk factors := by
  change [] ++ symbols.zipWith FreeIndex.mk factors ++ [] = _
  rw [List.nil_append, List.append_nil]

theorem component_unpacked [Scalar α] {tuple : List Nat} (length : tuple.length = symbols.length) :
    (t.unpacked d factors p symbols).component tuple =
      EvalM.ofExcept (t.space.bundleIndex tuple) >>=
        Expression.signed fun flat => (t.indexed [p] [t.space] [d]).component [flat] := by
  have found := @Splitting.operandValues_append
    ((t.indexed [p] [t.space] [d]).splitting 0 t.space symbols factors) [] tuple rfl length []
  rw [List.nil_append, List.append_nil] at found
  rw [unpacked, Expression.component, found]
  change EvalM.ofExcept ((t.space.bundleIndex tuple).map _) >>= _ = _
  cases t.space.bundleIndex tuple with
  | error fault => rfl
  | ok bundled =>
      cases bundled with
      | none => rfl
      | some bundled => rfl

end Tensor

end IndexNotation
