import IndexNotation.Proofs.Space.Slots

namespace IndexNotation

variable {α : Type}

theorem find?_contains_eq_none_iff {symbols others : IndexList} :
    symbols.find? others.contains = none ↔ ∀ s ∈ symbols, s ∉ others := by
  simp [List.find?_eq_none]

namespace Leaf

theorem make_eq_ok_iff {tensor : Tensor α} {symbols : IndexList} {leaf : Leaf α} :
    make tensor symbols = .ok leaf ↔
      ∃ factors, tensor.space.indexedFactors symbols = .ok factors ∧
        (∀ slot ∈ symbols.zipIdx, checkSlot symbols factors slot.1 slot.2 = .ok ()) ∧
        ∃ summedDims, Space.dimensions (doubledFactors symbols factors) = .ok summedDims ∧
          ∃ slotDims, Space.dimensions factors = .ok slotDims ∧
            leaf =
              { tensor, free := single symbols factors, used := doubled symbols, slotDims, summedDims
                slots := symbols.map
                  (Source.of (FreeIndex.symbols (single symbols factors)) (doubled symbols)) } := by
  unfold make
  simp only [bind_eq_ok_iff, forM_eq_ok_iff, pure_eq_ok_iff]
  constructor
  · intro given
    rcases given with ⟨factors, indexed, _, slots, summedDims, summed, slotDims, dims, rfl⟩
    exact ⟨factors, indexed, slots, summedDims, summed, slotDims, dims, rfl⟩
  · intro given
    rcases given with ⟨factors, indexed, slots, summedDims, summed, slotDims, dims, rfl⟩
    exact ⟨factors, indexed, (), slots, summedDims, summed, slotDims, dims, rfl⟩

theorem single_eq (symbols : IndexList) (factors : List Space) :
    single symbols factors =
      ((symbols.zip factors).filter fun slot => symbols.count slot.1 = 1).map fun slot =>
        ⟨slot.1, slot.2⟩ := rfl

theorem symbols_single {symbols : IndexList} {factors : List Space}
    (same : factors.length = symbols.length) :
    FreeIndex.symbols (single symbols factors) = symbols.filter fun s => symbols.count s = 1 := by
  have firsts : (symbols.zip factors).map Prod.fst = symbols := List.map_fst_zip (by omega)
  calc
    FreeIndex.symbols (single symbols factors) =
        ((symbols.zip factors).filter fun slot => symbols.count slot.1 = 1).map Prod.fst := by
      simp [FreeIndex.symbols, single_eq, Function.comp_def]
    _ = ((symbols.zip factors).map Prod.fst).filter fun s => symbols.count s = 1 := by
      rw [List.filter_map]
      rfl
    _ = symbols.filter fun s => symbols.count s = 1 := by rw [firsts]

end Leaf

namespace Expression

theorem index_eq_ok_iff {tensor : Tensor α} {symbols : IndexList} {e : Expression α} :
    index tensor symbols = .ok e ↔ ∃ leaf, Leaf.make tensor symbols = .ok leaf ∧ e = .indexed leaf := by
  unfold index
  simp only [bind_eq_ok_iff, pure_eq_ok_iff]
  constructor
  · intro given
    rcases given with ⟨leaf, made, rfl⟩
    exact ⟨leaf, made, rfl⟩
  · intro given
    rcases given with ⟨leaf, made, rfl⟩
    exact ⟨leaf, made, rfl⟩

theorem checkDisjoint_eq_ok_iff {left right : Expression α} {done : Unit} :
    checkDisjoint left right = .ok done ↔
      (∀ s ∈ left.freeSymbols, s ∉ right.used) ∧ (∀ s ∈ right.freeSymbols, s ∉ left.used) ∧
        ∀ s ∈ left.used, s ∉ right.used := by
  simp only [← find?_contains_eq_none_iff]
  unfold checkDisjoint
  cases left.freeSymbols.find? right.used.contains with
  | some s => simp
  | none =>
      cases right.freeSymbols.find? left.used.contains with
      | some s => simp
      | none =>
          cases left.used.find? right.used.contains with
          | some s => simp
          | none => simp

theorem mul_eq_ok_iff {left right e : Expression α} :
    mul left right = .ok e ↔
      checkDisjoint left right = .ok () ∧
        (∀ index ∈ left.free, checkContraction right.free index = .ok ()) ∧
        ∃ summedDims, FreeIndex.dimensions (shared left right) = .ok summedDims ∧
          e = .product left right (contraction left right summedDims) := by
  unfold mul
  simp only [bind_eq_ok_iff, forM_eq_ok_iff, pure_eq_ok_iff]
  constructor
  · intro given
    rcases given with ⟨_, disjoint, _, pairs, summedDims, dims, rfl⟩
    exact ⟨disjoint, pairs, summedDims, dims, rfl⟩
  · intro given
    rcases given with ⟨disjoint, pairs, summedDims, dims, rfl⟩
    exact ⟨(), disjoint, (), pairs, summedDims, dims, rfl⟩

theorem combine_eq_ok_iff {left right e : Expression α} {isDifference : Bool} :
    combine left right isDifference = .ok e ↔
      ∃ positions, FreeIndex.align left.free right.free = .ok positions ∧
        e = .sum left right isDifference
          { used := left.used ++ right.used.filter fun s => !left.used.contains s, positions } := by
  unfold combine
  simp only [bind_eq_ok_iff, pure_eq_ok_iff]
  constructor
  · intro given
    rcases given with ⟨positions, aligned, rfl⟩
    exact ⟨positions, aligned, rfl⟩
  · intro given
    rcases given with ⟨positions, aligned, rfl⟩
    exact ⟨positions, aligned, rfl⟩

theorem bundle_eq_ok_iff {e b : Expression α} {symbols : IndexList} {target : Space} {result : Symbol} :
    bundle e symbols target result = .ok b ↔
      2 ≤ symbols.length ∧ symbols.Nodup ∧ e.mentions result = false ∧
        ∃ merged, symbols.mapM e.positionOf = .ok merged ∧
          ∃ expected isProduct,
            bundleFactors target ((e.indicesAt merged).map FreeIndex.factor) =
              .ok (expected, expected, isProduct) ∧
            ∃ mergedDims, Space.dimensions ((e.indicesAt merged).map FreeIndex.factor) = .ok mergedDims ∧
              b = .bundled e (e.bundling merged mergedDims target result isProduct) := by
  unfold bundle
  by_cases enough : symbols.length < 2
  · have few : ¬ 2 ≤ symbols.length := by omega
    simp [enough, few]
  · have two : 2 ≤ symbols.length := by omega
    rw [← IndexList.firstRepeat_eq_none_iff]
    cases symbols.firstRepeat with
    | some s => simp [enough]
    | none =>
        cases e.mentions result with
        | true => simp [enough, bind_eq_ok_iff]
        | false =>
            simp only [enough, two, if_false, true_and, bind_eq_ok_iff, Bool.false_eq_true,
              ne_eq, ite_not]
            constructor
            · intro given
              rcases given with ⟨merged, found, ⟨expected, actual, isProduct⟩, factors, rest⟩
              dsimp only at rest
              split at rest
              · rename_i same
                subst same
                obtain ⟨mergedDims, dims, made⟩ := bind_eq_ok_iff.mp rest
                cases made
                exact ⟨merged, found, expected, isProduct, factors, mergedDims, dims, rfl⟩
              · cases rest
            · intro given
              rcases given with ⟨merged, found, expected, isProduct, factors, mergedDims, dims, rfl⟩
              refine ⟨merged, found, (expected, expected, isProduct), factors, ?_⟩
              simp [dims]

theorem splitAt_eq_ok_iff {e b : Expression α} {source : Symbol} {symbols : IndexList} :
    splitAt e source symbols = .ok b ↔
      ∃ position index factors, e.free.findIdx? (·.symbol = source) = some position ∧
        e.free[position]? = some index ∧ index.factor.reserveSplitFactors = .ok () ∧
        index.factor.splitFactors = some factors ∧ symbols.length = factors.length ∧ symbols.Nodup ∧
        (∀ s ∈ symbols, e.mentions s = false) ∧
        b = .split e (e.splitting position index.factor symbols factors) := by
  unfold splitAt
  cases e.free.findIdx? (·.symbol = source) with
  | none => simp
  | some position =>
      cases found : e.free[position]? with
      | none => simp [found]
      | some index =>
          cases listed : index.factor.reserveSplitFactors with
          | error fault => simp [found, listed]
          | ok done =>
              cases split : index.factor.splitFactors with
              | none => simp [found, listed, split]
              | some factors =>
                  have fresh : symbols.find? e.mentions = none ↔ ∀ s ∈ symbols, e.mentions s = false := by
                    simp [List.find?_eq_none]
                  rw [← IndexList.firstRepeat_eq_none_iff, ← fresh]
                  by_cases same : symbols.length = factors.length
                  · cases symbols.firstRepeat with
                    | some s => simp [found, listed, split, same]
                    | none =>
                        cases symbols.find? e.mentions with
                        | some s => simp [found, listed, split, same]
                        | none =>
                            simp only [found, listed, split, same, ne_eq, not_true, if_false, pure_eq_ok_iff,
                              ok_bind, Option.some.injEq, true_and, exists_and_left, exists_eq_left']
                            exact eq_comm
                  · simp [found, listed, split, same]

theorem rename_eq_ok_iff {e r : Expression α} {source target : IndexList} {serial next : Nat} :
    rename e source target serial = .ok (r, next) ↔
      source.length = target.length ∧ source.Nodup ∧ target.Nodup ∧
        (e.freeSymbols.map (IndexList.substitute source target)).Nodup ∧
        ∃ used, renameUsed (IndexList.substitute source target)
            (e.freeSymbols.map (IndexList.substitute source target)) e.used serial = (used, next) ∧
          r = .renamed e (FreeIndex.rename (IndexList.substitute source target) e.free) used := by
  unfold rename
  simp only [FreeIndex.symbols_rename, ← IndexList.firstRepeat_eq_none_iff]
  by_cases same : source.length = target.length
  · cases source.firstRepeat with
    | some s => simp [same]
    | none =>
        cases target.firstRepeat with
        | some s => simp [same]
        | none =>
            simp only [freeSymbols]
            cases IndexList.firstRepeat
                ((FreeIndex.symbols e.free).map (IndexList.substitute source target)) with
            | some s => simp [same]
            | none =>
                obtain ⟨used, last⟩ := renameUsed (IndexList.substitute source target)
                  ((FreeIndex.symbols e.free).map (IndexList.substitute source target)) e.used serial
                simp only [same, ne_eq, not_true, if_false, HOrElse.hOrElse, OrElse.orElse, Option.orElse,
                  true_and]
                constructor
                · intro made
                  cases made
                  exact ⟨used, rfl, rfl⟩
                · intro given
                  rcases given with ⟨_, ⟨rfl, rfl⟩, rfl⟩
                  rfl
  · simp [same]

end Expression

end IndexNotation
