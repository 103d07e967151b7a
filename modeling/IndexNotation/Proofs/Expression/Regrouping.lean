import IndexNotation.Proofs.Expression.Defined
/-!
Bundles and splits. A bundle puts the kept values and the parts of the merged one back to the places that
they have in the operand, and a split puts the component of its parts into the place of the index it splits.
-/
namespace IndexNotation

variable {α : Type}

section Placed

@[simp] theorem length_placed (into positions values : List Nat) :
    (placed into positions values).length = into.length := by
  rw [placed]
  generalize positions.zip values = pairs
  induction pairs generalizing into with
  | nil => rfl
  | cons pair pairs ih => rw [List.foldl_cons, ih, List.length_set]

/-- Placing the values that a list has at the positions leaves its values there, and wherever they stood. -/
theorem placed_getElem? {into positions values whole : List Nat} (length : into.length = whole.length)
    (each : ∀ pair ∈ positions.zip values, whole[pair.1]? = some pair.2) {p : Nat}
    (here : into[p]? = whole[p]? ∨ p ∈ (positions.zip values).map Prod.fst) :
    (placed into positions values)[p]? = whole[p]? := by
  rw [placed]
  generalize positions.zip values = pairs at each here
  induction pairs generalizing into with
  | nil =>
      rcases here with same | absent
      · exact same
      · cases absent
  | cons pair pairs ih =>
      rcases List.forall_mem_cons.mp each with ⟨first, rest⟩
      have inside : pair.1 < into.length := length ▸ (List.getElem?_eq_some_iff.mp first).1
      rw [List.foldl_cons]
      apply ih (by rw [List.length_set, length]) rest
      by_cases same : pair.1 = p
      · left
        rw [← same, List.getElem?_set_self inside, first]
      · rw [List.getElem?_set_ne same]
        rcases here with stands | among
        · exact Or.inl stands
        · rw [List.map_cons, List.mem_cons] at among
          exact Or.inr (among.resolve_left fun equal => same equal.symm)

theorem Bundling.operandValues_eq {b : Bundling} {values parts : List Nat} {last : Nat}
    (found : values[b.kept.length]? = some last)
    (parted : (if b.isProduct then .ok (RowMajor.split last b.mergedDims) else b.target.splitIndex last) =
      .ok parts) :
    b.operandValues values =
      .ok (placed (placed (List.replicate (b.kept.length + b.merged.length) 0) b.kept values) b.merged
        parts) := by
  rw [operandValues, found]
  dsimp only
  split
  · rename_i product
    rw [if_pos product] at parted
    cases parted
    rfl
  · rename_i other
    rw [if_neg other] at parted
    rw [parted]
    rfl

theorem Splitting.operandValues_append (s : Splitting) {front middle : List Nat}
    (before : front.length = s.position) (many : middle.length = s.count) (back : List Nat) :
    s.operandValues (front ++ middle ++ back) =
      (s.source.bundleIndex middle).map
        (Option.map fun bundled => (front ++ bundled.1 :: back, bundled.2)) := by
  have enough : ¬ (front ++ middle ++ back).length < s.position + s.count := by
    rw [← before, ← many, List.length_append, List.length_append]
    omega
  have parts : ((front ++ middle ++ back).drop s.position).take s.count = middle := by
    rw [← before, ← many, List.append_assoc, List.drop_left, List.take_left]
  have first : (front ++ middle ++ back).take s.position = front := by
    rw [← before, List.append_assoc, List.take_left]
  have last : (front ++ middle ++ back).drop (s.position + s.count) = back := by
    rw [← before, ← many, ← List.length_append, List.drop_left]
  simp only [operandValues, if_neg enough, parts, first, last]
  cases s.source.bundleIndex middle with
  | error fault => rfl
  | ok bundled =>
      cases bundled with
      | none => rfl
      | some bundled => rfl

end Placed

theorem Space.below_of_canonical {s : Space} {dims parts : List Nat} (member : parts ∈ s.Canonical dims) :
    RowMajor.Below parts dims := by
  cases s with
  | symmetricPower order factor => exact member.1
  | exteriorPower order factor => exact member.1
  | diagonal left right => exact member.1
  | _ => exact member

namespace Expression

theorem bundleFactors_eq_ok {target : Space} {factors expected : List Space} {isProduct : Bool}
    (accepted : bundleFactors target factors = .ok (expected, expected, isProduct)) :
    isProduct = true ∧ target.flattened = Space.flattenedAll factors ∨
      isProduct = false ∧ target.reserveSplitFactors = .ok () ∧ target.splitFactors = some factors := by
  cases target with
  | tensorProduct _ | tensorPower _ _ =>
      rcases bind_eq_ok_iff.mp accepted with ⟨_, _, rest⟩
      rcases bind_eq_ok_iff.mp rest with ⟨_, _, made⟩
      simp only [pure_eq_ok_iff, Prod.mk.injEq] at made
      rcases made with ⟨rfl, same, rfl⟩
      exact Or.inl ⟨rfl, same.symm⟩
  | symmetricPower _ _ | exteriorPower _ _ | diagonal _ _ =>
      rcases bind_eq_ok_iff.mp accepted with ⟨_, listed, made⟩
      simp only [pure_eq_ok_iff, Prod.mk.injEq] at made
      rcases made with ⟨rfl, same, rfl⟩
      exact Or.inr ⟨rfl, listed, congrArg some same.symm⟩
  | based _ | directSum _ => cases accepted

theorem listed_of_bundleFactors {target : Space} {factors expected actual : List Space} {isProduct : Bool}
    (accepted : bundleFactors target factors = .ok (expected, actual, isProduct)) :
    target.reserveSplitFactors = .ok () := by
  cases target with
  | based _ | directSum _ => cases accepted
  | tensorProduct _ => rfl
  | tensorPower order factor =>
      rcases bind_eq_ok_iff.mp accepted with ⟨_, expanded, _⟩
      rcases bind_eq_ok_iff.mp expanded with ⟨_, listed, _⟩
      exact listed
  | symmetricPower _ _ | exteriorPower _ _ | diagonal _ _ =>
      rcases bind_eq_ok_iff.mp accepted with ⟨_, listed, _⟩
      exact listed

theorem isProduct_eq {target : Space} {factors expected actual : List Space} {isProduct : Bool}
    (accepted : bundleFactors target factors = .ok (expected, actual, isProduct)) :
    isProduct = target.tensorFactors.isSome := by
  cases target with
  | based _ | directSum _ => cases accepted
  | tensorProduct _ | tensorPower _ _ =>
      rcases bind_eq_ok_iff.mp accepted with ⟨_, _, rest⟩
      rcases bind_eq_ok_iff.mp rest with ⟨_, _, made⟩
      cases made
      rfl
  | symmetricPower _ _ | exteriorPower _ _ | diagonal _ _ =>
      rcases bind_eq_ok_iff.mp accepted with ⟨_, _, made⟩
      cases made
      rfl

theorem exists_parts_of_prod {target : Space} {factors expected : List Space} {mergedDims : List Nat}
    {d last : Nat} {isProduct : Bool} (sized : target.dimension = .ok d)
    (counted : target.tensorFactors.isSome → target.flattened = Space.flattenedAll factors → mergedDims.prod = d)
    (regroups : bundleFactors target factors = .ok (expected, expected, isProduct))
    (computed : Space.dimensions factors = .ok mergedDims) (small : last < d) :
    ∃ parts, (if isProduct then .ok (RowMajor.split last mergedDims) else target.splitIndex last) = .ok parts ∧
      RowMajor.Below parts mergedDims := by
  have product := isProduct_eq regroups
  rcases bundleFactors_eq_ok regroups with ⟨rfl, same⟩ | ⟨rfl, listed, splits⟩
  · have inside : last < mergedDims.prod := by
      rwa [counted product.symm same]
    exact ⟨_, rfl, (RowMajor.split_spec inside).1⟩
  · have noPower : ∀ order factor, target = .tensorPower order factor → order < Nat.pow 2 32 := by
      rintro order factor rfl
      cases product
    rcases Space.exists_indexMaps sized noPower listed splits with ⟨dims, sizes, maps⟩
    rw [computed] at sizes
    cases sizes
    exact ⟨_, maps.splits last small, Space.below_of_canonical (maps.oneToOne.mapsTo small)⟩

theorem exists_parts {target : Space} {factors expected : List Space} {mergedDims : List Nat}
    {d last : Nat} {isProduct : Bool} (sized : target.dimension = .ok d) (fits : target.OrdersFit)
    (factorsFit : Space.AllFit factors)
    (regroups : bundleFactors target factors = .ok (expected, expected, isProduct))
    (computed : Space.dimensions factors = .ok mergedDims) (small : last < d) :
    ∃ parts, (if isProduct then .ok (RowMajor.split last mergedDims) else target.splitIndex last) = .ok parts ∧
      RowMajor.Below parts mergedDims :=
  exists_parts_of_prod sized (fun _ same => Space.prod_of_flattened sized fits factorsFit same computed) regroups
    computed small

def StandAt (e : Expression α) (names : IndexList) (positions : List Nat) : Prop :=
  List.Forall₂ (fun s position => e.freeSymbols[position]? = some s) names positions

namespace StandAt

variable {e : Expression α} {names : IndexList} {positions : List Nat}

theorem exists_position (stand : e.StandAt names positions) {s : Symbol} (present : s ∈ names) :
    ∃ position ∈ positions, e.freeSymbols[position]? = some s := by
  rcases List.getElem_of_mem present with ⟨place, inside, rfl⟩
  have bound : place < positions.length := stand.length_eq ▸ inside
  exact ⟨positions[place], List.getElem_mem bound, stand.get inside bound⟩

theorem symbols_indicesAt (stand : e.StandAt names positions) :
    FreeIndex.symbols (e.indicesAt positions) = names := by
  induction stand with
  | nil => rfl
  | @cons s position names positions here _ ih =>
      rw [freeSymbols, FreeIndex.symbols, List.getElem?_map, Option.map_eq_some_iff] at here
      rcases here with ⟨index, found, rfl⟩
      rw [indicesAt, List.filterMap_cons, found, FreeIndex.symbols, List.map_cons]
      exact congrArg (index.symbol :: ·) ih

theorem placed_at (stand : e.StandAt names positions) {values now : Symbol → Nat} (rest : List Nat)
    (same : ∀ s ∈ names, values s = now s) :
    ∀ pair ∈ positions.zip (names.map values ++ rest), (e.freeSymbols.map now)[pair.1]? = some pair.2 := by
  induction stand with
  | nil =>
      intro pair absent
      rw [List.zip_nil_left] at absent
      cases absent
  | @cons s position names positions here _ ih =>
      rcases List.forall_mem_cons.mp same with ⟨first, others⟩
      intro pair present
      rw [List.map_cons, List.cons_append, List.zip_cons_cons] at present
      rcases List.mem_cons.mp present with rfl | later
      · rw [List.getElem?_map, here, first]
        rfl
      · exact ih others pair later

theorem position_lt (stand : e.StandAt names positions) : ∀ position ∈ positions, position < e.free.length := by
  induction stand with
  | nil =>
      intro position absent
      cases absent
  | @cons s position names positions here _ ih =>
      have inside := (List.getElem?_eq_some_iff.mp here).1
      rw [freeSymbols, FreeIndex.symbols, List.length_map] at inside
      exact List.forall_mem_cons.mpr ⟨inside, ih⟩

theorem nodup (stand : e.StandAt names positions) (distinct : names.Nodup) : positions.Nodup := by
  have found : positions.map (e.freeSymbols[·]?) = names.map some := by
    induction stand with
    | nil => rfl
    | cons here _ ih =>
        rw [List.map_cons, List.map_cons, here, ih (List.nodup_cons.mp distinct).2]
  apply List.Nodup.of_map (e.freeSymbols[·]?)
  rw [found]
  exact distinct.map (Option.some_injective Symbol)

theorem fst_zip (stand : e.StandAt names positions) (values : Symbol → Nat) (rest : List Nat) :
    (positions.zip (names.map values ++ rest)).map Prod.fst = positions := by
  apply List.map_fst_zip
  rw [List.length_append, List.length_map, stand.length_eq]
  exact Nat.le_add_right _ _

end StandAt

theorem standAt_positionOf {e : Expression α} {symbols : IndexList} {merged : List Nat}
    (found : symbols.mapM e.positionOf = .ok merged) : e.StandAt symbols merged := by
  apply (mapM_eq_ok_iff.mp found).imp
  intro s position placed
  rw [positionOf] at placed
  cases first : FreeIndex.position? e.free s with
  | none =>
      rw [first] at placed
      cases placed
  | some place =>
      rw [first] at placed
      cases placed
      rcases List.idxOf?_eq_some_iff.mp first with ⟨inside, same, _⟩
      exact List.getElem?_eq_some_iff.mpr ⟨inside, same⟩

theorem standAt_indicesAt {e : Expression α} {positions : List Nat}
    (inside : ∀ position ∈ positions, position < e.free.length) :
    e.StandAt (FreeIndex.symbols (e.indicesAt positions)) positions := by
  induction positions with
  | nil => exact .nil
  | cons position positions ih =>
      rcases List.forall_mem_cons.mp inside with ⟨first, rest⟩
      rw [indicesAt, List.filterMap_cons, List.getElem?_eq_getElem first, FreeIndex.symbols, List.map_cons]
      refine .cons ?_ (ih rest)
      rw [freeSymbols, FreeIndex.symbols, List.getElem?_map, List.getElem?_eq_getElem first]
      rfl

theorem mem_indicesAt {e : Expression α} {positions : List Nat} {index : FreeIndex} :
    index ∈ e.indicesAt positions ↔ ∃ position ∈ positions, e.free[position]? = some index :=
  List.mem_filterMap

section Bundle

variable {memory : Memory α} {e : Expression α} {symbols : IndexList} {merged : List Nat}

theorem indicesAt_subset (e : Expression α) (positions : List Nat) : e.indicesAt positions ⊆ e.free := by
  intro index present
  obtain ⟨position, _, stands⟩ := mem_indicesAt.mp present
  exact List.mem_of_getElem? stands

def keptPositions (e : Expression α) (merged : List Nat) : List Nat :=
  (List.range e.free.length).filter fun position => !merged.contains position

theorem mem_keptPositions {position : Nat} :
    position ∈ e.keptPositions merged ↔ position < e.free.length ∧ position ∉ merged := by
  simp [keptPositions]

theorem standAt_keptPositions (e : Expression α) (merged : List Nat) :
    e.StandAt (e.keptSymbols merged) (e.keptPositions merged) :=
  standAt_indicesAt fun _ present => (mem_keptPositions.mp present).1

theorem mem_kept (merges : e.StandAt symbols merged) {index : FreeIndex} (member : index ∈ e.free)
    (other : index.symbol ∉ symbols) : index ∈ e.indicesAt (e.keptPositions merged) := by
  rcases List.getElem?_of_mem member with ⟨position, stands⟩
  apply mem_indicesAt.mpr
  refine ⟨position, mem_keptPositions.mpr ⟨(List.getElem?_eq_some_iff.mp stands).1, ?_⟩, stands⟩
  intro among
  apply other
  rw [← merges.symbols_indicesAt]
  exact List.mem_map_of_mem (mem_indicesAt.mpr ⟨position, among, stands⟩)

theorem keptPositions_append_perm (merges : e.StandAt symbols merged) (distinct : symbols.Nodup) :
    (e.keptPositions merged ++ merged).Perm (List.range e.free.length) := by
  rw [List.perm_ext_iff_of_nodup _ List.nodup_range]
  · intro position
    rw [List.mem_append, mem_keptPositions, List.mem_range]
    constructor
    · rintro (⟨small, _⟩ | among)
      · exact small
      · exact merges.position_lt position among
    · intro small
      by_cases among : position ∈ merged
      · exact Or.inr among
      · exact Or.inl ⟨small, among⟩
  · refine List.nodup_append.mpr ⟨List.nodup_range.filter _, merges.nodup distinct, ?_⟩
    intro position kept other among same
    exact (mem_keptPositions.mp kept).2 (same ▸ among)

theorem disjoint_keptSymbols (merges : e.StandAt symbols merged) (distinct : e.freeSymbols.Nodup) {s : Symbol}
    (kept : s ∈ e.keptSymbols merged) : s ∉ symbols := by
  intro among
  rcases (e.standAt_keptPositions merged).exists_position kept with ⟨position, stays, here⟩
  rcases merges.exists_position among with ⟨other, goes, there⟩
  have inside := (List.getElem?_eq_some_iff.mp here).1
  have same := (List.getElem?_inj inside distinct).mp (here.trans there.symm)
  exact (mem_keptPositions.mp stays).2 (same ▸ goes)

/-- The kept values and the merged ones come back to the places of their symbols. -/
theorem placed_bundling (merges : e.StandAt symbols merged) (distinct : symbols.Nodup)
    {values now : Symbol → Nat} (same : ∀ s ∈ e.keptSymbols merged, values s = now s) (rest : List Nat) :
    placed
        (placed (List.replicate ((e.keptPositions merged).length + merged.length) 0) (e.keptPositions merged)
          ((e.keptSymbols merged).map values ++ rest))
        merged (symbols.map now) =
      e.freeSymbols.map now := by
  have keeps := e.standAt_keptPositions merged
  have all := keptPositions_append_perm merges distinct
  have length : (List.replicate ((e.keptPositions merged).length + merged.length) 0).length =
      (e.freeSymbols.map now).length := by
    rw [List.length_replicate, ← List.length_append, all.length_eq, List.length_range, List.length_map,
      freeSymbols, FreeIndex.symbols, List.length_map]
  apply List.ext_getElem?
  intro position
  by_cases inside : position < e.free.length
  · have present := all.mem_iff.mpr (List.mem_range.mpr inside)
    have merging := merges.placed_at [] fun s _ => Eq.refl (now s)
    rw [List.append_nil] at merging
    apply placed_getElem? ((length_placed ..).trans length) merging
    rcases List.mem_append.mp present with kept | among
    · left
      apply placed_getElem? length (keeps.placed_at rest same)
      right
      rw [keeps.fst_zip values rest]
      exact kept
    · right
      have firsts := merges.fst_zip now []
      rw [List.append_nil] at firsts
      rw [firsts]
      exact among
  · have outside : (e.freeSymbols.map now).length ≤ position := by
      rw [List.length_map, freeSymbols, FreeIndex.symbols, List.length_map]
      exact Nat.le_of_not_lt inside
    rw [List.getElem?_eq_none outside, List.getElem?_eq_none]
    rwa [length_placed, length_placed, length]

theorem lt_of_mem_positions (merges : e.StandAt symbols merged) (distinct : symbols.Nodup) :
    ∀ position ∈ e.keptPositions merged ++ merged,
      position < (e.keptPositions merged).length + merged.length := by
  have all := keptPositions_append_perm merges distinct
  intro position present
  have inside := List.mem_range.mp (all.mem_iff.mp present)
  rw [← List.length_range (n := e.free.length), ← all.length_eq, List.length_append] at inside
  exact inside

theorem operandValues_bundling (merges : e.StandAt symbols merged) (distinct : symbols.Nodup)
    {mergedDims : List Nat} {target : Space} {result : Symbol} {isProduct : Bool} {values now : Symbol → Nat}
    (same : ∀ s ∈ e.keptSymbols merged, values s = now s)
    (split : (if isProduct then .ok (RowMajor.split (values result) mergedDims)
      else target.splitIndex (values result)) = .ok (symbols.map now)) :
    (e.bundling merged mergedDims target result isProduct).operandValues
        ((e.keptSymbols merged ++ [result]).map values) = .ok (e.freeSymbols.map now) := by
  have last : ((e.keptSymbols merged).map values ++ [values result])[(e.keptPositions merged).length]? =
      some (values result) := by
    rw [← (e.standAt_keptPositions merged).length_eq, ← List.length_map]
    exact List.getElem?_concat_length
  rw [List.map_append, List.map_singleton, Bundling.operandValues_eq last split]
  exact congrArg Except.ok (placed_bundling merges distinct same [values result])

theorem dimensions_merged (merges : e.StandAt symbols merged) {extent : Symbol → Nat}
    (extents : FreeIndex.Extents extent e.free) {mergedDims : List Nat}
    (computed : Space.dimensions ((e.indicesAt merged).map FreeIndex.factor) = .ok mergedDims) :
    mergedDims = symbols.map extent := by
  rw [← merges.symbols_indicesAt]
  apply FreeIndex.dimensions_eq_map computed
  exact fun index present => extents index (e.indicesAt_subset merged present)

theorem mem_free_bundling {mergedDims : List Nat} {target : Space} {result : Symbol} {isProduct : Bool}
    {index : FreeIndex}
    (present : index ∈ (bundled e (e.bundling merged mergedDims target result isProduct)).free) :
    index ∈ e.free ∨ index = ⟨result, target⟩ := by
  rcases List.mem_append.mp present with kept | last
  · exact Or.inl ((indicesAt_sublist List.filter_sublist).mem kept)
  · exact Or.inr (List.mem_singleton.mp last)

theorem inBounds_bundle {b : Expression α} {target : Space} {result : Symbol} {d : Nat} (bounds : e.InBounds memory)
    (sized : target.dimension = .ok d)
    (counted : ∀ {indices : List FreeIndex} {mergedDims : List Nat}, indices ⊆ e.free →
      Space.dimensions (indices.map FreeIndex.factor) = .ok mergedDims → target.tensorFactors.isSome →
      target.flattened = Space.flattenedAll (indices.map FreeIndex.factor) → mergedDims.prod = d)
    (accepted : bundle e symbols target result = .ok b) : b.InBounds memory := by
  have indexed := wellIndexed_bundle bounds.indexed accepted
  obtain ⟨_, distinct, new, merged, found, expected, isProduct, regroups, mergedDims, computed, rfl⟩ :=
    bundle_eq_ok_iff.mp accepted
  have merges := standAt_positionOf found
  refine ⟨indexed, ?_, ?_⟩
  · intro index present
    rcases mem_free_bundling present with old | rfl
    · exact bounds.computed index old
    · exact ⟨d, sized⟩
  · intro values inRange
    have small : values result < d := by
      rcases inRange ⟨result, target⟩ (List.mem_append_right _ List.mem_cons_self) with ⟨d', sized', small⟩
      rw [sized] at sized'
      cases sized'
      exact small
    rcases exists_parts_of_prod sized (counted (e.indicesAt_subset merged) computed) regroups computed small with
      ⟨parts, split, below⟩
    rcases FreeIndex.exists_extents bounds.indexed.free bounds.computed with ⟨extent, extents⟩
    rw [dimensions_merged merges extents computed] at below
    have length : parts.length = symbols.length := by rw [below.length_eq, List.length_map]
    have ranges := IndexList.ranges_assign values distinct below
    have values_eq := IndexList.map_assign values distinct length
    rw [← values_eq] at split
    generalize symbols.assign parts values = now at ranges split
    have apart : ∀ s ∈ e.keptSymbols merged, values s = now s := by
      intro s kept
      exact (ranges.1 s (disjoint_keptSymbols merges bounds.indexed.free kept)).symm
    refine ⟨lt_of_mem_positions merges distinct, e.freeSymbols.map now, ?_, ?_⟩
    · rw [freeSymbols_bundling]
      exact operandValues_bundling merges distinct apart split
    · apply bounds.defined
      rw [extents.inRange_iff]
      intro s present
      apply ranges.lt
      by_cases among : s ∈ symbols
      · exact Or.inl among
      · rcases List.mem_map.mp present with ⟨index, member, rfl⟩
        have kept := mem_kept merges member among
        rcases inRange index (List.mem_append_left _ kept) with ⟨d', sized', smaller⟩
        rw [extents index member] at sized'
        cases sized'
        exact Or.inr smaller

theorem safe_bundle {b : Expression α} {target : Space} {result : Symbol} {d : Nat} (safe : e.Safe memory)
    (sized : target.dimension = .ok d) (fits : target.OrdersFit)
    (accepted : bundle e symbols target result = .ok b) : b.Safe memory := by
  have bounds : b.InBounds memory := by
    apply inBounds_bundle safe.inBounds sized ?_ accepted
    intro indices mergedDims inside computed _ same
    have factorsFit : Space.AllFit (indices.map FreeIndex.factor) := by
      rw [Space.allFit_iff, List.forall_mem_map]
      exact fun index present => safe.fits index (inside present)
    exact Space.prod_of_flattened sized fits factorsFit same computed
  refine ⟨bounds.indexed, bounds.computed, ?_, bounds.defined⟩
  obtain ⟨_, _, _, _, _, _, _, _, _, _, rfl⟩ := bundle_eq_ok_iff.mp accepted
  intro index present
  rcases mem_free_bundling present with old | rfl
  · exact safe.fits index old
  · exact fits

end Bundle

section Split

variable {memory : Memory α} {e : Expression α} {position : Nat} {index : FreeIndex}

theorem free_at (stands : e.free[position]? = some index) :
    e.free = e.free.take position ++ index :: e.free.drop (position + 1) := by
  rcases List.getElem?_eq_some_iff.mp stands with ⟨inside, same⟩
  rw [← same, ← List.drop_eq_getElem_cons inside, List.take_append_drop]

theorem freeSymbols_at (stands : e.free[position]? = some index) :
    e.freeSymbols = e.freeSymbols.take position ++ index.symbol :: e.freeSymbols.drop (position + 1) := by
  conv_lhs => rw [freeSymbols, FreeIndex.symbols, free_at stands]
  rw [List.map_append, List.map_cons, List.map_take, List.map_drop]
  rfl

/-- The operand's component that a split's component stands for has its index at the value that the parts
bundle to, and the other indices at the values they have. -/
theorem map_update_freeSymbols (stands : e.free[position]? = some index) (distinct : e.freeSymbols.Nodup)
    (values : Symbol → Nat) (flat : Nat) :
    (e.freeSymbols.take position).map values ++ flat :: (e.freeSymbols.drop (position + 1)).map values =
      e.freeSymbols.map (Function.update values index.symbol flat) := by
  have whole := freeSymbols_at stands
  rw [whole, List.nodup_middle, List.nodup_cons, List.mem_append, not_or] at distinct
  have others {symbols : IndexList} (apart : index.symbol ∉ symbols) :
      symbols.map (Function.update values index.symbol flat) = symbols.map values :=
    List.map_congr_left fun _ present => Function.update_of_ne (ne_of_mem_of_not_mem present apart) flat values
  conv_rhs => rw [whole]
  rw [List.map_append, List.map_cons, Function.update_self, others distinct.1.1, others distinct.1.2]

theorem operandValues_splitting (stands : e.free[position]? = some index) (distinct : e.freeSymbols.Nodup)
    (symbols : IndexList) (factors : List Space) (values : Symbol → Nat) :
    (e.splitting position index.factor symbols factors).operandValues
        ((e.freeSymbols.take position ++ symbols ++ e.freeSymbols.drop (position + 1)).map values) =
      (index.factor.bundleIndex (symbols.map values)).map (Option.map fun bundled =>
        (e.freeSymbols.map (Function.update values index.symbol bundled.1), bundled.2)) := by
  have front : ((e.freeSymbols.take position).map values).length = position := by
    have inside := (List.getElem?_eq_some_iff.mp stands).1
    rw [List.length_map, List.length_take, freeSymbols, FreeIndex.symbols, List.length_map]
    exact Nat.min_eq_left (Nat.le_of_lt inside)
  rw [List.map_append, List.map_append,
    Splitting.operandValues_append _ front (List.length_map values)]
  simp only [map_update_freeSymbols stands distinct]
  rfl

theorem inRange_update (stands : e.free[position]? = some index) (distinct : e.freeSymbols.Nodup) {d flat : Nat}
    (sized : index.factor.dimension = .ok d) (small : flat < d) {values : Symbol → Nat}
    (others : FreeIndex.InRange (e.free.take position ++ e.free.drop (position + 1)) values) :
    FreeIndex.InRange e.free (Function.update values index.symbol flat) := by
  intro other present
  by_cases named : other.symbol = index.symbol
  · rw [FreeIndex.eq_of_symbol_eq distinct present (List.mem_of_getElem? stands) named, Function.update_self]
    exact ⟨d, sized, small⟩
  · rw [Function.update_of_ne named]
    apply others
    rw [free_at stands] at present
    rcases List.mem_append.mp present with front | back
    · exact List.mem_append_left _ front
    · rcases List.mem_cons.mp back with rfl | later
      · exact absurd rfl named
      · exact List.mem_append_right _ later

theorem safe_splitAt {b : Expression α} {source : Symbol} {symbols : IndexList} (safe : e.Safe memory)
    (accepted : splitAt e source symbols = .ok b) : b.Safe memory := by
  have indexed := wellIndexed_splitAt safe.indexed accepted
  obtain ⟨position, index, factors, _, stands, listed, splits, same, distinct, _, rfl⟩ :=
    splitAt_eq_ok_iff.mp accepted
  have member := List.mem_of_getElem? stands
  rcases safe.computed index member with ⟨d, sized⟩
  rcases Space.exists_indexMaps_split sized (safe.fits index member) listed splits with ⟨dims, computed, maps⟩
  have names := FreeIndex.factors_zipWith_mk same
  have origin : ∀ new ∈ (split e (e.splitting position index.factor symbols factors)).free,
      new ∈ e.free ∨ new.factor ∈ factors := by
    intro new present
    rcases List.mem_append.mp present with front | back
    · rcases List.mem_append.mp front with old | given
      · exact Or.inl (List.mem_of_mem_take old)
      · exact Or.inr (names ▸ List.mem_map_of_mem given)
    · exact Or.inl (List.mem_of_mem_drop back)
  refine ⟨indexed, ?_, ?_, ?_⟩
  · intro new present
    rcases origin new present with old | given
    · exact safe.computed new old
    · exact Space.exists_dimension_of_mem computed given
  · intro new present
    rcases origin new present with old | given
    · exact safe.fits new old
    · exact (safe.fits index member).splitFactors splits _ given
  · intro values inRange
    have below : RowMajor.Below (symbols.map values) dims := by
      have counted : FreeIndex.dimensions (symbols.zipWith FreeIndex.mk factors) = .ok dims := by
        rw [FreeIndex.dimensions, names]
        exact computed
      rw [← FreeIndex.symbols_zipWith_mk same, ← FreeIndex.inRange_iff_below counted]
      exact fun new present => inRange new (List.mem_append_left _ (List.mem_append_right _ present))
    have passed := operandValues_splitting stands safe.indexed.free symbols factors values
    rw [freeSymbols_splitting same]
    by_cases vanishes : index.factor.Vanishes (symbols.map values)
    · rw [(maps.vanishes _ below).mpr vanishes] at passed
      refine ⟨none, passed, ?_⟩
      intro operandValues sign absent
      cases absent
    · rcases maps.bundles _ below vanishes with ⟨flat, small, sign, bundled, _⟩
      rw [bundled] at passed
      refine ⟨_, passed, ?_⟩
      intro operandValues sign' same'
      cases same'
      apply safe.defined
      apply inRange_update stands safe.indexed.free sized small
      intro other present
      apply inRange
      rcases List.mem_append.mp present with front | back
      · exact List.mem_append_left _ (List.mem_append_left _ front)
      · exact List.mem_append_right _ back

end Split

end Expression

end IndexNotation
