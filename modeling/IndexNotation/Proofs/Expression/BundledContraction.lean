import IndexNotation.Proofs.Expression.Bundling
import IndexNotation.Proofs.Expression.Composition
import IndexNotation.Proofs.Expression.FlatSum
import IndexNotation.Proofs.Space.Duality
/-!
Contracting one index over a product of spaces in place of many. Two operands that share some symbols can merge
them, one over a product and the other over its dual: the one flat index sums every tuple of the merged indices
once, however the product groups their factors.
-/
namespace IndexNotation

variable {α : Type}

def FreeIndex.dual (index : FreeIndex) : FreeIndex := { index with factor := index.factor.dual }

namespace FreeIndex

@[simp] theorem symbol_dual (index : FreeIndex) : index.dual.symbol = index.symbol := rfl

@[simp] theorem factor_dual (index : FreeIndex) : index.dual.factor = index.factor.dual := rfl

theorem symbols_map_dual (free : List FreeIndex) : symbols (free.map dual) = symbols free := by
  simp [symbols]

theorem dimensions_map_dual (free : List FreeIndex) : dimensions (free.map dual) = dimensions free := by
  have factors : (free.map dual).map factor = Space.dualAll (free.map factor) := by
    simp [Space.dualAll_eq_map]
  rw [dimensions, dimensions, factors, Space.dimensions_dualAll]

end FreeIndex

/-- Both outcomes stand for one element of the ring, unless the scalars fail on one side only. -/
def Reading.Agree [Scalar α] {R : Type} [CommRing R] (reading : Reading α R) : (first second : Except Fault α) → Prop
  | .ok x, .ok y => reading.val x = reading.val y
  | .ok _, .error fault | .error fault, .ok _ => ArithmeticFails α fault
  | .error _, .error _ => True

namespace IndexList

/-- The values where `p` stands for a whole tuple of values of the symbols. -/
def spread (symbols : IndexList) (dims : List Nat) (p : Symbol) (now : Symbol → Nat) : Symbol → Nat :=
  symbols.assign (RowMajor.split (now p) dims) now

/-- The values where the tuple that the symbols have is numbered by `p`, and they keep those of `base`. -/
def gathered (symbols : IndexList) (dims : List Nat) (p : Symbol) (base now : Symbol → Nat) : Symbol → Nat :=
  Function.update (moved symbols base now) p (RowMajor.number (symbols.map now) dims)

section Spread

variable {extent base now : Symbol → Nat} {symbols summed : IndexList} {p : Symbol}

theorem spread_gathered (apart : symbols.Nodup)
    (below : RowMajor.Below (symbols.map now) (symbols.map extent)) {s : Symbol} (other : s ≠ p) :
    spread symbols (symbols.map extent) p (gathered symbols (symbols.map extent) p base now) s = now s := by
  have number : gathered symbols (symbols.map extent) p base now p =
      RowMajor.number (symbols.map now) (symbols.map extent) := Function.update_self ..
  rw [spread, number, RowMajor.split_number below]
  by_cases among : s ∈ symbols
  · have mapped := map_assign (gathered symbols (symbols.map extent) p base now) apart (List.length_map now)
    exact List.map_inj_left.mp mapped s among
  · rw [assign_of_notMem among, gathered, Function.update_of_ne other, moved, if_neg among]

variable (within : ∀ s ∈ symbols, s ∈ summed) (numbered : extent p = (symbols.map extent).prod)

include within numbered

theorem ranges_spread (apart : symbols.Nodup) (outside : p ∉ summed)
    (ranges : Ranges extent ((summed.filter fun s => s ∉ symbols) ++ [p]) base now) :
    Ranges extent summed base (Function.update (spread symbols (symbols.map extent) p now) p (base p)) := by
  have small : now p < (symbols.map extent).prod := numbered ▸ ranges.2 p (by simp)
  have parts := ranges_assign now apart (RowMajor.split_spec small).1
  constructor
  · intro s absent
    by_cases here : s = p
    · rw [here, Function.update_self]
    · have alone : s ∉ symbols := mt (within s) absent
      rw [Function.update_of_ne here, spread, assign_of_notMem alone]
      exact ranges.1 s (by simp [absent, here])
  · intro s present
    rw [Function.update_of_ne (ne_of_mem_of_not_mem present outside)]
    by_cases among : s ∈ symbols
    · exact parts.2 s among
    · rw [spread, assign_of_notMem among]
      exact ranges.2 s (by simp [present, among])

theorem ranges_gathered (ranges : Ranges extent summed base now) :
    RowMajor.Below (symbols.map now) (symbols.map extent) ∧
      Ranges extent ((summed.filter fun s => s ∉ symbols) ++ [p]) base
        (gathered symbols (symbols.map extent) p base now) := by
  have below : RowMajor.Below (symbols.map now) (symbols.map extent) := by
    rw [RowMajor.below_iff_forall₂, List.forall₂_map_left_iff, List.forall₂_map_right_iff, List.forall₂_same]
    exact fun s present => ranges.2 s (within s present)
  refine ⟨below, ?_, ?_⟩
  · intro s absent
    simp only [List.mem_append, List.mem_filter, decide_eq_true_eq, List.mem_singleton, not_or] at absent
    rw [gathered, Function.update_of_ne absent.2, moved]
    split
    · rfl
    · rename_i alone
      exact ranges.1 s fun present => absent.1 ⟨present, alone⟩
  · intro s present
    by_cases here : s = p
    · rw [here, gathered, Function.update_self, numbered]
      exact RowMajor.number_lt below
    · simp only [List.mem_append, List.mem_filter, decide_eq_true_eq, List.mem_singleton, here, or_false] at present
      rw [gathered, Function.update_of_ne here, moved, if_neg present.2]
      exact ranges.2 s present.1

/-- Summing the one flat value sums every tuple of the symbols once. -/
theorem sumOver_spread {R : Type} [CommRing R] {F : (Symbol → Nat) → R} (depends : DependsOn F {s | s ≠ p})
    (apart : symbols.Nodup) (distinct : summed.Nodup) :
    sumOver extent ((summed.filter fun s => s ∉ symbols) ++ [p])
        (fun now => F (spread symbols (symbols.map extent) p now)) base =
      sumOver extent summed F base := by
  have inner (now : Symbol → Nat) :
      sumOver extent [p] (fun now => F (spread symbols (symbols.map extent) p now)) now =
        sumOver extent symbols F now := by
    have flat (value : Nat) : F (spread symbols (symbols.map extent) p (Function.update now p value)) =
        F (symbols.assign (RowMajor.split value (symbols.map extent)) now) := by
      rw [spread, Function.update_self]
      exact depends fun s other => assign_eq (Function.update_of_ne other ..)
    rw [sumOver_cons, numbered]
    simp only [sumOver_nil, flat]
    rw [← RowMajor.sum_map_number, sumOver]
    apply congrArg List.sum
    apply List.map_congr_left
    intro tuple present
    rw [RowMajor.split_number (RowMajor.mem_tuples.mp present)]
  have permuted : ((summed.filter fun s => s ∉ symbols) ++ symbols).Perm summed := by
    have separate : ((summed.filter fun s => s ∉ symbols) ++ symbols).Nodup := by
      refine List.nodup_append.mpr ⟨distinct.filter _, apart, fun s kept t merged same => ?_⟩
      exact of_decide_eq_true (List.mem_filter.mp kept).2 (same ▸ merged)
    apply (List.perm_ext_iff_of_nodup separate distinct).mpr
    intro s
    by_cases merged : s ∈ symbols
    · simp [merged, within s merged]
    · simp [merged]
  calc sumOver extent ((summed.filter fun s => s ∉ symbols) ++ [p])
        (fun now => F (spread symbols (symbols.map extent) p now)) base
      = sumOver extent (summed.filter fun s => s ∉ symbols) (sumOver extent symbols F) base := by
        rw [sumOver_append, funext inner]
    _ = sumOver extent ((summed.filter fun s => s ∉ symbols) ++ symbols) F base := (sumOver_append ..).symm
    _ = sumOver extent summed F base := sumOver_perm permuted (permuted.nodup_iff.mpr distinct) F base

end Spread

end IndexList

namespace Expression

theorem bundleFactors_dual {target : Space} {factors expected : List Space} {isProduct : Bool}
    (product : target.tensorFactors.isSome)
    (regroups : bundleFactors target factors = .ok (expected, expected, isProduct)) :
    isProduct = true ∧ bundleFactors target.dual (factors.map Space.dual) =
      .ok (expected.map Space.dual, expected.map Space.dual, true) := by
  rw [← Space.dualAll_eq_map]
  cases target with
  | tensorProduct all | tensorPower order factor =>
      obtain ⟨_, room, rest⟩ := bind_eq_ok_iff.mp regroups
      obtain ⟨_, room', made⟩ := bind_eq_ok_iff.mp rest
      simp only [pure_eq_ok_iff, Prod.mk.injEq] at made
      obtain ⟨whole, parts, rfl⟩ := made
      refine ⟨rfl, ?_⟩
      rw [Space.dual, bundleFactors, ← Space.dual, Space.reserveFlattened_dual, Space.reserveAllFlattened_dualAll,
        room, room', ok_bind, ok_bind, Space.flattened_dual, Space.flattenedAll_dualAll, whole, parts]
      rfl
  | _ => cases product

section Accepted

variable {e f g : Expression α} {symbols : IndexList} {target : Space} {p : Symbol} {d : Nat}

theorem map_dual_subset (second : f.freeSymbols.Nodup) (multiplied : e.mul f = .ok g) {indices : List FreeIndex}
    (inside : indices ⊆ e.free) (shared : ∀ index ∈ indices, index.symbol ∈ f.freeSymbols) :
    indices.map FreeIndex.dual ⊆ f.free := by
  obtain ⟨_, checked, _⟩ := mul_eq_ok_iff.mp multiplied
  intro other member
  obtain ⟨index, present, rfl⟩ := List.mem_map.mp member
  obtain ⟨paired, there, same⟩ := List.mem_map.mp (shared index present)
  have check := checked index (inside present)
  rw [checkContraction, FreeIndex.find?_symbol second there same] at check
  have factor := Space.pairsWith_iff.mp (pairsWith_of_checkPairing check)
  have equal : index.dual = paired := by
    rw [FreeIndex.dual, factor, ← same]
  rwa [equal]

theorem exists_bundle_dual (second : f.freeSymbols.Nodup) (multiplied : e.mul f = .ok g)
    (product : target.tensorFactors.isSome) {indices : List FreeIndex} (inside : indices ⊆ e.free)
    (named : FreeIndex.symbols indices = symbols) (shared : ∀ s ∈ symbols, s ∈ f.freeSymbols)
    (several : 2 ≤ symbols.length) (apart : symbols.Nodup) (new : f.mentions p = false) {expected : List Space}
    {isProduct : Bool}
    (regroups : bundleFactors target (indices.map FreeIndex.factor) = .ok (expected, expected, isProduct))
    {dims : List Nat} (computed : FreeIndex.dimensions indices = .ok dims) :
    ∃ merged, f.StandAt symbols merged ∧
      f.bundle symbols target.dual p = .ok (.bundled f (f.bundling merged dims target.dual p true)) := by
  obtain ⟨rfl, regroups'⟩ := bundleFactors_dual product regroups
  have within := map_dual_subset second multiplied inside fun index present =>
    shared index.symbol (named ▸ List.mem_map_of_mem present)
  have factors : (indices.map FreeIndex.dual).map FreeIndex.factor =
      (indices.map FreeIndex.factor).map Space.dual := by
    simp
  rw [← factors] at regroups'
  apply exists_bundle second within ((FreeIndex.symbols_map_dual indices).trans named) several apart new regroups'
  rw [FreeIndex.dimensions_map_dual]
  exact computed

end Accepted

theorem free_product (left right : Expression α) (summedDims : List Nat) :
    (product left right (contraction left right summedDims)).free =
      (left.free ++ right.free).filter fun index => index.symbol ∉ contracted left right := by
  rw [free, contraction, symbols_shared]
  apply List.filter_congr
  intro index _
  simp [contracted]

/-- `b` has one index `p` over the target in place of the symbols of `e`, behind the others. -/
structure Merges (e b : Expression α) (symbols : IndexList) (target : Space) (p : Symbol) : Prop where
  operand : e.Separated
  inside : ∀ s ∈ symbols, s ∈ e.freeSymbols
  notFree : p ∉ e.freeSymbols
  notUsed : p ∉ e.used
  free : b.free = (e.free.filter fun index => index.symbol ∉ symbols) ++ [⟨p, target⟩]
  used : b.used = e.used

namespace Merges

variable {e f g b c : Expression α} {symbols : IndexList} {target : Space} {p : Symbol} {d : Nat}

theorem freeSymbols (merges : e.Merges b symbols target p) :
    b.freeSymbols = (e.freeSymbols.filter fun s => s ∉ symbols) ++ [p] := by
  rw [Expression.freeSymbols, merges.free, Expression.freeSymbols, FreeIndex.symbols, FreeIndex.symbols,
    List.map_append, List.filter_map]
  rfl

theorem mem_freeSymbols (merges : e.Merges b symbols target p) {s : Symbol} :
    s ∈ b.freeSymbols ↔ s ∈ e.freeSymbols ∧ s ∉ symbols ∨ s = p := by
  rw [merges.freeSymbols, List.mem_append, List.mem_filter, List.mem_singleton, decide_eq_true_eq]

theorem mem_free (merges : e.Merges b symbols target p) {index : FreeIndex} :
    index ∈ b.free ↔ index ∈ e.free ∧ index.symbol ∉ symbols ∨ index = ⟨p, target⟩ := by
  rw [merges.free, List.mem_append, List.mem_filter, List.mem_singleton, decide_eq_true_eq]

theorem separated (merges : e.Merges b symbols target p) : b.Separated := by
  constructor
  · rw [merges.freeSymbols]
    refine List.nodup_append.mpr ⟨merges.operand.free.filter _, List.nodup_singleton p, ?_⟩
    intro s old t last same
    rw [List.mem_singleton.mp last] at same
    exact merges.notFree (same ▸ (List.mem_filter.mp old).1)
  · intro s isFree
    rw [merges.used]
    rcases merges.mem_freeSymbols.mp isFree with ⟨old, _⟩ | rfl
    · exact merges.operand.apart s old
    · exact merges.notUsed

theorem filter_free (merges : e.Merges b symbols target p) {summed : IndexList} (within : ∀ s ∈ symbols, s ∈ summed) :
    (b.free.filter fun index => index.symbol ∉ (summed.filter fun s => s ∉ symbols) ++ [p]) =
      e.free.filter fun index => index.symbol ∉ summed := by
  rw [merges.free, List.filter_append, List.filter_filter]
  have last : ([⟨p, target⟩] : List FreeIndex).filter
      (fun index => index.symbol ∉ (summed.filter fun s => s ∉ symbols) ++ [p]) = [] := by
    simp
  rw [last, List.append_nil]
  apply List.filter_congr
  intro index old
  have differs : index.symbol ≠ p := ne_of_mem_of_not_mem (Expression.mem_freeSymbols old) merges.notFree
  by_cases merged : index.symbol ∈ symbols
  · simp [merged, within index.symbol merged]
  · simp [merged, differs]

theorem valueAt_eq [Scalar α] (merges : e.Merges b symbols target p) {memory : Memory α} {caches : Caches α}
    {now later : Symbol → Nat} (same : ∀ s ≠ p, now s = later s) :
    e.valueAt memory caches now = e.valueAt memory caches later :=
  valueAt_congr fun s isFree => same s (ne_of_mem_of_not_mem isFree merges.notFree)

section Pair

variable (left : e.Merges b symbols target p) (right : f.Merges c symbols target.dual p)

include left right

/-- The bundles sum the one index, and of the others what the operands sum. -/
theorem contracted_eq :
    contracted b c = ((contracted e f).filter fun s => s ∉ symbols) ++ [p] := by
  have last : [p].filter c.freeSymbols.contains = [p] := by
    simp [right.mem_freeSymbols]
  rw [contracted, left.freeSymbols, List.filter_append, last, contracted, List.filter_filter, List.filter_filter]
  congr 1
  apply List.filter_congr
  intro s old
  have other : s ≠ p := ne_of_mem_of_not_mem old left.notFree
  by_cases merged : s ∈ symbols
  · simp [merged]
  · simp [merged, right.mem_freeSymbols, other]

theorem checkContraction_eq_ok (multiplied : e.mul f = .ok g) (sized : target.dimension = .ok d) :
    ∀ index ∈ b.free, checkContraction c.free index = .ok () := by
  obtain ⟨_, checked, _⟩ := mul_eq_ok_iff.mp multiplied
  intro index present
  rcases left.mem_free.mp present with ⟨old, kept⟩ | rfl
  · have differs : index.symbol ≠ p := ne_of_mem_of_not_mem (Expression.mem_freeSymbols old) left.notFree
    cases found : c.free.find? (·.symbol = index.symbol) with
    | none => rw [checkContraction, found]
    | some other =>
        have same : other.symbol = index.symbol := by simpa using List.find?_some found
        rcases right.mem_free.mp (List.mem_of_find?_eq_some found) with ⟨there, _⟩ | rfl
        · have check := checked index old
          rw [checkContraction, FreeIndex.find?_symbol right.operand.free there same] at check
          rw [checkContraction, found]
          exact check
        · exact absurd same.symm differs
  · have found := FreeIndex.find?_symbol right.separated.free (right.mem_free.mpr (.inr rfl)) rfl
    have sized' : target.dual.dimension = .ok d := by rw [Space.dimension_dual, sized]
    rw [checkContraction, found]
    rcases checkPairing_cases (s := p) sized sized' with ⟨_, accepted⟩ | ⟨unpaired, _⟩
    · exact accepted
    · exact absurd (Space.pairsWith_iff.mpr rfl) unpaired

theorem within : ∀ s ∈ symbols, s ∈ contracted e f := fun s present =>
  mem_contracted.mpr ⟨left.inside s present, right.inside s present⟩

theorem exists_mul (multiplied : e.mul f = .ok g) (sized : target.dimension = .ok d) :
    ∃ q, b.mul c = .ok q ∧ q.free = g.free := by
  have checked := left.checkContraction_eq_ok right multiplied sized
  obtain ⟨disjoint, _, dims, computed, rfl⟩ := mul_eq_ok_iff.mp multiplied
  obtain ⟨leftFree, rightFree, bothUsed⟩ := checkDisjoint_eq_ok_iff.mp disjoint
  have disjoint' : checkDisjoint b c = .ok () := by
    apply checkDisjoint_eq_ok_iff.mpr
    rw [left.used, right.used]
    refine ⟨?_, ?_, bothUsed⟩
    · intro s isFree
      rcases left.mem_freeSymbols.mp isFree with ⟨old, _⟩ | rfl
      · exact leftFree s old
      · exact right.notUsed
    · intro s isFree
      rcases right.mem_freeSymbols.mp isFree with ⟨old, _⟩ | rfl
      · exact rightFree s old
      · exact left.notUsed
  obtain ⟨dims', computed'⟩ : ∃ dims', FreeIndex.dimensions (shared b c) = .ok dims' := by
    apply Space.exists_dimensions
    intro factor member
    obtain ⟨index, present, rfl⟩ := List.mem_map.mp member
    obtain ⟨onLeft, onRight⟩ := List.mem_filter.mp present
    rcases left.mem_free.mp onLeft with ⟨old, _⟩ | rfl
    · have differs : index.symbol ≠ p := ne_of_mem_of_not_mem (Expression.mem_freeSymbols old) left.notFree
      rcases right.mem_freeSymbols.mp (List.contains_iff_mem.mp onRight) with ⟨also, _⟩ | same
      · have among : index ∈ shared e f := List.mem_filter.mpr ⟨old, List.contains_iff_mem.mpr also⟩
        exact Space.exists_dimension_of_mem computed (List.mem_map_of_mem among)
      · exact absurd same differs
    · exact ⟨d, sized⟩
  refine ⟨_, mul_eq_ok_iff.mpr ⟨disjoint', checked, dims', computed', rfl⟩, ?_⟩
  have within := left.within right
  rw [free_product, free_product, List.filter_append, List.filter_append, left.contracted_eq right,
    left.filter_free within, right.filter_free within]

theorem sized_pair {extent : Symbol → Nat} (direct : Sized extent [e, f])
    (sized : target.dimension = .ok (extent p)) : Sized extent [b, c] := by
  intro operand member index present shared
  have kept (differs : index.symbol ≠ p) : index.symbol ∈ sharedSymbols [e, f] := by
    rw [mem_sharedSymbols_pair, left.contracted_eq right] at shared
    rcases List.mem_append.mp shared with among | last
    · exact mem_sharedSymbols_pair.mpr (List.mem_filter.mp among).1
    · exact absurd (List.mem_singleton.mp last) differs
  rcases List.mem_cons.mp member with rfl | member
  · rcases left.mem_free.mp present with ⟨there, _⟩ | rfl
    · have differs := ne_of_mem_of_not_mem (Expression.mem_freeSymbols there) left.notFree
      exact direct e List.mem_cons_self index there (kept differs)
    · exact sized
  · obtain rfl := List.mem_singleton.mp member
    rcases right.mem_free.mp present with ⟨there, _⟩ | rfl
    · have differs := ne_of_mem_of_not_mem (Expression.mem_freeSymbols there) right.notFree
      exact direct f (List.mem_cons_of_mem _ List.mem_cons_self) index there (kept differs)
    · rwa [Space.dimension_dual]

theorem exists_extent (multiplied : e.mul f = .ok g) (sized : target.dimension = .ok d)
    {indices : List FreeIndex} (inside : indices ⊆ e.free) (named : FreeIndex.symbols indices = symbols)
    {dims : List Nat} (computed : FreeIndex.dimensions indices = .ok dims) (counted : dims.prod = d) :
    ∃ extent, Sized extent [e, f] ∧ Sized extent [b, c] ∧ dims = symbols.map extent ∧
      extent p = (symbols.map extent).prod := by
  obtain ⟨before, known⟩ :=
    ((isProduct_operand left.operand).mul (isProduct_operand right.operand) multiplied).exists_sized
  have last : Function.update before p d p = d := Function.update_self ..
  have direct : Sized (Function.update before p d) [e, f] := by
    intro operand member index present shared
    have isLeft := (mem_contracted.mp (mem_sharedSymbols_pair.mp shared)).1
    rw [Function.update_of_ne (ne_of_mem_of_not_mem isLeft left.notFree)]
    exact known operand member index present shared
  have extents : dims = symbols.map (Function.update before p d) := by
    rw [← named]
    apply FreeIndex.dimensions_eq_map computed
    intro index present
    have merged : index.symbol ∈ symbols := named ▸ List.mem_map_of_mem present
    exact direct e List.mem_cons_self index (inside present)
      (mem_sharedSymbols_pair.mpr (left.within right index.symbol merged))
  refine ⟨_, direct, left.sized_pair right direct (last.symm ▸ sized), extents, ?_⟩
  rw [← extents, counted, last]

section Values

variable [Scalar α] {R : Type} [CommRing R] (reading : Reading α R) {memory : Memory α} {caches : Caches α}
  {extent : Symbol → Nat} {q : Expression α} (multiplied : e.mul f = .ok g) (accepted : b.mul c = .ok q)
  (apart : symbols.Nodup) (sized : Sized extent [e, f]) (sized' : Sized extent [b, c])
  (numbered : extent p = (symbols.map extent).prod)
  (leftValue : ∀ now, b.valueAt memory caches now =
    e.valueAt memory caches (symbols.spread (symbols.map extent) p now))
  (rightValue : ∀ now, c.valueAt memory caches now =
    f.valueAt memory caches (symbols.spread (symbols.map extent) p now))

include reading multiplied accepted apart sized sized' numbered leftValue rightValue

theorem val_eq {base : Symbol → Nat} {x y : α} (direct : g.valueAt memory caches base = .ok x)
    (merged : q.valueAt memory caches base = .ok y) : reading.val x = reading.val y := by
  obtain ⟨_, whole⟩ :=
    (isProduct_operand left.operand).val_mul reading (isProduct_operand right.operand) sized multiplied direct
  obtain ⟨_, flat⟩ :=
    (isProduct_operand left.separated).val_mul reading (isProduct_operand right.separated) sized' accepted merged
  have depends : DependsOn (fun now => reading.of (e.valueAt memory caches now) *
      reading.of (f.valueAt memory caches now)) {s | s ≠ p} := by
    intro now later same
    have onLeft : e.valueAt memory caches now = e.valueAt memory caches later := left.valueAt_eq same
    have onRight : f.valueAt memory caches now = f.valueAt memory caches later := right.valueAt_eq same
    simp only [onLeft, onRight]
  rw [whole, flat, left.contracted_eq right]
  simp only [leftValue, rightValue]
  exact (IndexList.sumOver_spread (left.within right) numbered depends apart (left.operand.free.filter _)).symm

theorem arithmeticFails_of_merged {base : Symbol → Nat} {x : α} {fault : Fault}
    (direct : g.valueAt memory caches base = .ok x) (merged : q.valueAt memory caches base = .error fault) :
    ArithmeticFails α fault := by
  obtain ⟨present, _⟩ :=
    (isProduct_operand left.operand).val_mul reading (isProduct_operand right.operand) sized multiplied direct
  rcases (isProduct_operand left.separated).mul_eq_error (isProduct_operand right.separated) sized' accepted merged
    with ⟨now, ranges, fails⟩ | arithmetic
  · rw [left.contracted_eq right] at ranges
    have outside : p ∉ contracted e f := fun both => left.notFree (mem_contracted.mp both).1
    obtain ⟨⟨a, onLeft⟩, ⟨b, onRight⟩⟩ :=
      present _ (IndexList.ranges_spread (left.within right) numbered apart outside ranges)
    have same : ∀ s ≠ p, Function.update (symbols.spread (symbols.map extent) p now) p (base p) s =
        symbols.spread (symbols.map extent) p now s := fun s other => Function.update_of_ne other ..
    rw [left.valueAt_eq same] at onLeft
    rw [right.valueAt_eq same] at onRight
    rw [leftValue, rightValue, onLeft, onRight] at fails
    rcases fails with impossible | impossible <;> cases impossible
  · exact arithmetic

theorem arithmeticFails_of_direct {base : Symbol → Nat} {y : α} {fault : Fault}
    (merged : q.valueAt memory caches base = .ok y) (direct : g.valueAt memory caches base = .error fault) :
    ArithmeticFails α fault := by
  obtain ⟨present, _⟩ :=
    (isProduct_operand left.separated).val_mul reading (isProduct_operand right.separated) sized' accepted merged
  rcases (isProduct_operand left.operand).mul_eq_error (isProduct_operand right.operand) sized multiplied direct
    with ⟨now, ranges, fails⟩ | arithmetic
  · obtain ⟨below, gathered⟩ := IndexList.ranges_gathered (left.within right) numbered ranges
    rw [left.contracted_eq right] at present
    obtain ⟨⟨a, onLeft⟩, ⟨b, onRight⟩⟩ := present _ gathered
    have same : ∀ s ≠ p, symbols.spread (symbols.map extent) p
        (symbols.gathered (symbols.map extent) p base now) s = now s :=
      fun s other => IndexList.spread_gathered apart below other
    rw [leftValue, left.valueAt_eq same] at onLeft
    rw [rightValue, right.valueAt_eq same] at onRight
    rw [onLeft, onRight] at fails
    rcases fails with impossible | impossible <;> cases impossible
  · exact arithmetic

theorem agree (base : Symbol → Nat) :
    reading.Agree (g.valueAt memory caches base) (q.valueAt memory caches base) := by
  cases direct : g.valueAt memory caches base with
  | ok x =>
      cases merged : q.valueAt memory caches base with
      | ok y =>
          exact left.val_eq right reading multiplied accepted apart sized sized' numbered leftValue rightValue
            direct merged
      | error fault =>
          exact left.arithmeticFails_of_merged right reading multiplied accepted apart sized sized' numbered
            leftValue rightValue direct merged
  | error fault =>
      cases merged : q.valueAt memory caches base with
      | ok y =>
          exact left.arithmeticFails_of_direct right reading multiplied accepted apart sized sized' numbered
            leftValue rightValue merged direct
      | error _ => trivial

end Values

end Pair

end Merges

section Bundle

variable {e : Expression α} {symbols : IndexList} {merged dims : List Nat} {target : Space} {p : Symbol}

theorem merges_bundling (merges : e.StandAt symbols merged) (operand : e.Separated) (new : e.mentions p = false)
    (isProduct : Bool) :
    e.Merges (.bundled e (e.bundling merged dims target p isProduct)) symbols target p where
  operand := operand
  inside := by
    rw [← merges.symbols_indicesAt]
    exact List.map_subset _ (e.indicesAt_subset merged)
  notFree := (not_mem_of_mentions_eq_false new).1
  notUsed := (not_mem_of_mentions_eq_false new).2
  free := free_bundling merges operand.free dims target p isProduct
  used := rfl

theorem valueAt_bundling_product [Scalar α] (merges : e.StandAt symbols merged) (distinct : e.freeSymbols.Nodup)
    (apart : symbols.Nodup) (length : dims.length = symbols.length) (memory : Memory α) (caches : Caches α)
    (now : Symbol → Nat) :
    (bundled e (e.bundling merged dims target p true)).valueAt memory caches now =
      e.valueAt memory caches (symbols.spread dims p now) :=
  valueAt_bundling merges distinct apart ((RowMajor.length_split _ _).trans length) rfl memory caches

end Bundle

theorem outcomeAt_mul [Scalar α] {e f x y z : Expression α} (apart : CachesApart [e, f])
    (multiplied : x.mul y = .ok z) (first : x.cacheNodes = e.cacheNodes) (second : y.cacheNodes = f.cacheNodes)
    (memory : Memory α) (scratch : Scratch α) (base : Symbol → Nat) :
    z.outcomeAt memory scratch base = z.valueAt memory scratch.caches base := by
  obtain ⟨_, _, dims, _, rfl⟩ := mul_eq_ok_iff.mp multiplied
  apply component_run apart
  intro node present
  rw [cacheNodes, first, second] at present
  simpa using present

/-- Operands that share symbols can merge them into one, over a product and its dual: the bundles multiply as the
operands do, to the same indices and the same components. -/
theorem mul_bundle_dual [Scalar α] {R : Type} [CommRing R] (reading : Reading α R) {e f g b : Expression α}
    {symbols : IndexList} {target : Space} {p : Symbol} {d : Nat} (first : e.Separated) (second : f.Separated)
    (multiplied : e.mul f = .ok g) (shared : ∀ s ∈ symbols, s ∈ f.freeSymbols)
    (product : target.tensorFactors.isSome) (sized : target.dimension = .ok d) (fits : target.OrdersFit)
    (eachFits : ∀ index ∈ e.free, index.symbol ∈ symbols → index.factor.OrdersFit)
    (accepted : e.bundle symbols target p = .ok b) (new : f.mentions p = false) :
    ∃ c q, f.bundle symbols target.dual p = .ok c ∧ b.mul c = .ok q ∧ q.free = g.free ∧
      (CachesApart [e, f] → ∀ memory scratch base,
        reading.Agree (g.outcomeAt memory scratch base) (q.outcomeAt memory scratch base)) := by
  obtain ⟨several, apart, new', merged, found, expected, isProduct, regroups, dims, computed, rfl⟩ :=
    bundle_eq_ok_iff.mp accepted
  have merges := standAt_positionOf found
  have inside := e.indicesAt_subset merged
  obtain ⟨rfl, _⟩ := bundleFactors_dual product regroups
  obtain ⟨merged', merges', accepted'⟩ := exists_bundle_dual second.free multiplied product inside
    merges.symbols_indicesAt shared several apart new regroups computed
  have left : e.Merges (.bundled e (e.bundling merged dims target p true)) symbols target p :=
    merges_bundling merges first new' true
  have right : f.Merges (.bundled f (f.bundling merged' dims target.dual p true)) symbols target.dual p :=
    merges_bundling merges' second new true
  obtain ⟨q, product, free⟩ := left.exists_mul right multiplied sized
  refine ⟨_, q, accepted', product, free, fun caches memory scratch base => ?_⟩
  have same : target.flattened = Space.flattenedAll ((e.indicesAt merged).map FreeIndex.factor) := by
    rcases bundleFactors_eq_ok regroups with ⟨_, same⟩ | ⟨impossible, _⟩
    · exact same
    · cases impossible
  have counted := Space.prod_of_flattened sized fits (merges.allFit eachFits) same computed
  obtain ⟨extent, known, known', rfl, numbered⟩ :=
    left.exists_extent right multiplied sized inside merges.symbols_indicesAt computed counted
  have length : (symbols.map extent).length = symbols.length := List.length_map extent
  rw [outcomeAt_mul caches multiplied rfl rfl, outcomeAt_mul caches product rfl rfl]
  exact left.agree right reading multiplied product apart known known' numbered
    (valueAt_bundling_product merges first.free apart length memory scratch.caches)
    (valueAt_bundling_product merges' second.free apart length memory scratch.caches) base

/-- Three indices contracted one by one, and as one over a product that groups the last two. -/
theorem mul_bundle_dual_regrouped :
    ∃ e f g b c q : Expression (Bounded .signed32),
      Expression.index ⟨.tensorProduct [.standard 2 "U", .standard 3 "V", .standard 2 "W"],
        .generated (.ofFunction "first" 12 fun index => Bounded.ofInt (index + 1))⟩
        [.letter 'i', .letter 'j', .letter 'k'] = .ok e ∧
      Expression.index ⟨(Space.tensorProduct [.standard 2 "U", .standard 3 "V", .standard 2 "W"]).dual,
        .generated (.ofFunction "second" 12 fun index => Bounded.ofInt (3 * index - 5))⟩
        [.letter 'i', .letter 'j', .letter 'k'] = .ok f ∧
      e.mul f = .ok g ∧ g.outcomeAt .empty ⟨#[], #[]⟩ (fun _ => 0) = .ok ⟨1326, by decide⟩ ∧
      e.bundle [.letter 'i', .letter 'j', .letter 'k']
        (.tensorProduct [.standard 2 "U", .tensorProduct [.standard 3 "V", .standard 2 "W"]]) (.letter 'p') = .ok b ∧
      f.bundle [.letter 'i', .letter 'j', .letter 'k']
        (Space.tensorProduct [.standard 2 "U", .tensorProduct [.standard 3 "V", .standard 2 "W"]]).dual
        (.letter 'p') = .ok c ∧
      b.mul c = .ok q ∧ q.free = g.free ∧
      (Bounded.reading .signed32).Agree (.ok ⟨1326, by decide⟩) (q.outcomeAt .empty ⟨#[], #[]⟩ fun _ => 0) := by
  obtain ⟨e, f, g, b, named, named', multiplied, value, bundled, orders, new, shared⟩ :
      ∃ e f g b : Expression (Bounded .signed32),
      Expression.index ⟨.tensorProduct [.standard 2 "U", .standard 3 "V", .standard 2 "W"],
        .generated (.ofFunction "first" 12 fun index => Bounded.ofInt (index + 1))⟩
        [.letter 'i', .letter 'j', .letter 'k'] = .ok e ∧
      Expression.index ⟨(Space.tensorProduct [.standard 2 "U", .standard 3 "V", .standard 2 "W"]).dual,
        .generated (.ofFunction "second" 12 fun index => Bounded.ofInt (3 * index - 5))⟩
        [.letter 'i', .letter 'j', .letter 'k'] = .ok f ∧
      e.mul f = .ok g ∧ g.outcomeAt .empty ⟨#[], #[]⟩ (fun _ => 0) = .ok ⟨1326, by decide⟩ ∧
      e.bundle [.letter 'i', .letter 'j', .letter 'k']
        (.tensorProduct [.standard 2 "U", .tensorProduct [.standard 3 "V", .standard 2 "W"]]) (.letter 'p') = .ok b ∧
      e.free = [⟨.letter 'i', .standard 2 "U"⟩, ⟨.letter 'j', .standard 3 "V"⟩, ⟨.letter 'k', .standard 2 "W"⟩] ∧
      f.mentions (.letter 'p') = false ∧ f.freeSymbols = [.letter 'i', .letter 'j', .letter 'k'] :=
    ⟨_, _, _, _, rfl, rfl, rfl, by decide +kernel, rfl, rfl, rfl, rfl⟩
  let regrouped : Space := .tensorProduct [.standard 2 "U", .tensorProduct [.standard 3 "V", .standard 2 "W"]]
  have fits : regrouped.OrdersFit := ⟨trivial, ⟨trivial, trivial, trivial⟩, trivial⟩
  have eachFits : ∀ index ∈ e.free, index.symbol ∈ [Symbol.letter 'i', .letter 'j', .letter 'k'] →
      index.factor.OrdersFit := by
    simp [orders, Space.standard, Space.OrdersFit]
  have sized : regrouped.dimension = .ok 12 := rfl
  have apart : CachesApart [e, f] := by
    apply cachesApart_of_nil
    simp [cacheNodes_index named, cacheNodes_index named']
  obtain ⟨c, q, bundled', product, free, agrees⟩ := mul_bundle_dual (Bounded.reading .signed32)
    (wellIndexed_index named).separated (wellIndexed_index named').separated multiplied
    (fun s among => shared ▸ among) rfl sized fits eachFits bundled new
  refine ⟨e, f, g, b, c, q, named, named', multiplied, value, bundled, bundled', product, free, ?_⟩
  rw [← value]
  exact agrees apart .empty ⟨#[], #[]⟩ fun _ => 0

end Expression

end IndexNotation
