import IndexNotation.Space.Index
import IndexNotation.Proofs.Packed
import IndexNotation.Proofs.Space.Dimension

namespace IndexNotation.Space

/-- The tuples that a space keeps a component for, `dims` being the dimensions of its split factors. -/
def Canonical (s : Space) (dims : List Nat) : Set (List Nat) :=
  match s with
  | .symmetricPower _ _ => {parts | RowMajor.Below parts dims ∧ parts.Pairwise (· ≥ ·)}
  | .exteriorPower _ _ => {parts | RowMajor.Below parts dims ∧ parts.Pairwise (· > ·)}
  | .diagonal _ _ => {parts | RowMajor.Below parts dims ∧ ∃ value, parts = [value, value]}
  | .based _ | .tensorProduct _ | .tensorPower _ _ | .directSum _ =>
    {parts | RowMajor.Below parts dims}

def Vanishes (s : Space) (parts : List Nat) : Prop :=
  match s with
  | .exteriorPower _ _ => ¬ parts.Nodup
  | .diagonal _ _ => ∃ p q, parts = [p, q] ∧ p ≠ q
  | _ => False

def canonicalOrder (s : Space) (parts : List Nat) : List Nat :=
  match s with
  | .symmetricPower _ _ | .exteriorPower _ _ => parts.mergeSort (· ≥ ·)
  | _ => parts

def partsAt (s : Space) (flat : Nat) : List Nat := (s.splitIndex flat).toOption.getD []

/-- The searches of a packed power that lead from `flat` to `parts` end, with no size overflowing. -/
def SearchesEnd (s : Space) (flat : Nat) (parts : List Nat) : Prop :=
  match s with
  | .symmetricPower order _ => Packed.Unpacks flat order (Packed.raise parts)
  | .exteriorPower order _ => Packed.Unpacks flat order parts
  | _ => True

structure IndexMaps (s : Space) (d : Nat) (dims : List Nat) : Prop where
  splits : ∀ flat < d, s.splitIndex flat = .ok (s.partsAt flat)
  oneToOne : Set.BijOn s.partsAt (Set.Iio d) (s.Canonical dims)
  increasing : StrictMonoOn s.partsAt (Set.Iio d)
  bundlesBack : ∀ flat < d, s.bundleIndex (s.partsAt flat) = .ok (some (flat, .positive))
  vanishes : ∀ parts, RowMajor.Below parts dims →
    (s.bundleIndex parts = .ok none ↔ s.Vanishes parts)
  bundles : ∀ parts, RowMajor.Below parts dims → ¬ s.Vanishes parts →
    ∃ flat < d, ∃ sign, s.bundleIndex parts = .ok (some (flat, sign)) ∧
      s.partsAt flat = s.canonicalOrder parts
  searchesEnd : ∀ flat < d, s.SearchesEnd flat (s.partsAt flat)

/-- What each kind of space has to show: a numbering of its canonical tuples that its index maps
compute. -/
theorem IndexMaps.of_numbering {s : Space} {d : Nat} {dims : List Nat} {rank : List Nat → Nat}
    (numbering : Numbering d (s.Canonical dims) rank s.splitIndex)
    (fixed : ∀ parts ∈ s.Canonical dims,
      s.bundleIndex parts = .ok (some (rank parts, .positive)))
    (vanishes : ∀ parts, RowMajor.Below parts dims →
      (s.bundleIndex parts = .ok none ↔ s.Vanishes parts))
    (ordered : ∀ parts, RowMajor.Below parts dims → ¬ s.Vanishes parts →
      s.canonicalOrder parts ∈ s.Canonical dims ∧
        ∃ sign, s.bundleIndex parts = .ok (some (rank (s.canonicalOrder parts), sign)))
    (searches : ∀ flat < d, ∀ parts, s.splitIndex flat = .ok parts → s.SearchesEnd flat parts) :
    s.IndexMaps d dims := by
  have found : ∀ flat < d, s.splitIndex flat = .ok (s.partsAt flat) := by
    intro flat small
    obtain ⟨parts, _, split, _⟩ := numbering.splits flat small
    rw [partsAt, split]
    rfl
  refine
    { splits := found
      oneToOne := numbering.bijOn found
      increasing := numbering.strictMonoOn found
      bundlesBack := ?_
      vanishes := vanishes
      bundles := ?_
      searchesEnd := fun flat small => searches flat small _ (found flat small) }
  · intro flat small
    have back := fixed _ (numbering.mem_canonical found small)
    rwa [numbering.rank_parts found small] at back
  · intro parts below present
    obtain ⟨member, sign, bundled⟩ := ordered parts below present
    exact ⟨_, numbering.below _ member, sign, bundled, numbering.parts_rank found member⟩

theorem IndexMaps.lt_of_bundleIndex {s : Space} {d flat : Nat} {dims parts : List Nat} {sign : Sign}
    (maps : s.IndexMaps d dims) (below : RowMajor.Below parts dims)
    (bundled : s.bundleIndex parts = .ok (some (flat, sign))) : flat < d := by
  have present : ¬ s.Vanishes parts := by
    rw [← maps.vanishes parts below, bundled]
    simp
  obtain ⟨_, small, _, found, _⟩ := maps.bundles parts below present
  cases bundled.symm.trans found
  exact small

section RowMajor

def IsRowMajor : Space → Prop
  | .based _ | .tensorProduct _ | .tensorPower _ _ | .directSum _ => True
  | .symmetricPower _ _ | .exteriorPower _ _ | .diagonal _ _ => False

variable {s : Space} (kind : s.IsRowMajor)

include kind

theorem canonical_of_isRowMajor (dims : List Nat) :
    s.Canonical dims = {parts | RowMajor.Below parts dims} := by
  cases s <;> first | rfl | exact kind.elim

theorem not_vanishes_of_isRowMajor (parts : List Nat) : ¬ s.Vanishes parts := by
  intro vanished
  cases s <;> first | exact kind.elim | exact vanished

theorem canonicalOrder_of_isRowMajor (parts : List Nat) : s.canonicalOrder parts = parts := by
  cases s <;> first | exact kind.elim | rfl

theorem searchesEnd_of_isRowMajor (flat : Nat) (parts : List Nat) : s.SearchesEnd flat parts := by
  cases s <;> first | exact kind.elim | exact trivial

section Listed

variable (listed : s.reserveSplitFactors = .ok ())

include listed

theorem splitIndex_of_isRowMajor {dims : List Nat} (sized : s.splitDimensions = .ok dims) :
    s.splitIndex = fun flat => .ok (RowMajor.split flat dims) := by
  funext flat
  cases s <;> first | exact kind.elim | (simp only [splitIndex, listed, sized, ok_bind]; rfl)

theorem bundleIndex_eq_offset {dims : List Nat} (sized : s.splitDimensions = .ok dims) (parts : List Nat) :
    s.bundleIndex parts = (do return some (← RowMajor.offset parts dims, .positive)) := by
  cases s <;> first | exact kind.elim | simp only [bundleIndex, listed, sized, ok_bind]

theorem bundleIndex_of_isRowMajor {dims parts : List Nat} (sized : s.splitDimensions = .ok dims)
    (small : dims.prod < Size.bound) (below : RowMajor.Below parts dims) :
    s.bundleIndex parts = .ok (some (RowMajor.number parts dims, .positive)) := by
  rw [bundleIndex_eq_offset kind listed sized, RowMajor.offset_eq below (Nat.le_of_lt small)]
  rfl

end Listed

theorem offset_of_bundleIndex {dims parts : List Nat} {flat : Nat} {sign : Sign}
    (sized : s.splitDimensions = .ok dims) (bundled : s.bundleIndex parts = .ok (some (flat, sign))) :
    RowMajor.offset parts dims = .ok flat ∧ sign = .positive := by
  have listed : s.reserveSplitFactors = .ok () := by
    cases s <;> first | exact kind.elim | exact (bind_eq_ok_iff.mp bundled).choose_spec.1
  rw [bundleIndex_eq_offset kind listed sized] at bundled
  obtain ⟨_, computed, same⟩ := bind_eq_ok_iff.mp bundled
  cases same
  exact ⟨computed, rfl⟩

theorem indexMaps_rowMajor {dims : List Nat} (listed : s.reserveSplitFactors = .ok ())
    (sized : s.splitDimensions = .ok dims) (small : dims.prod < Size.bound) :
    s.IndexMaps dims.prod dims := by
  have bundled : ∀ parts, RowMajor.Below parts dims →
      s.bundleIndex parts = .ok (some (RowMajor.number parts dims, .positive)) :=
    fun _ below => bundleIndex_of_isRowMajor kind listed sized small below
  have numbering : Numbering dims.prod (s.Canonical dims)
      (fun parts => RowMajor.number parts dims) s.splitIndex := by
    rw [canonical_of_isRowMajor kind, splitIndex_of_isRowMajor kind listed sized]
    exact RowMajor.numbering dims
  refine .of_numbering numbering ?_ ?_ ?_ ?_
  · intro parts member
    rw [canonical_of_isRowMajor kind] at member
    exact bundled parts member
  · intro parts below
    rw [bundled parts below]
    exact iff_of_false (by simp) (not_vanishes_of_isRowMajor kind parts)
  · intro parts below _
    rw [canonical_of_isRowMajor kind, canonicalOrder_of_isRowMajor kind]
    exact ⟨below, .positive, bundled parts below⟩
  · intro flat _ parts _
    exact searchesEnd_of_isRowMajor kind flat parts

end RowMajor

section Packed

variable {order n d : Nat} {factor : Space}

theorem canonical_symmetricPower :
    (symmetricPower order factor).Canonical (List.replicate order n) =
      Packed.NonIncreasing n order := by
  ext parts
  simp only [Canonical, Packed.NonIncreasing, Set.mem_ofPred_eq, RowMajor.below_replicate_iff,
    and_assoc]

theorem canonical_exteriorPower :
    (exteriorPower order factor).Canonical (List.replicate order n) =
      Packed.Decreasing n order := by
  ext parts
  simp only [Canonical, Packed.Decreasing, Set.mem_ofPred_eq, RowMajor.below_replicate_iff,
    and_assoc]

theorem indexMaps_symmetricPower (computed : Counting.symmetricDimension order n = .ok d)
    (short : order < Nat.pow 2 60) : 
    (symmetricPower order factor).IndexMaps d (List.replicate order n) := by
  obtain ⟨rfl, fits, room, small⟩ := Counting.symmetricDimension_eq_ok computed
  have size : order ≤ n + order - 1 → n + order - 1 < Size.bound := by
    intro within
    rcases room with none | room
    · have positive : 0 < Size.bound := by decide
      omega
    · omega
  have bundled : ∀ parts, RowMajor.Below parts (List.replicate order n) →
      (symmetricPower order factor).bundleIndex parts =
        .ok (some (Packed.rank (Packed.raise (parts.mergeSort (· ≥ ·))), .positive)) := by
    intro parts below
    obtain ⟨length, each⟩ := RowMajor.below_replicate_iff.mp below
    have flat := Packed.symmetricFlat_eq fits (Nat.le_of_lt small) room length each
    rw [Packed.sortDescending_eq_mergeSort] at flat
    rw [bundleIndex, flat]
    rfl
  have numbering : Numbering ((n + order - 1).choose order)
      ((symmetricPower order factor).Canonical (List.replicate order n))
      (fun parts => Packed.rank (Packed.raise parts)) (symmetricPower order factor).splitIndex := by
    rw [canonical_symmetricPower]
    exact Packed.symmetric_numbering fits size (Packed.reserve_sizes_iff.mpr short)
  refine .of_numbering numbering ?_ ?_ ?_ ?_
  · intro parts member
    have sorted := bundled parts member.1
    rwa [List.mergeSort_eq_self (· ≥ ·) member.2] at sorted
  · intro parts below
    rw [bundled parts below]
    exact iff_of_false (by simp) id
  · intro parts below _
    refine ⟨?_, .positive, bundled parts below⟩
    obtain ⟨length, each⟩ := RowMajor.below_replicate_iff.mp below
    have member := Packed.sorted_mem_nonIncreasing length each
    rw [Packed.sortDescending_eq_mergeSort] at member
    rw [canonical_symmetricPower]
    exact member
  · intro flat small parts found
    exact Packed.unpacks_of_symmetricParts fits size small found

theorem indexMaps_exteriorPower (computed : Counting.exteriorDimension order n = .ok d)
    (size : n < Size.bound) (short : order < Nat.pow 2 60) :
    (exteriorPower order factor).IndexMaps d (List.replicate order n) := by
  obtain ⟨rfl, fits, small⟩ := Counting.exteriorDimension_eq_ok computed
  have bundled : ∀ parts, RowMajor.Below parts (List.replicate order n) → parts.Nodup →
      (exteriorPower order factor).bundleIndex parts =
        .ok (some (Packed.rank (parts.mergeSort (· ≥ ·)), (Packed.sortDescending parts).2)) := by
    intro parts below distinct
    obtain ⟨length, each⟩ := RowMajor.below_replicate_iff.mp below
    have flat := Packed.exteriorFlat_eq fits (Nat.le_of_lt small) length each distinct
    rwa [Packed.sortDescending_eq_mergeSort] at flat
  have numbering : Numbering (n.choose order)
      ((exteriorPower order factor).Canonical (List.replicate order n)) Packed.rank
      (exteriorPower order factor).splitIndex := by
    rw [canonical_exteriorPower]
    exact Packed.exterior_numbering fits (fun _ => size) (Packed.reserve_sizes_iff.mpr short)
  refine .of_numbering numbering ?_ ?_ ?_ ?_
  · intro parts member
    obtain ⟨ordered, distinct⟩ := Packed.pairwise_gt_iff.mp member.2
    have sorted := bundled parts member.1 distinct
    rwa [List.mergeSort_eq_self (· ≥ ·) ordered, Packed.sortDescending_of_pairwise ordered]
      at sorted
  · intro parts _
    exact Packed.exteriorFlat_eq_none_iff
  · intro parts below present
    have distinct : parts.Nodup := not_not.mp present
    refine ⟨?_, _, bundled parts below distinct⟩
    obtain ⟨length, each⟩ := RowMajor.below_replicate_iff.mp below
    have member := Packed.sorted_mem_decreasing length each distinct
    rw [Packed.sortDescending_eq_mergeSort] at member
    rw [canonical_exteriorPower]
    exact member
  · intro flat small parts found
    exact Packed.unpacks_of_exteriorParts fits (fun _ => size) small found

end Packed

section Diagonal

variable {a b : Nat} {left right : Space}

theorem below_pair_iff {parts : List Nat} :
    RowMajor.Below parts [a, b] ↔ ∃ p q, parts = [p, q] ∧ p < a ∧ q < b := by
  match parts with
  | [] | [_] | _ :: _ :: _ :: _ => simp [RowMajor.Below]
  | [p, q] => simp [RowMajor.Below]

theorem diagonal_numbering :
    Numbering (min a b) ((diagonal left right).Canonical [a, b]) (fun parts => parts.headD 0)
      (diagonal left right).splitIndex where
  increasing := by
    intro first ⟨_, value, same⟩ second ⟨_, value', same'⟩ ordered
    subst same same'
    cases ordered with
    | rel smaller => exact smaller
    | cons tail =>
        cases tail with
        | rel smaller => exact smaller
        | cons empty => cases empty
  below := by
    intro parts ⟨below, value, same⟩
    subst same
    exact Nat.lt_min.mpr ⟨below.1, below.2.1⟩
  splits := by
    intro flat small
    obtain ⟨first, second⟩ := Nat.lt_min.mp small
    exact ⟨[flat, flat], ⟨⟨first, second, trivial⟩, flat, rfl⟩, rfl, rfl⟩

theorem indexMaps_diagonal : (diagonal left right).IndexMaps (min a b) [a, b] := by
  refine .of_numbering diagonal_numbering ?_ ?_ ?_ ?_
  · intro parts ⟨_, value, same⟩
    subst same
    exact congrArg Except.ok (if_pos rfl)
  · intro parts below
    obtain ⟨p, q, rfl, _⟩ := below_pair_iff.mp below
    by_cases equal : p = q
    · simp [bundleIndex, Vanishes, equal]
    · simp [bundleIndex, Vanishes, equal]
  · intro parts below present
    obtain ⟨p, q, rfl, _⟩ := below_pair_iff.mp below
    by_cases equal : p = q
    · subst equal
      exact ⟨⟨below, p, rfl⟩, .positive, congrArg Except.ok (if_pos rfl)⟩
    · exact absurd ⟨p, q, rfl, equal⟩ present
  · intro _ _ _ _
    exact trivial

end Diagonal

theorem splitDimensions_of_splitFactors {s : Space} {factors : List Space} {dims : List Nat}
    (splits : s.splitFactors = some factors) (computed : dimensions factors = .ok dims) :
    s.splitDimensions = .ok dims := by
  rw [splitDimensions, splits]
  exact computed

theorem exists_indexMaps_single {s : Space} {d : Nat} (kind : s.IsRowMajor)
    (listed : s.reserveSplitFactors = .ok ()) (whole : s.splitFactors = none)
    (sized : s.dimension = .ok d) : ∃ dims, s.splitDimensions = .ok dims ∧ s.IndexMaps d dims := by
  have split : s.splitDimensions = .ok [d] := by
    simp only [splitDimensions, whole, sized, ok_bind]
    rfl
  have small : [d].prod < Size.bound := by
    rw [List.prod_singleton]
    exact dimension_lt sized
  have maps := indexMaps_rowMajor kind listed split small
  rw [List.prod_singleton] at maps
  exact ⟨[d], split, maps⟩

def IsPower (s : Space) (order : Nat) (factor : Space) : Prop :=
  s = .symmetricPower order factor ∨ s = .exteriorPower order factor

theorem reserve_of_exponent {order : Nat} (small : order < Nat.pow 2 32) :
    Size.reserve order width = .ok () := by
  rw [Size.reserve_eq_ok_iff]
  calc order * width < Nat.pow 2 32 * width := Nat.mul_lt_mul_of_pos_right small (by decide)
    _ < Nat.pow 2 63 := by decide

theorem exists_splitDimensions {s : Space} {d : Nat} (sized : s.dimension = .ok d)
    (exponent : ∀ order factor, s = .tensorPower order factor → order < Nat.pow 2 32) :
    ∃ dims, s.splitDimensions = .ok dims ∧
      ((∀ order factor, s.IsPower order factor → order < Nat.pow 2 60) → s.IndexMaps d dims) := by
  cases s with
  | based v =>
      have kind : (based v).IsRowMajor := trivial
      obtain ⟨dims, split, maps⟩ := exists_indexMaps_single kind rfl rfl sized
      exact ⟨dims, split, fun _ => maps⟩
  | directSum summands =>
      have kind : (directSum summands).IsRowMajor := trivial
      obtain ⟨dims, split, maps⟩ := exists_indexMaps_single kind rfl rfl sized
      exact ⟨dims, split, fun _ => maps⟩
  | tensorProduct factors =>
      rw [dimension] at sized
      obtain ⟨dims, computed, product⟩ := bind_eq_ok_iff.mp sized
      obtain ⟨rfl, small⟩ := RowMajor.product_eq_ok product
      have kind : (tensorProduct factors).IsRowMajor := trivial
      exact ⟨dims, computed, fun _ => indexMaps_rowMajor kind rfl computed small⟩
  | tensorPower order factor =>
      have counted := exponent order factor rfl
      rw [dimension, Nat.mod_eq_of_lt counted] at sized
      obtain ⟨n, computed, power⟩ := bind_eq_ok_iff.mp sized
      obtain ⟨rfl, small⟩ := Size.pow_eq_ok_iff.mp power
      have kind : (tensorPower order factor).IsRowMajor := trivial
      have product : (List.replicate order n).prod = Nat.pow n order := List.prod_replicate order n
      have maps := indexMaps_rowMajor kind (reserve_of_exponent counted) (dimensions_replicate computed)
        (by rwa [product])
      rw [product] at maps
      exact ⟨_, dimensions_replicate computed, fun _ => maps⟩
  | symmetricPower order factor =>
      rw [dimension] at sized
      obtain ⟨n, computed, counted⟩ := bind_eq_ok_iff.mp sized
      exact ⟨_, dimensions_replicate computed,
        fun short => indexMaps_symmetricPower counted (short order factor (Or.inl rfl))⟩
  | exteriorPower order factor =>
      rw [dimension] at sized
      obtain ⟨n, computed, counted⟩ := bind_eq_ok_iff.mp sized
      exact ⟨_, dimensions_replicate computed, fun short =>
        indexMaps_exteriorPower counted (dimension_lt computed) (short order factor (Or.inr rfl))⟩
  | diagonal left right =>
      rw [dimension] at sized
      obtain ⟨a, first, later⟩ := bind_eq_ok_iff.mp sized
      obtain ⟨b, second, smaller⟩ := bind_eq_ok_iff.mp later
      cases smaller
      have pair : dimensions [left, right] = .ok [a, b] :=
        dimensions_eq_ok_iff.mpr (.cons first (.cons second .nil))
      exact ⟨[a, b], pair, fun _ => indexMaps_diagonal⟩

theorem splitIndex_of_long {s factor : Space} {order : Nat} (power : s.IsPower order factor)
    (long : Nat.pow 2 60 ≤ order) (flat : Nat) : s.splitIndex flat = .error .capacity := by
  have full : Size.reserve order 8 = .error .capacity := by
    cases outcome : Size.reserve order 8 with
    | ok done => exact absurd (Packed.reserve_sizes_iff.mp outcome) (Nat.not_lt.mpr long)
    | error fault => rw [(Size.reserve_eq_error outcome).1]
  rcases power with rfl | rfl
  · rw [splitIndex, Packed.symmetricParts, full, error_bind]
  · rw [splitIndex, Packed.exteriorParts, full, error_bind]

/-- The components of a space number its canonical tuples one to one and in lexicographic order, and
no size overflows on the way. Bundling undoes splitting; it takes any other tuple in range to the
component of its canonical order, or to none where the tensors vanish. Only a symmetric or exterior power
of an order so large that no memory holds its tuples has no component that can be split. -/
theorem indexMaps_of_dimension {s : Space} {d : Nat} (sized : s.dimension = .ok d)
    (exponent : ∀ order factor, s = .tensorPower order factor → order < Nat.pow 2 32) :
    ∃ dims, s.splitDimensions = .ok dims ∧
      ((∀ order factor, s.IsPower order factor → order < Nat.pow 2 60) → s.IndexMaps d dims) ∧
      ∀ order factor, s.IsPower order factor → Nat.pow 2 60 ≤ order →
        ∀ flat, s.splitIndex flat = .error .capacity := by
  obtain ⟨dims, split, maps⟩ := exists_splitDimensions sized exponent
  exact ⟨dims, split, maps, fun _ _ power long flat => splitIndex_of_long power long flat⟩

theorem indexMaps_of_dimension_cube :
    (symmetricPower 3 (standard 4 "V")).dimension = .ok 20 ∧
      (symmetricPower 3 (standard 4 "V")).IndexMaps 20 [4, 4, 4] := by
  have sized : (symmetricPower 3 (standard 4 "V")).dimension = .ok 20 := rfl
  obtain ⟨dims, split, maps, _⟩ := indexMaps_of_dimension sized (by
    intro order factor same
    cases same)
  have same : [4, 4, 4] = dims := Except.ok.inj split
  rw [same]
  refine ⟨sized, maps ?_⟩
  rintro order factor (power | power)
  · cases power
    decide
  · cases power

/-- All zeros are the one tuple of this power, and it is too long to be held. -/
theorem splitIndex_zero_capacity :
    ∃ s factor : Space, s = .symmetricPower (Nat.pow 2 60) factor ∧ factor.dimension = .ok 1 ∧
      s.dimension = .ok 1 ∧ s.splitIndex 0 = .error .capacity :=
  ⟨_, .standard 1 "X", rfl, rfl, by decide +kernel, by decide +kernel⟩

end IndexNotation.Space
