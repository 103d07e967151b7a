import IndexNotation.Proofs.Expression.Leaf
import IndexNotation.Proofs.Expression.Product
import Mathlib.Algebra.BigOperators.Group.List.Lemmas
/-!
A product of many operands as one flat sum: by induction on the brackets, every node sums its own symbols
over the sums of its two sides, and the three sums become one.
-/
namespace IndexNotation

open IndexList

variable {α R : Type} [Scalar α] [CommRing R]

def flatTerm (reading : Reading α R) (memory : Memory α) (caches : Caches α)
    (es : List (Expression α)) (values : Symbol → Nat) : R :=
  (es.map fun e => reading.of (e.valueAt memory caches values)).prod

theorem flatTerm_append (reading : Reading α R) (memory : Memory α) (caches : Caches α)
    (es fs : List (Expression α)) (values : Symbol → Nat) :
    flatTerm reading memory caches (es ++ fs) values =
      flatTerm reading memory caches es values * flatTerm reading memory caches fs values := by
  rw [flatTerm, List.map_append, List.prod_append]
  rfl

theorem dependsOn_flatTerm (reading : Reading α R) (memory : Memory α) (caches : Caches α)
    (es : List (Expression α)) :
    DependsOn (flatTerm reading memory caches es) {s | 0 < holders es s} := by
  intro first second same
  apply congrArg List.prod
  apply List.map_congr_left
  intro e member
  apply congrArg reading.of
  apply Expression.valueAt_congr
  intro s isFree
  exact same s (holders_pos member isFree)

section Mul

variable (reading : Reading α R) {memory : Memory α} {caches : Caches α}
  {es fs : List (Expression α)} {left right e : Expression α} {extent : Symbol → Nat}
  {base : Symbol → Nat}

omit reading in
theorem IsProduct.valueAt_eq (first : IsProduct es left) (second : IsProduct fs right)
    (sized : Sized extent (es ++ fs)) (accepted : left.mul right = .ok e) :
    e.valueAt memory caches base =
      (RowMajor.tuples ((Expression.contracted left right).map extent)).foldlM
        (fun acc summed => do
          Scalar.add acc (← Expression.term memory caches left right
            ((Expression.contracted left right).assign summed base)))
        Scalar.zero := by
  obtain ⟨_, _, summedDims, dims, rfl⟩ := Expression.mul_eq_ok_iff.mp accepted
  have extents := first.summedDims_eq second sized dims
  have length : summedDims.length = (Expression.contracted left right).length := by
    rw [extents, List.length_map]
  rw [Expression.valueAt_mul first.separated.free length, extents]

theorem IsProduct.val_mul (first : IsProduct es left) (second : IsProduct fs right)
    (sized : Sized extent (es ++ fs)) (accepted : left.mul right = .ok e) {y : α}
    (computed : e.valueAt memory caches base = .ok y) :
    (∀ now, Ranges extent (Expression.contracted left right) base now →
      (∃ a, left.valueAt memory caches now = .ok a) ∧
        ∃ b, right.valueAt memory caches now = .ok b) ∧
    reading.val y = sumOver extent (Expression.contracted left right)
      (fun now => reading.of (left.valueAt memory caches now) *
        reading.of (right.valueAt memory caches now)) base := by
  have distinct : (Expression.contracted left right).Nodup := first.separated.free.filter _
  rw [first.valueAt_eq second sized accepted] at computed
  obtain ⟨present, total⟩ := reading.val_foldlM_add computed
  have terms : ∀ now, Ranges extent (Expression.contracted left right) base now →
      ∃ x, Expression.term memory caches left right now = .ok x := by
    intro now ranges
    obtain ⟨same, below⟩ := eq_assign_of_ranges distinct ranges
    rw [same]
    exact present _ (RowMajor.mem_tuples.mpr below)
  constructor
  · intro now ranges
    obtain ⟨x, product⟩ := terms now ranges
    obtain ⟨onLeft, onRight, _⟩ := reading.of_mul product
    exact ⟨onLeft, onRight⟩
  · have sum : reading.val y = sumOver extent (Expression.contracted left right)
        (fun now => reading.of (Expression.term memory caches left right now)) base := by
      rw [total, reading.val_zero, zero_add]
      rfl
    rw [sum]
    apply sumOver_congr distinct
    intro now ranges
    obtain ⟨x, product⟩ := terms now ranges
    obtain ⟨_, _, same⟩ := reading.of_mul product
    rw [product]
    exact same

omit reading in
/-- An operand is asked at the values that the whole assignment gives it, also where the symbols of
other operands have kept the values they had before. -/
theorem valueAt_moved {contracted shared : IndexList} {now : Symbol → Nat}
    (ranges : Ranges extent shared base now)
    (held : ∀ s, 0 < holders es s → s ∈ shared → s ∈ sharedSymbols es ∨ s ∈ contracted)
    {operand : Expression α} (member : operand ∈ es) :
    operand.valueAt memory caches now = operand.valueAt memory caches
      (moved (sharedSymbols es) now (moved contracted now base)) := by
  apply Expression.valueAt_congr
  intro s isFree
  by_cases own : s ∈ sharedSymbols es
  · rw [moved, if_pos own]
  · rw [moved, if_neg own]
    by_cases here : s ∈ contracted
    · rw [moved, if_pos here]
    · rw [moved, if_neg here]
      apply ranges.1 s
      intro present
      rcases held s (holders_pos member isFree) present with isOwn | isHere
      · exact own isOwn
      · exact here isHere

/-- The values at which an operand is asked: those of `base`, and any in range for what is summed. -/
def Reaches (extent : Symbol → Nat) (shared : IndexList) (base : Symbol → Nat)
    (operand : Expression α) (now : Symbol → Nat) : Prop :=
  ∀ s ∈ operand.freeSymbols, if s ∈ shared then now s < extent s else now s = base s

omit [Scalar α] reading in
theorem Reaches.of_side {contracted shared : IndexList} {middle now : Symbol → Nat}
    {operand : Expression α} (reaches : Reaches extent (sharedSymbols es) middle operand now)
    (ranges : Ranges extent contracted base middle) (member : operand ∈ es)
    (inside : ∀ s, s ∈ contracted ∨ s ∈ sharedSymbols es → s ∈ shared)
    (held : ∀ s, 0 < holders es s → s ∈ shared → s ∈ sharedSymbols es ∨ s ∈ contracted) :
    Reaches extent shared base operand now := by
  intro s isFree
  have asked := reaches s isFree
  by_cases own : s ∈ sharedSymbols es
  · rw [if_pos own] at asked
    rwa [if_pos (inside s (Or.inr own))]
  · rw [if_neg own] at asked
    by_cases here : s ∈ contracted
    · rw [if_pos (inside s (Or.inl here)), asked]
      exact ranges.2 s here
    · have absent : s ∉ shared := by
        intro present
        rcases held s (holders_pos member isFree) present with isOwn | isHere
        · exact own isOwn
        · exact here isHere
      rw [if_neg absent, asked]
      exact ranges.1 s here

/-- The component of `e` is the flat sum of those of `es`, all of which are there when it is. When it
is not, one of theirs is not, or the scalars fail. -/
structure IsFlatSum (reading : Reading α R) (memory : Memory α) (caches : Caches α)
    (extent : Symbol → Nat) (es : List (Expression α)) (e : Expression α) : Prop where
  defined : ∀ {base y}, e.valueAt memory caches base = .ok y →
    ∀ {now}, Ranges extent (sharedSymbols es) base now →
      ∀ operand ∈ es, ∃ x, operand.valueAt memory caches now = .ok x
  total : ∀ {base y}, e.valueAt memory caches base = .ok y →
    reading.val y = sumOver extent (sharedSymbols es) (flatTerm reading memory caches es) base
  failed : ∀ {base fault}, e.valueAt memory caches base = .error fault →
    (∃ operand ∈ es, ∃ now, Reaches extent (sharedSymbols es) base operand now ∧
      operand.valueAt memory caches now = .error fault) ∨ ArithmeticFails α fault

theorem isFlatSum_operand (e : Expression α) : IsFlatSum reading memory caches extent [e] e := by
  constructor
  · intro base y computed now ranges operand member
    rw [sharedSymbols_singleton] at ranges
    have same : now = base := funext fun s => ranges.1 s List.not_mem_nil
    rw [List.mem_singleton.mp member, same]
    exact ⟨y, computed⟩
  · intro base y computed
    rw [sharedSymbols_singleton, sumOver_nil, flatTerm, List.map_singleton, List.prod_singleton,
      computed]
    rfl
  · intro base fault failed
    refine Or.inl ⟨e, List.mem_cons_self, base, fun s _ => ?_, failed⟩
    rw [sharedSymbols_singleton, if_neg List.not_mem_nil]

theorem IsProduct.mul_eq_error (first : IsProduct es left) (second : IsProduct fs right)
    (sized : Sized extent (es ++ fs)) (accepted : left.mul right = .ok e) {fault : Fault}
    (failed : e.valueAt memory caches base = .error fault) :
    (∃ now, Ranges extent (Expression.contracted left right) base now ∧
      (left.valueAt memory caches now = .error fault ∨
        right.valueAt memory caches now = .error fault)) ∨ ArithmeticFails α fault := by
  have distinct : (Expression.contracted left right).Nodup := first.separated.free.filter _
  rw [first.valueAt_eq second sized accepted] at failed
  rcases foldlM_add_eq_error failed with ⟨summed, present, term⟩ | arithmetic
  · have ranges := ranges_assign base distinct (RowMajor.mem_tuples.mp present)
    rcases bind_eq_error_iff.mp term with onLeft | ⟨a, _, later⟩
    · exact Or.inl ⟨_, ranges, Or.inl onLeft⟩
    · rcases bind_eq_error_iff.mp later with onRight | ⟨b, _, product⟩
      · exact Or.inl ⟨_, ranges, Or.inr onRight⟩
      · exact Or.inr ⟨a, b, Or.inr product⟩
  · exact Or.inr arithmetic

namespace IsFlatSum

section Sides

variable {reading} (flatLeft : IsFlatSum reading memory caches extent es left)
  (flatRight : IsFlatSum reading memory caches extent fs right) (first : IsProduct es left)
  (second : IsProduct fs right) (sized : Sized extent (es ++ fs))
  (accepted : left.mul right = .ok e)

include flatLeft flatRight first second sized accepted

theorem defined_mul {y : α} (computed : e.valueAt memory caches base = .ok y)
    {now : Symbol → Nat} (ranges : Ranges extent (sharedSymbols (es ++ fs)) base now) :
    ∀ operand ∈ es ++ fs, ∃ x, operand.valueAt memory caches now = .ok x := by
  have shared : ∀ s, _ := fun s => first.mem_sharedSymbols_append second accepted (s := s)
  have middle := ranges_moved base fun s present => ranges.2 s ((shared s).mpr (Or.inl present))
  obtain ⟨⟨a, atLeft⟩, ⟨b, atRight⟩⟩ :=
    (first.val_mul reading second sized accepted computed).1 _ middle
  intro operand member
  rcases List.mem_append.mp member with there | there
  · rw [valueAt_moved ranges (fun s => first.held_left second accepted) there]
    apply flatLeft.defined atLeft _ operand there
    apply ranges_moved
    intro s present
    exact ranges.2 s ((shared s).mpr (Or.inr (Or.inl present)))
  · rw [valueAt_moved ranges (fun s => first.held_right second accepted) there]
    apply flatRight.defined atRight _ operand there
    apply ranges_moved
    intro s present
    exact ranges.2 s ((shared s).mpr (Or.inr (Or.inr present)))

/-- The sums of the two sides do not reach each other, so that the sum over both is one sum. -/
theorem total_mul {y : α} (computed : e.valueAt memory caches base = .ok y) :
    reading.val y =
      sumOver extent (sharedSymbols (es ++ fs)) (flatTerm reading memory caches (es ++ fs)) base := by
  have zero := first.holders_eq_zero second accepted
  obtain ⟨sides, total⟩ := first.val_mul reading second sized accepted computed
  have distinct : (Expression.contracted left right).Nodup := first.separated.free.filter _
  have apartLeft : ∀ s ∈ sharedSymbols es, s ∉ {s | 0 < holders fs s} := by
    intro s own held
    have none := (zero s).1 (mem_sharedSymbols.mp own)
    exact Nat.lt_irrefl 0 (none ▸ held)
  have apartRight : ∀ s ∈ sharedSymbols fs, s ∉ {s | 0 < holders es s} := by
    intro s own held
    have none := (zero s).2 (mem_sharedSymbols.mp own)
    exact Nat.lt_irrefl 0 (none ▸ held)
  calc reading.val y
      = sumOver extent (Expression.contracted left right)
          (fun now => reading.of (left.valueAt memory caches now) *
            reading.of (right.valueAt memory caches now)) base := total
    _ = sumOver extent (Expression.contracted left right)
          (sumOver extent (sharedSymbols es ++ sharedSymbols fs) fun now =>
            flatTerm reading memory caches es now * flatTerm reading memory caches fs now)
          base := by
        apply sumOver_congr distinct
        intro now ranges
        obtain ⟨⟨a, atLeft⟩, ⟨b, atRight⟩⟩ := sides now ranges
        rw [← sumOver_mul_sumOver (dependsOn_flatTerm reading memory caches es)
          (dependsOn_flatTerm reading memory caches fs) apartLeft apartRight,
          ← flatLeft.total atLeft, ← flatRight.total atRight, atLeft, atRight]
        rfl
    _ = sumOver extent (Expression.contracted left right ++ (sharedSymbols es ++ sharedSymbols fs))
          (flatTerm reading memory caches (es ++ fs)) base := by
        rw [sumOver_append]
        rw [funext (flatTerm_append reading memory caches es fs)]
    _ = sumOver extent (sharedSymbols (es ++ fs)) (flatTerm reading memory caches (es ++ fs))
          base := by
        have permuted := first.sharedSymbols_perm second accepted
        exact sumOver_perm permuted (permuted.nodup_iff.mpr (nodup_sharedSymbols _)) _ _

theorem failed_mul {fault : Fault} (failed : e.valueAt memory caches base = .error fault) :
    (∃ operand ∈ es ++ fs, ∃ now, Reaches extent (sharedSymbols (es ++ fs)) base operand now ∧
      operand.valueAt memory caches now = .error fault) ∨ ArithmeticFails α fault := by
  have shared : ∀ s, _ := fun s => first.mem_sharedSymbols_append second accepted (s := s)
  rcases first.mul_eq_error second sized accepted failed with ⟨middle, ranges, side⟩ | arithmetic
  · rcases side with onLeft | onRight
    · rcases flatLeft.failed onLeft with ⟨operand, member, now, reaches, fails⟩ | arithmetic
      · have reached : Reaches extent (sharedSymbols (es ++ fs)) base operand now := by
          apply reaches.of_side ranges member _ fun s => first.held_left second accepted
          intro s either
          exact (shared s).mpr (either.imp_right Or.inl)
        exact Or.inl ⟨operand, List.mem_append_left _ member, now, reached, fails⟩
      · exact Or.inr arithmetic
    · rcases flatRight.failed onRight with ⟨operand, member, now, reaches, fails⟩ | arithmetic
      · have reached : Reaches extent (sharedSymbols (es ++ fs)) base operand now := by
          apply reaches.of_side ranges member _ fun s => first.held_right second accepted
          intro s either
          exact (shared s).mpr (either.imp_right Or.inr)
        exact Or.inl ⟨operand, List.mem_append_right _ member, now, reached, fails⟩
      · exact Or.inr arithmetic
  · exact Or.inr arithmetic

theorem mul : IsFlatSum reading memory caches extent (es ++ fs) e where
  defined := flatLeft.defined_mul flatRight first second sized accepted
  total := flatLeft.total_mul flatRight first second sized accepted
  failed := flatLeft.failed_mul flatRight first second sized accepted

end Sides

end IsFlatSum

theorem isFlatSum_of_build {tree : ProductTree α} {result : Expression α}
    (built : tree.build = .ok result) (separated : ∀ e ∈ tree.operands, e.Separated)
    (sized : Sized extent tree.operands) :
    IsFlatSum reading memory caches extent tree.operands result := by
  induction tree generalizing result with
  | operand e =>
      cases built
      exact isFlatSum_operand reading e
  | product left right ihLeft ihRight =>
      obtain ⟨first, builtLeft, later⟩ := bind_eq_ok_iff.mp built
      obtain ⟨second, builtRight, accepted⟩ := bind_eq_ok_iff.mp later
      have separatedLeft : ∀ e ∈ left.operands, e.Separated :=
        fun e member => separated e (List.mem_append_left _ member)
      have separatedRight : ∀ e ∈ right.operands, e.Separated :=
        fun e member => separated e (List.mem_append_right _ member)
      have onLeft := ProductTree.isProduct_of_build builtLeft separatedLeft
      have onRight := ProductTree.isProduct_of_build builtRight separatedRight
      have zero := onLeft.holders_eq_zero onRight accepted
      have flatLeft := ihLeft builtLeft separatedLeft (sized.of_append_left fun s => (zero s).1)
      have flatRight := ihRight builtRight separatedRight (sized.of_append_right fun s => (zero s).2)
      exact flatLeft.mul flatRight onLeft onRight sized accepted

end Mul

def Expression.outcomeAt (memory : Memory α) (scratch : Scratch α) (e : Expression α)
    (values : Symbol → Nat) : Except Fault α :=
  (e.component (e.freeSymbols.map values) memory scratch).1

/-- The sum, over all values of the symbols that are free in exactly two of the expressions, of the
product of their components. -/
def flatSum (reading : Reading α R) (memory : Memory α) (scratch : Scratch α)
    (extent : Symbol → Nat) (es : List (Expression α)) (base : Symbol → Nat) : R :=
  sumOver extent (sharedSymbols es)
    (fun values => (es.map fun e => reading.of (e.outcomeAt memory scratch values)).prod) base

theorem outcomeAt_eq_valueAt {es : List (Expression α)} (apart : CachesApart es)
    {e : Expression α} (member : e ∈ es) (memory : Memory α) (scratch : Scratch α)
    (values : Symbol → Nat) :
    e.outcomeAt memory scratch values = e.valueAt memory scratch.caches values :=
  component_run apart (fun _ inside => List.mem_flatMap.mpr ⟨e, member, inside⟩) _ memory scratch

theorem flatSum_eq {es : List (Expression α)} (apart : CachesApart es) (reading : Reading α R)
    (memory : Memory α) (scratch : Scratch α) (extent base : Symbol → Nat) :
    flatSum reading memory scratch extent es base =
      sumOver extent (sharedSymbols es) (flatTerm reading memory scratch.caches es) base := by
  apply congrArg (sumOver extent (sharedSymbols es) · base)
  funext values
  apply congrArg List.prod
  apply List.map_congr_left
  intro e member
  rw [outcomeAt_eq_valueAt apart member]

theorem flatSum_perm {es fs : List (Expression α)} (permuted : es.Perm fs)
    (reading : Reading α R) (memory : Memory α) (scratch : Scratch α) (extent base : Symbol → Nat) :
    flatSum reading memory scratch extent es base =
      flatSum reading memory scratch extent fs base := by
  rw [flatSum, sumOver_perm (sharedSymbols_perm permuted) (nodup_sharedSymbols es)]
  apply congrArg (sumOver extent (sharedSymbols fs) · base)
  funext values
  exact (permuted.map _).prod_eq

theorem val_build_eq_flatSum {tree : ProductTree α} {result : Expression α}
    (built : tree.build = .ok result) (separated : ∀ e ∈ tree.operands, e.Separated)
    (apart : CachesApart tree.operands) {extent : Symbol → Nat}
    (sized : Sized extent tree.operands) (reading : Reading α R) {memory : Memory α}
    {scratch : Scratch α} {base : Symbol → Nat} {y : α}
    (computed : result.outcomeAt memory scratch base = .ok y) :
    reading.val y = flatSum reading memory scratch extent tree.operands base := by
  have evaluated := component_run apart
    (fun node inside => ProductTree.cacheNodes_of_build built ▸ inside)
    (result.freeSymbols.map base) memory scratch
  rw [flatSum_eq apart]
  exact (isFlatSum_of_build reading built separated sized).total (evaluated.symm.trans computed)

/-- However the operands are bracketed, a component of their product is the flat sum over all shared
symbols at once, and another order or bracketing of the same operands gives no other component. -/
theorem outcomeAt_build_eq_flatSum {tree : ProductTree α} {result : Expression α}
    (built : tree.build = .ok result) (separated : ∀ e ∈ tree.operands, e.Separated)
    (apart : CachesApart tree.operands) (reading : Reading α R) (memory : Memory α)
    (scratch : Scratch α) :
    ∃ extent, Sized extent tree.operands ∧ ∀ base : Symbol → Nat,
      (∀ y, result.outcomeAt memory scratch base = .ok y →
        (∀ now, Ranges extent (sharedSymbols tree.operands) base now →
          ∀ e ∈ tree.operands, ∃ x, e.outcomeAt memory scratch now = .ok x) ∧
        reading.val y = flatSum reading memory scratch extent tree.operands base) ∧
      (∀ fault, result.outcomeAt memory scratch base = .error fault →
        (∃ e ∈ tree.operands, ∃ now, Reaches extent (sharedSymbols tree.operands) base e now ∧
          e.outcomeAt memory scratch now = .error fault) ∨ ArithmeticFails α fault) ∧
      ∀ (other : ProductTree α) (otherResult : Expression α), other.build = .ok otherResult →
        other.operands.Perm tree.operands → ∀ y y', result.outcomeAt memory scratch base = .ok y →
          otherResult.outcomeAt memory scratch base = .ok y' → reading.val y' = reading.val y := by
  have product := ProductTree.isProduct_of_build built separated
  obtain ⟨extent, sized⟩ := product.exists_sized
  have flat : IsFlatSum reading memory scratch.caches extent tree.operands result :=
    isFlatSum_of_build reading built separated sized
  have evaluated : ∀ base,
      result.outcomeAt memory scratch base = result.valueAt memory scratch.caches base :=
    fun base => component_run apart
      (fun node inside => ProductTree.cacheNodes_of_build built ▸ inside) _ memory scratch
  refine ⟨extent, sized, fun base => ⟨?_, ?_, ?_⟩⟩
  · intro y computed
    refine ⟨fun now ranges e member => ?_,
      val_build_eq_flatSum built separated apart sized reading computed⟩
    rw [evaluated] at computed
    rw [outcomeAt_eq_valueAt apart member]
    exact flat.defined computed ranges e member
  · intro fault failed
    rw [evaluated] at failed
    refine (flat.failed failed).imp_left fun ⟨e, member, now, reaches, fails⟩ => ?_
    refine ⟨e, member, now, reaches, ?_⟩
    rwa [outcomeAt_eq_valueAt apart member]
  · intro other otherResult otherBuilt permuted y y' computed otherComputed
    have otherSeparated : ∀ e ∈ other.operands, e.Separated :=
      fun e member => separated e (permuted.mem_iff.mp member)
    rw [val_build_eq_flatSum built separated apart sized reading computed,
      val_build_eq_flatSum otherBuilt otherSeparated (apart.mono permuted.subset)
        (sized.perm permuted.symm) reading otherComputed]
    exact flatSum_perm permuted reading memory scratch extent base

theorem outcomeAt_build_eq_flatSum_pairing :
    ∃ row column result : Expression (Bounded .signed32),
      (ProductTree.product (.operand row) (.operand column)).build = .ok result ∧
      result.outcomeAt .empty ⟨#[], #[]⟩ (fun _ => 0) = .ok ⟨31, by decide⟩ ∧
      ∃ extent, Sized extent [row, column] ∧
        flatSum (Bounded.reading .signed32) .empty ⟨#[], #[]⟩ extent [row, column] (fun _ => 0) = 31 := by
  let plane : Space := .standard 2 "V"
  let row : Tensor (Bounded .signed32) :=
    ⟨plane, .generated (.ofFunction "row" 2 fun index => Bounded.ofInt (index + 2))⟩
  let column : Tensor (Bounded .signed32) :=
    ⟨plane.dual, .generated (.ofFunction "column" 2 fun index => Bounded.ofInt (2 * index + 5))⟩
  obtain ⟨first, second, result, named, named', built, value⟩ : ∃ first second result,
      Expression.index row [.letter 'i'] = .ok first ∧
      Expression.index column [.letter 'i'] = .ok second ∧
      (ProductTree.product (.operand first) (.operand second)).build = .ok result ∧
      result.outcomeAt .empty ⟨#[], #[]⟩ (fun _ => 0) = .ok ⟨31, by decide⟩ :=
    ⟨_, _, _, rfl, rfl, rfl, rfl⟩
  have separated : ∀ e ∈ [first, second], e.Separated := by
    intro e member
    rcases List.mem_cons.mp member with same | member
    · rw [same]
      exact (Expression.wellIndexed_index named).separated
    · rw [List.mem_singleton.mp member]
      exact (Expression.wellIndexed_index named').separated
  have apart : CachesApart [first, second] := by
    apply cachesApart_of_nil
    simp [Expression.cacheNodes_index named, Expression.cacheNodes_index named']
  obtain ⟨extent, sized, components⟩ := outcomeAt_build_eq_flatSum built separated apart
    (Bounded.reading .signed32) .empty ⟨#[], #[]⟩
  have total := ((components fun _ => 0).1 _ value).2
  exact ⟨first, second, result, built, value, extent, sized, total.symm⟩

end IndexNotation
