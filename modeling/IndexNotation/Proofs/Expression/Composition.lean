import IndexNotation.Proofs.Expression.Product
/-!
When a product of many operands is accepted. Each node looks at its two children only, yet together the
nodes of any bracketing ask for the same: that the operands compose in pairs, and that no symbol is free
in three of them.
-/
namespace IndexNotation

variable {α : Type}

namespace Expression

def SumsApart (left right : Expression α) : Prop :=
  (∀ s ∈ left.used, s ∉ right.symbols) ∧ ∀ s ∈ right.used, s ∉ left.symbols

def Pairs (left right : Expression α) : Prop :=
  ∀ index ∈ left.free, ∀ other ∈ right.free, index.symbol = other.symbol →
    index.factor.pairsWith other.factor

def Computed (e : Expression α) : Prop :=
  ∀ index ∈ e.free, ∃ d, index.factor.dimension = .ok d

theorem SumsApart.symm {left right : Expression α} (apart : SumsApart left right) :
    SumsApart right left := ⟨apart.2, apart.1⟩

theorem Pairs.symm {left right : Expression α} (pairs : Pairs left right) : Pairs right left := by
  intro index present other present' same
  exact Space.pairsWith_comm.mp (pairs other present' index present same.symm)

theorem mem_symbols {e : Expression α} {s : Symbol} : s ∈ e.symbols ↔ s ∈ e.freeSymbols ∨ s ∈ e.used :=
  List.mem_append

theorem checkDisjoint_eq_ok_iff_sumsApart {left right : Expression α} :
    checkDisjoint left right = .ok () ↔ SumsApart left right := by
  rw [checkDisjoint_eq_ok_iff, SumsApart]
  simp only [mem_symbols, not_or]
  constructor
  · intro ⟨leftFree, rightFree, bothUsed⟩
    constructor
    · intro s summed
      exact ⟨fun isFree => rightFree s isFree summed, bothUsed s summed⟩
    · intro s summed
      exact ⟨fun isFree => leftFree s isFree summed, fun also => bothUsed s also summed⟩
  · intro ⟨leftUsed, rightUsed⟩
    refine ⟨?_, ?_, fun s summed => (leftUsed s summed).2⟩
    · exact fun s isFree summed => (rightUsed s summed).1 isFree
    · exact fun s isFree summed => (leftUsed s summed).1 isFree

end Expression

theorem checkPairing_cases {s : Symbol} {left right : Space} {m n : Nat} (first : left.dimension = .ok m)
    (second : right.dimension = .ok n) :
    left.pairsWith right ∧ checkPairing s left right = .ok () ∨
      ¬ left.pairsWith right ∧ ∃ reason, checkPairing s left right = .error (.refused reason) := by
  rw [checkPairing, first, ok_bind, second, ok_bind]
  by_cases pairs : left.pairsWith right
  · have same : m = n := by
      have both := Space.dimension_eq_of_pairsWith pairs
      rw [first, second] at both
      exact Except.ok.inj both
    left
    simp [same, pairs]
  · right
    refine ⟨pairs, ?_⟩
    by_cases same : m = n
    · exact ⟨.notNaturalPairing s left right, by simp [same, pairs, refuse]⟩
    · exact ⟨.dimensionMismatch s m n, by simp [same, refuse]⟩

theorem pairsWith_of_checkPairing {s : Symbol} {left right : Space} (accepted : checkPairing s left right = .ok ()) :
    left.pairsWith right := by
  obtain ⟨d, first, second⟩ := checkPairing_eq_ok accepted
  rcases checkPairing_cases (s := s) first second with ⟨pairs, _⟩ | ⟨_, reason, refused⟩
  · exact pairs
  · rw [accepted] at refused
    cases refused

theorem FreeIndex.find?_symbol {free : List FreeIndex} {other : FreeIndex} {s : Symbol}
    (distinct : (symbols free).Nodup) (member : other ∈ free) (same : other.symbol = s) :
    free.find? (·.symbol = s) = some other := by
  cases found : free.find? (·.symbol = s) with
  | none =>
      have absent := List.find?_eq_none.mp found other member
      simp [same] at absent
  | some first =>
      have names : first.symbol = s := by simpa using List.find?_some found
      rw [eq_of_symbol_eq distinct (List.mem_of_find?_eq_some found) member (names.trans same.symm)]

namespace Expression

theorem checkContraction_cases {right : List FreeIndex} {index : FreeIndex}
    (distinct : (FreeIndex.symbols right).Nodup) (sized : ∃ d, index.factor.dimension = .ok d)
    (sizedRight : ∀ other ∈ right, ∃ d, other.factor.dimension = .ok d) :
    (∀ other ∈ right, index.symbol = other.symbol → index.factor.pairsWith other.factor) ∧
        checkContraction right index = .ok () ∨
      (∃ other ∈ right, index.symbol = other.symbol ∧ ¬ index.factor.pairsWith other.factor) ∧
        ∃ reason, checkContraction right index = .error (.refused reason) := by
  by_cases shared : ∃ other ∈ right, index.symbol = other.symbol
  · rcases shared with ⟨other, member, same⟩
    have found := FreeIndex.find?_symbol distinct member same.symm
    rcases sized with ⟨m, first⟩
    rcases sizedRight other member with ⟨n, second⟩
    rw [checkContraction, found]
    rcases checkPairing_cases (s := index.symbol) first second with ⟨pairs, accepted⟩ | ⟨apart, refused⟩
    · refine Or.inl ⟨fun other' member' same' => ?_, accepted⟩
      rwa [FreeIndex.eq_of_symbol_eq distinct member' member (same'.symm.trans same)]
    · exact Or.inr ⟨⟨other, member, same, apart⟩, refused⟩
  · left
    constructor
    · exact fun other member same => absurd ⟨other, member, same⟩ shared
    · have absent : right.find? (·.symbol = index.symbol) = none := by
        rw [List.find?_eq_none]
        intro other member same
        exact shared ⟨other, member, (of_decide_eq_true same).symm⟩
      rw [checkContraction, absent]

theorem checkDisjoint_eq_error {left right : Expression α} {fault : Fault}
    (failed : checkDisjoint left right = .error fault) : ∃ reason, fault = .refused reason := by
  unfold checkDisjoint at failed
  cases leftFree : left.freeSymbols.find? right.used.contains with
  | some s =>
      rw [leftFree] at failed
      cases failed
      exact ⟨_, rfl⟩
  | none =>
      cases rightFree : right.freeSymbols.find? left.used.contains with
      | some s =>
          rw [leftFree, rightFree] at failed
          cases failed
          exact ⟨_, rfl⟩
      | none =>
          cases bothUsed : left.used.find? right.used.contains with
          | some s =>
              rw [leftFree, rightFree, bothUsed] at failed
              cases failed
              exact ⟨_, rfl⟩
          | none =>
              rw [leftFree, rightFree, bothUsed] at failed
              cases failed

section Node

variable {left right : Expression α} (distinct : right.freeSymbols.Nodup) (sizedLeft : left.Computed)
  (sizedRight : right.Computed)

omit right in
include sizedLeft in
theorem exists_dimensions_shared (right : Expression α) :
    ∃ dims, FreeIndex.dimensions (shared left right) = .ok dims := by
  apply Space.exists_dimensions
  intro factor member
  obtain ⟨index, present, rfl⟩ := List.mem_map.mp member
  exact sizedLeft index (List.mem_filter.mp present).1

include distinct sizedLeft sizedRight

/-- One node accepts its children when they compose. -/
theorem exists_mul_iff : (∃ e, left.mul right = .ok e) ↔ SumsApart left right ∧ Pairs left right := by
  have each := fun index (present : index ∈ left.free) =>
    checkContraction_cases distinct (sizedLeft index present) sizedRight
  constructor
  · intro ⟨e, accepted⟩
    obtain ⟨disjoint, checked, _⟩ := mul_eq_ok_iff.mp accepted
    refine ⟨checkDisjoint_eq_ok_iff_sumsApart.mp disjoint, fun index present => ?_⟩
    rcases each index present with ⟨pairs, _⟩ | ⟨_, reason, refused⟩
    · exact pairs
    · rw [checked index present] at refused
      cases refused
  · intro ⟨apart, pairs⟩
    rcases exists_dimensions_shared sizedLeft right with ⟨dims, computed⟩
    refine ⟨_, mul_eq_ok_iff.mpr ⟨checkDisjoint_eq_ok_iff_sumsApart.mpr apart, ?_, dims, computed, rfl⟩⟩
    intro index present
    rcases each index present with ⟨_, accepted⟩ | ⟨⟨other, member, same, unpaired⟩, _⟩
    · exact accepted
    · exact absurd (pairs index present other member same) unpaired

theorem mul_eq_error {fault : Fault} (failed : left.mul right = .error fault) :
    ∃ reason, fault = .refused reason := by
  rw [mul] at failed
  rcases bind_eq_error_iff.mp failed with disjoint | ⟨_, _, later⟩
  · exact checkDisjoint_eq_error disjoint
  · rcases bind_eq_error_iff.mp later with checked | ⟨_, _, rest⟩
    · obtain ⟨index, present, fails⟩ := forM_eq_error checked
      rcases checkContraction_cases distinct (sizedLeft index present) sizedRight with
        ⟨_, accepted⟩ | ⟨_, reason, refused⟩
      · rw [accepted] at fails
        cases fails
      · rw [refused] at fails
        cases fails
        exact ⟨reason, rfl⟩
    · rcases exists_dimensions_shared sizedLeft right with ⟨dims, computed⟩
      rw [computed] at rest
      cases rest

end Node

end Expression

theorem exists_of_holders_pos {es : List (Expression α)} {s : Symbol} (held : 0 < holders es s) :
    ∃ e ∈ es, s ∈ e.freeSymbols := by
  rcases List.countP_pos_iff.mp held with ⟨e, member, contains⟩
  exact ⟨e, member, List.contains_iff_mem.mp contains⟩

/-- What the operands of a product must satisfy, in whatever order. -/
structure Composable (es : List (Expression α)) : Prop where
  apart : es.Pairwise Expression.SumsApart
  atMostTwice : ∀ s, holders es s ≤ 2
  pairs : es.Pairwise Expression.Pairs

theorem Composable.perm {es fs : List (Expression α)} (composable : Composable es)
    (permuted : es.Perm fs) : Composable fs where
  apart := (permuted.pairwise_iff Expression.SumsApart.symm).mp composable.apart
  atMostTwice s := holders_perm permuted s ▸ composable.atMostTwice s
  pairs := (permuted.pairwise_iff Expression.Pairs.symm).mp composable.pairs

theorem composable_singleton (e : Expression α) : Composable [e] where
  apart := List.pairwise_singleton _ e
  atMostTwice s := by
    rw [holders_singleton]
    split <;> omega
  pairs := List.pairwise_singleton _ e

theorem Composable.of_append_left {es fs : List (Expression α)} (composable : Composable (es ++ fs)) :
    Composable es where
  apart := (List.pairwise_append.mp composable.apart).1
  atMostTwice s := by
    have few := composable.atMostTwice s
    rw [holders_append] at few
    omega
  pairs := (List.pairwise_append.mp composable.pairs).1

theorem Composable.of_append_right {es fs : List (Expression α)} (composable : Composable (es ++ fs)) :
    Composable fs :=
  (composable.perm List.perm_append_comm).of_append_left

/-- The product of the operands `es`, with its free indices in their order. -/
structure Joined (es : List (Expression α)) (e : Expression α) : Prop extends IsProduct es e where
  order : e.free = (es.flatMap Expression.free).filter fun index => holders es index.symbol ≠ 2
  summed : e.used.Perm (es.flatMap Expression.used ++ sharedSymbols es)

theorem joined_operand {e : Expression α} (separated : e.Separated) : Joined [e] e where
  toIsProduct := isProduct_operand separated
  order := by
    rw [List.flatMap_singleton, List.filter_eq_self.mpr]
    intro index present
    rw [holders_singleton, if_pos (Expression.mem_freeSymbols present)]
    rfl
  summed := by rw [List.flatMap_singleton, sharedSymbols_singleton, List.append_nil]

theorem Joined.mem_used {es : List (Expression α)} {e operand : Expression α} (joined : Joined es e)
    (member : operand ∈ es) {s : Symbol} (isUsed : s ∈ operand.used) : s ∈ e.used :=
  joined.summed.mem_iff.mpr (List.mem_append_left _ (List.mem_flatMap.mpr ⟨operand, member, isUsed⟩))

theorem Joined.mem_symbols {es : List (Expression α)} {e operand : Expression α} (joined : Joined es e)
    (member : operand ∈ es) {s : Symbol} (occurs : s ∈ operand.symbols) : s ∈ e.symbols := by
  rw [Expression.mem_symbols] at occurs ⊢
  rcases occurs with isFree | isUsed
  · have held := holders_pos member isFree
    have few := joined.atMostTwice s
    rcases (by omega : holders es s = 1 ∨ holders es s = 2) with once | twice
    · exact Or.inl ((joined.freeOnce s).mpr once)
    · exact Or.inr (joined.usedTwice s twice)
  · exact Or.inr (joined.mem_used member isUsed)

theorem Joined.used_cases {es : List (Expression α)} {e : Expression α} (joined : Joined es e) {s : Symbol}
    (isUsed : s ∈ e.used) : (∃ operand ∈ es, s ∈ operand.used) ∨ holders es s = 2 := by
  rcases List.mem_append.mp (joined.summed.mem_iff.mp isUsed) with within | shared
  · exact Or.inl (List.mem_flatMap.mp within)
  · exact Or.inr (mem_sharedSymbols.mp shared)

theorem Joined.symbol_cases {es : List (Expression α)} {e : Expression α} (joined : Joined es e)
    {s : Symbol} (occurs : s ∈ e.symbols) : (∃ operand ∈ es, s ∈ operand.used) ∨ 0 < holders es s := by
  rcases Expression.mem_symbols.mp occurs with isFree | isUsed
  · have once := (joined.freeOnce s).mp isFree
    omega
  · rcases joined.used_cases isUsed with within | twice
    · exact Or.inl within
    · omega

theorem IsProduct.computed {es : List (Expression α)} {e : Expression α} (product : IsProduct es e)
    (sized : ∀ operand ∈ es, operand.Computed) : e.Computed := by
  intro index present
  rcases product.exists_operand present with ⟨operand, member, inside⟩
  exact sized operand member index inside

section Mul

variable {es fs : List (Expression α)} {left right e : Expression α}

/-- What one node accepts, its operands satisfy: a clash of symbols far apart shows between the two
children, where both symbols still occur. -/
theorem Joined.composable (first : Joined es left) (second : Joined fs right) (onLeft : Composable es)
    (onRight : Composable fs) (accepted : left.mul right = .ok e)
    (composes : Expression.SumsApart left right ∧ Expression.Pairs left right) : Composable (es ++ fs) := by
  have few := (first.toIsProduct.mul second.toIsProduct accepted).atMostTwice
  refine ⟨List.pairwise_append.mpr ⟨onLeft.apart, onRight.apart, ?_⟩, few,
    List.pairwise_append.mpr ⟨onLeft.pairs, onRight.pairs, ?_⟩⟩
  · intro operand member other member'
    constructor
    · intro s summed occurs
      exact composes.1.1 s (first.mem_used member summed) (second.mem_symbols member' occurs)
    · intro s summed occurs
      exact composes.1.2 s (second.mem_used member' summed) (first.mem_symbols member occurs)
  · intro operand member other member' index present found present' same
    have held := holders_pos member (Expression.mem_freeSymbols present)
    have held' := holders_pos member' (Expression.mem_freeSymbols present')
    have total := few index.symbol
    rw [← same] at held'
    rw [holders_append] at total
    have onceLeft := (first.freeOnce index.symbol).mpr (by omega)
    have onceRight := (second.freeOnce index.symbol).mpr (by omega)
    apply composes.2 index (first.kept operand member index present onceLeft) found ?_ same
    exact second.kept other member' found present' (same ▸ onceRight)

/-- A symbol that one product sums, and that occurs in the other, is a clash between two operands or is
free in three of them. -/
theorem Joined.not_mem_symbols (first : Joined es left) (second : Joined fs right)
    (apart : ∀ operand ∈ es, ∀ other ∈ fs, Expression.SumsApart operand other) {s : Symbol}
    (few : holders es s + holders fs s ≤ 2) (summed : s ∈ left.used) : s ∉ right.symbols := by
  intro occurs
  rcases first.used_cases summed with ⟨operand, member, isUsed⟩ | twice
  · rcases second.symbol_cases occurs with ⟨other, member', isUsed'⟩ | held
    · exact (apart operand member other member').1 s isUsed
        (Expression.mem_symbols.mpr (Or.inr isUsed'))
    · rcases exists_of_holders_pos held with ⟨other, member', isFree⟩
      exact (apart operand member other member').1 s isUsed (Expression.mem_symbols.mpr (Or.inl isFree))
  · rcases second.symbol_cases occurs with ⟨other, member', isUsed'⟩ | held
    · rcases exists_of_holders_pos (by omega : 0 < holders es s) with ⟨operand, member, isFree⟩
      exact (apart operand member other member').2 s isUsed' (Expression.mem_symbols.mpr (Or.inl isFree))
    · omega

theorem Joined.composes (first : Joined es left) (second : Joined fs right)
    (composable : Composable (es ++ fs)) :
    Expression.SumsApart left right ∧ Expression.Pairs left right := by
  obtain ⟨_, _, apart⟩ := List.pairwise_append.mp composable.apart
  obtain ⟨_, _, pairs⟩ := List.pairwise_append.mp composable.pairs
  have few (s : Symbol) : holders es s + holders fs s ≤ 2 :=
    holders_append es fs s ▸ composable.atMostTwice s
  refine ⟨⟨?_, ?_⟩, ?_⟩
  · intro s summed
    exact first.not_mem_symbols second apart (few s) summed
  · intro s summed
    apply second.not_mem_symbols first ?_ (Nat.add_comm _ _ ▸ few s) summed
    exact fun other member' operand member => (apart operand member other member').symm
  · intro index present found present' same
    rcases first.exists_operand present with ⟨operand, member, inside⟩
    rcases second.exists_operand present' with ⟨other, member', inside'⟩
    exact pairs operand member other member' index inside found inside' same

theorem filter_uncontracted {gs : List (Expression α)} {count : Symbol → Nat}
    (uncontracted : ∀ s, 0 < holders gs s →
      (s ∉ Expression.contracted left right ∧ holders gs s ≠ 2 ↔ count s ≠ 2)) :
    ((gs.flatMap Expression.free).filter fun index => holders gs index.symbol ≠ 2).filter
        (fun index => !(Expression.contracted left right).contains index.symbol) =
      (gs.flatMap Expression.free).filter fun index => count index.symbol ≠ 2 := by
  rw [List.filter_filter]
  apply List.filter_congr
  intro index member
  rcases List.mem_flatMap.mp member with ⟨operand, inside, present⟩
  have kept := uncontracted index.symbol (holders_pos inside (Expression.mem_freeSymbols present))
  rw [Bool.eq_iff_iff, Bool.and_eq_true, Bool.not_eq_true', ← Bool.not_eq_true, List.contains_iff_mem,
    decide_eq_true_iff, decide_eq_true_iff]
  exact kept

theorem Joined.mul (first : Joined es left) (second : Joined fs right)
    (accepted : left.mul right = .ok e) : Joined (es ++ fs) e := by
  have zero := first.toIsProduct.holders_eq_zero second.toIsProduct accepted
  have few := first.atMostTwice
  have few' := second.atMostTwice
  have summed := first.toIsProduct.sharedSymbols_perm second.toIsProduct accepted
  have product := first.toIsProduct.mul second.toIsProduct accepted
  obtain ⟨_, _, summedDims, _, rfl⟩ := Expression.mul_eq_ok_iff.mp accepted
  refine ⟨product, ?_, ?_⟩
  · change (left.free ++ right.free).filter (fun index =>
        !(FreeIndex.symbols (Expression.shared left right)).contains index.symbol) = _
    rw [Expression.symbols_shared, first.order, second.order, List.filter_append, List.flatMap_append,
      List.filter_append]
    congr 1
    · apply filter_uncontracted
      intro s held
      have := zero s
      have := few s
      rw [Expression.mem_contracted, first.freeOnce, second.freeOnce, holders_append]
      omega
    · apply filter_uncontracted
      intro s held
      have := zero s
      have := few' s
      rw [Expression.mem_contracted, first.freeOnce, second.freeOnce, holders_append]
      omega
  · change (left.used ++ right.used ++ FreeIndex.symbols (Expression.shared left right)).Perm _
    rw [Expression.symbols_shared, List.flatMap_append]
    calc
      (left.used ++ right.used ++ Expression.contracted left right).Perm
          ((es.flatMap Expression.used ++ sharedSymbols es) ++
            (fs.flatMap Expression.used ++ sharedSymbols fs) ++ Expression.contracted left right) :=
        (first.summed.append second.summed).append_right _
      List.Perm _ (es.flatMap Expression.used ++ fs.flatMap Expression.used ++
          (Expression.contracted left right ++ (sharedSymbols es ++ sharedSymbols fs))) := by
        rw [List.perm_iff_count]
        intro s
        simp only [List.count_append]
        omega
      List.Perm _ (es.flatMap Expression.used ++ fs.flatMap Expression.used ++ sharedSymbols (es ++ fs)) :=
        summed.append_left _

end Mul

namespace ProductTree

variable {tree : ProductTree α} (separated : ∀ e ∈ tree.operands, e.Separated)
  (sized : ∀ e ∈ tree.operands, e.Computed)

include separated sized

/-- A tree is built when its operands compose, and refused otherwise. -/
theorem build_cases :
    Composable tree.operands ∧ (∃ e, tree.build = .ok e ∧ Joined tree.operands e) ∨
      ¬ Composable tree.operands ∧ ∃ reason, tree.build = .error (.refused reason) := by
  induction tree with
  | operand e =>
      exact Or.inl ⟨composable_singleton e, e, rfl, joined_operand (separated e List.mem_cons_self)⟩
  | product left right ihLeft ihRight =>
      rw [operands, List.forall_mem_append] at separated sized
      rw [operands, build]
      rcases ihLeft separated.1 sized.1 with ⟨onLeft, first, built, joined⟩ | ⟨clash, reason, refused⟩
      · rcases ihRight separated.2 sized.2 with ⟨onRight, second, built', joined'⟩ | ⟨clash, reason, refused⟩
        · rw [built, ok_bind, built', ok_bind]
          have node := Expression.exists_mul_iff joined'.separated.free (joined.computed sized.1)
            (joined'.computed sized.2)
          cases outcome : first.mul second with
          | ok e =>
              have composes := node.mp ⟨e, outcome⟩
              have composable := joined.composable joined' onLeft onRight outcome composes
              exact Or.inl ⟨composable, e, rfl, joined.mul joined' outcome⟩
          | error fault =>
              rcases Expression.mul_eq_error joined'.separated.free (joined.computed sized.1)
                (joined'.computed sized.2) outcome with ⟨reason, rfl⟩
              refine Or.inr ⟨fun composable => ?_, reason, rfl⟩
              rcases node.mpr (joined.composes joined' composable) with ⟨e, accepted⟩
              rw [outcome] at accepted
              cases accepted
        · rw [built, ok_bind, refused, error_bind]
          exact Or.inr ⟨fun both => clash both.of_append_right, reason, rfl⟩
      · rw [refused, error_bind]
        exact Or.inr ⟨fun both => clash both.of_append_left, reason, rfl⟩

theorem exists_build_iff : (∃ result, tree.build = .ok result) ↔ Composable tree.operands := by
  rcases build_cases separated sized with ⟨composable, e, built, _⟩ | ⟨clash, reason, refused⟩
  · exact ⟨fun _ => composable, fun _ => ⟨e, built⟩⟩
  · constructor
    · intro ⟨result, built⟩
      rw [refused] at built
      cases built
    · exact fun composable => absurd composable clash

end ProductTree

theorem Expression.computed_index {tensor : Tensor α} {symbols : IndexList} {e : Expression α}
    (accepted : Expression.index tensor symbols = .ok e) : e.Computed := by
  obtain ⟨leaf, made, rfl⟩ := Expression.index_eq_ok_iff.mp accepted
  obtain ⟨factors, _, _, _, _, slotDims, computed, rfl⟩ := Leaf.make_eq_ok_iff.mp made
  intro index present
  obtain ⟨slot, kept, rfl⟩ := List.mem_map.mp present
  exact Space.exists_dimension_of_mem computed (List.of_mem_zip (List.mem_filter.mp kept).1).2

theorem ProductTree.wellIndexed_of_build {tree : ProductTree α} {result : Expression α}
    (well : ∀ e ∈ tree.operands, e.WellIndexed) (built : tree.build = .ok result) :
    result.WellIndexed := by
  induction tree generalizing result with
  | operand e =>
      cases built
      exact well e List.mem_cons_self
  | product left right ihLeft ihRight =>
      obtain ⟨first, builtLeft, later⟩ := bind_eq_ok_iff.mp built
      obtain ⟨second, builtRight, accepted⟩ := bind_eq_ok_iff.mp later
      rw [operands, List.forall_mem_append] at well
      exact Expression.wellIndexed_mul (ihLeft well.1 builtLeft) (ihRight well.2 builtRight) accepted

/-- All nodes of a product are accepted exactly when the operands compose, whatever the brackets and the
order. What is left are the indices that no two operands share, in order, and what is summed inside are the
symbols that an operand sums or that two share, each once. -/
theorem ProductTree.build_spec {tree : ProductTree α} (well : ∀ e ∈ tree.operands, e.WellIndexed)
    (sized : ∀ e ∈ tree.operands, e.Computed) :
    ((∃ result, tree.build = .ok result) ↔ Composable tree.operands) ∧
      (¬ Composable tree.operands → ∃ reason, tree.build = .error (.refused reason)) ∧
      (∀ other : ProductTree α, other.operands.Perm tree.operands →
        ((∃ result, other.build = .ok result) ↔ ∃ result, tree.build = .ok result)) ∧
      ∀ result, tree.build = .ok result →
        result.free = (tree.operands.flatMap Expression.free).filter
            (fun index => holders tree.operands index.symbol ≠ 2) ∧
          result.used.Perm (tree.operands.flatMap Expression.used ++ sharedSymbols tree.operands) ∧
          result.used.Nodup := by
  have separated := fun e member => (well e member).separated
  have accepted := exists_build_iff separated sized
  refine ⟨accepted, ?_, ?_, ?_⟩
  · intro clash
    rcases build_cases separated sized with ⟨composable, _⟩ | ⟨_, refused⟩
    · exact absurd composable clash
    · exact refused
  · intro other permuted
    have separated' : ∀ e ∈ other.operands, e.Separated :=
      fun e member => separated e (permuted.mem_iff.mp member)
    rw [exists_build_iff separated' fun e member => sized e (permuted.mem_iff.mp member), accepted]
    exact ⟨fun composable => composable.perm permuted, fun composable => composable.perm permuted.symm⟩
  · intro result built
    rcases build_cases separated sized with ⟨_, e, same, joined⟩ | ⟨_, reason, refused⟩
    · rw [built] at same
      cases same
      exact ⟨joined.order, joined.summed, (wellIndexed_of_build well built).used⟩
    · rw [built] at refused
      cases refused

theorem ProductTree.build_spec_chain :
    ∃ a b c result : Expression (Bounded .signed32),
      (product (operand a) (product (operand b) (operand c))).build = .ok result ∧
      Composable [a, b, c] ∧ result.freeSymbols = [.letter 'i', .letter 'l'] ∧
      result.used = [.letter 'k', .letter 'j'] ∧
      result.used.Perm ([a, b, c].flatMap Expression.used ++ sharedSymbols [a, b, c]) ∧
      ∃ other, (product (product (operand a) (operand b)) (operand c)).build = .ok other := by
  let plane : Space := .standard 2 "V"
  let matrix : Tensor (Bounded .signed32) :=
    ⟨.tensorProduct [plane, plane.dual], .generated (.ofFunction "sum" 4 fun index => Bounded.ofInt index)⟩
  obtain ⟨a, b, c, result, named, named', named'', built, order, summed⟩ : ∃ a b c result,
      Expression.index matrix [.letter 'i', .letter 'j'] = .ok a ∧
      Expression.index matrix [.letter 'j', .letter 'k'] = .ok b ∧
      Expression.index matrix [.letter 'k', .letter 'l'] = .ok c ∧
      (product (operand a) (product (operand b) (operand c))).build = .ok result ∧
      result.freeSymbols = [.letter 'i', .letter 'l'] ∧
      result.used = [.letter 'k', .letter 'j'] :=
    ⟨_, _, _, _, rfl, rfl, rfl, rfl, by decide +kernel, by decide +kernel⟩
  have each : ∀ e ∈ [a, b, c], e.WellIndexed ∧ e.Computed := by
    intro e member
    rcases List.mem_cons.mp member with rfl | member
    · exact ⟨Expression.wellIndexed_index named, Expression.computed_index named⟩
    · rcases List.mem_cons.mp member with rfl | member
      · exact ⟨Expression.wellIndexed_index named', Expression.computed_index named'⟩
      · rw [List.mem_singleton.mp member]
        exact ⟨Expression.wellIndexed_index named'', Expression.computed_index named''⟩
  obtain ⟨accepted, _, rebracketed, outcome⟩ := @build_spec _
    (product (operand a) (product (operand b) (operand c)))
    (fun e member => (each e member).1) (fun e member => (each e member).2)
  refine ⟨a, b, c, result, built, accepted.mp ⟨result, built⟩, order, summed, ?_, ?_⟩
  · exact (outcome result built).2.1
  · exact (rebracketed (product (product (operand a) (operand b)) (operand c)) (.refl _)).mpr ⟨result, built⟩

end IndexNotation
