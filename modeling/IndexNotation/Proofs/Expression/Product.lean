import IndexNotation.Proofs.Expression.Contraction

namespace IndexNotation

variable {α : Type}

def holders (es : List (Expression α)) (s : Symbol) : Nat :=
  es.countP fun e => e.freeSymbols.contains s

def sharedSymbols (es : List (Expression α)) : IndexList :=
  (es.flatMap Expression.freeSymbols).eraseDups.filter fun s => holders es s = 2

section Holders

theorem holders_append (es fs : List (Expression α)) (s : Symbol) :
    holders (es ++ fs) s = holders es s + holders fs s := List.countP_append

theorem holders_perm {es fs : List (Expression α)} (permuted : es.Perm fs) (s : Symbol) :
    holders es s = holders fs s := permuted.countP_eq _

theorem holders_pos {es : List (Expression α)} {e : Expression α} {s : Symbol} (member : e ∈ es)
    (isFree : s ∈ e.freeSymbols) : 0 < holders es s :=
  List.countP_pos_iff.mpr ⟨e, member, List.contains_iff_mem.mpr isFree⟩

theorem holders_singleton (e : Expression α) (s : Symbol) :
    holders [e] s = if s ∈ e.freeSymbols then 1 else 0 := by
  by_cases isFree : s ∈ e.freeSymbols
  · simp [holders, isFree]
  · simp [holders, isFree]

theorem mem_sharedSymbols {es : List (Expression α)} {s : Symbol} :
    s ∈ sharedSymbols es ↔ holders es s = 2 := by
  rw [sharedSymbols, List.mem_filter, List.mem_eraseDups, List.mem_flatMap, decide_eq_true_eq]
  constructor
  · intro ⟨_, twice⟩
    exact twice
  · intro twice
    have some : 0 < holders es s := by omega
    obtain ⟨e, member, contains⟩ := List.countP_pos_iff.mp some
    exact ⟨⟨e, member, List.contains_iff_mem.mp contains⟩, twice⟩

theorem nodup_sharedSymbols (es : List (Expression α)) : (sharedSymbols es).Nodup :=
  (IndexList.nodup_eraseDups _).filter _

theorem sharedSymbols_perm {es fs : List (Expression α)} (permuted : es.Perm fs) :
    (sharedSymbols es).Perm (sharedSymbols fs) := by
  apply (List.perm_ext_iff_of_nodup (nodup_sharedSymbols es) (nodup_sharedSymbols fs)).mpr
  intro s
  rw [mem_sharedSymbols, mem_sharedSymbols, holders_perm permuted]

theorem Expression.mem_sharedSymbols_pair {e f : Expression α} {s : Symbol} :
    s ∈ sharedSymbols [e, f] ↔ s ∈ contracted e f := by
  rw [mem_sharedSymbols, mem_contracted, holders, List.countP_cons, List.countP_singleton]
  by_cases onLeft : s ∈ e.freeSymbols <;> by_cases onRight : s ∈ f.freeSymbols <;> simp [onLeft, onRight]

theorem sharedSymbols_singleton (e : Expression α) : sharedSymbols [e] = [] := by
  rw [List.eq_nil_iff_forall_not_mem]
  intro s shared
  rw [mem_sharedSymbols, holders_singleton] at shared
  split at shared <;> omega

end Holders

/-- What multiplying the operands `es` leaves, in whatever order and bracketing. -/
structure IsProduct (es : List (Expression α)) (e : Expression α) : Prop where
  separated : e.Separated
  atMostTwice : ∀ s, holders es s ≤ 2
  freeOnce : ∀ s, s ∈ e.freeSymbols ↔ holders es s = 1
  usedTwice : ∀ s, holders es s = 2 → s ∈ e.used
  /-- An index that is not summed stays as it is. -/
  kept : ∀ operand ∈ es, ∀ index ∈ operand.free, index.symbol ∈ e.freeSymbols → index ∈ e.free
  /-- A summed symbol has one dimension, on both sides. -/
  extent : ∀ s, holders es s = 2 → ∃ d, ∀ operand ∈ es, ∀ index ∈ operand.free,
    index.symbol = s → index.factor.dimension = .ok d

theorem Expression.mem_freeSymbols {e : Expression α} {index : FreeIndex} (member : index ∈ e.free) :
    index.symbol ∈ e.freeSymbols := List.mem_map.mpr ⟨index, member, rfl⟩

theorem IsProduct.exists_operand {es : List (Expression α)} {e : Expression α}
    (product : IsProduct es e) {index : FreeIndex} (member : index ∈ e.free) :
    ∃ operand ∈ es, index ∈ operand.free := by
  have isFree := Expression.mem_freeSymbols member
  have once := (product.freeOnce _).mp isFree
  obtain ⟨operand, there, contains⟩ :=
    List.countP_pos_iff.mp (show 0 < holders es index.symbol by omega)
  obtain ⟨found, present, same⟩ := List.mem_map.mp (List.contains_iff_mem.mp contains)
  have stays := product.kept operand there found present (same ▸ isFree)
  rw [FreeIndex.eq_of_symbol_eq product.separated.free stays member same] at present
  exact ⟨operand, there, present⟩

theorem isProduct_operand {e : Expression α} (separated : e.Separated) : IsProduct [e] e where
  separated := separated
  atMostTwice s := by
    rw [holders_singleton]
    split <;> omega
  freeOnce s := by
    rw [holders_singleton]
    split <;> simp [*]
  usedTwice s twice := by
    rw [holders_singleton] at twice
    split at twice <;> omega
  kept operand member index present _ := by
    rw [List.mem_singleton.mp member] at present
    exact present
  extent s twice := by
    rw [holders_singleton] at twice
    split at twice <;> omega

theorem checkPairing_eq_ok {s : Symbol} {left right : Space}
    (accepted : checkPairing s left right = .ok ()) :
    ∃ d, left.dimension = .ok d ∧ right.dimension = .ok d := by
  rw [checkPairing] at accepted
  obtain ⟨a, first, later⟩ := bind_eq_ok_iff.mp accepted
  obtain ⟨b, second, rest⟩ := bind_eq_ok_iff.mp later
  by_cases same : a = b
  · subst same
    exact ⟨a, first, second⟩
  · simp [same] at rest

theorem checkContraction_eq_ok {right : List FreeIndex} {index other : FreeIndex}
    (distinct : (FreeIndex.symbols right).Nodup) (member : other ∈ right)
    (same : other.symbol = index.symbol)
    (accepted : Expression.checkContraction right index = .ok ()) :
    ∃ d, index.factor.dimension = .ok d ∧ other.factor.dimension = .ok d := by
  rw [Expression.checkContraction] at accepted
  cases found : right.find? (·.symbol = index.symbol) with
  | none =>
      have absent := List.find?_eq_none.mp found other member
      simp [same] at absent
  | some paired =>
      have names : paired.symbol = index.symbol := by simpa using List.find?_some found
      have equal : paired = other :=
        FreeIndex.eq_of_symbol_eq distinct (List.mem_of_find?_eq_some found) member
          (names.trans same.symm)
      rw [found] at accepted
      rw [← equal]
      exact checkPairing_eq_ok accepted

section Mul

variable {es fs : List (Expression α)} {left right e : Expression α}

theorem IsProduct.holders_eq_zero (first : IsProduct es left) (second : IsProduct fs right)
    (accepted : left.mul right = .ok e) (s : Symbol) :
    (holders es s = 2 → holders fs s = 0) ∧ (holders fs s = 2 → holders es s = 0) := by
  obtain ⟨disjoint, _⟩ := Expression.mul_eq_ok_iff.mp accepted
  obtain ⟨leftFree, rightFree, bothUsed⟩ := Expression.checkDisjoint_eq_ok_iff.mp disjoint
  have few := first.atMostTwice s
  have few' := second.atMostTwice s
  constructor
  · intro twice
    have summed := first.usedTwice s twice
    have notFree : holders fs s ≠ 1 := fun once => rightFree s ((second.freeOnce s).mpr once) summed
    have notUsed : holders fs s ≠ 2 := fun twice' => bothUsed s summed (second.usedTwice s twice')
    omega
  · intro twice
    have summed := second.usedTwice s twice
    have notFree : holders es s ≠ 1 := fun once => leftFree s ((first.freeOnce s).mpr once) summed
    have notUsed : holders es s ≠ 2 := fun twice' => bothUsed s (first.usedTwice s twice') summed
    omega

theorem IsProduct.cases_of_twice (first : IsProduct es left) (second : IsProduct fs right)
    {s : Symbol} (twice : holders (es ++ fs) s = 2) :
    holders es s = 2 ∨ holders fs s = 2 ∨ s ∈ left.freeSymbols ∧ s ∈ right.freeSymbols := by
  rw [holders_append] at twice
  rw [first.freeOnce, second.freeOnce]
  omega

theorem IsProduct.kept_mul (first : IsProduct es left) (second : IsProduct fs right)
    (accepted : left.mul right = .ok e) :
    ∀ operand ∈ es ++ fs, ∀ index ∈ operand.free, index.symbol ∈ e.freeSymbols →
      index ∈ e.free := by
  have zero := first.holders_eq_zero second accepted
  obtain ⟨_, _, summedDims, _, rfl⟩ := Expression.mul_eq_ok_iff.mp accepted
  intro operand member index present isFree
  obtain ⟨either, once⟩ := Expression.mem_freeSymbols_mul.mp isFree
  rw [first.freeOnce, second.freeOnce] at either
  have := zero index.symbol
  apply Expression.mem_free_mul.mpr
  refine ⟨?_, once⟩
  rcases List.mem_append.mp member with onLeft | onRight
  · have held := holders_pos onLeft (Expression.mem_freeSymbols present)
    have few := first.atMostTwice index.symbol
    exact Or.inl (first.kept operand onLeft index present ((first.freeOnce _).mpr (by omega)))
  · have held := holders_pos onRight (Expression.mem_freeSymbols present)
    have few := second.atMostTwice index.symbol
    exact Or.inr (second.kept operand onRight index present ((second.freeOnce _).mpr (by omega)))

theorem extent_append {s : Symbol} {d : Nat}
    (sized : ∀ operand ∈ es, ∀ index ∈ operand.free, index.symbol = s →
      index.factor.dimension = .ok d) (none : holders fs s = 0) :
    ∀ operand ∈ es ++ fs, ∀ index ∈ operand.free, index.symbol = s →
      index.factor.dimension = .ok d := by
  intro operand member index present same
  rcases List.mem_append.mp member with there | absent
  · exact sized operand there index present same
  · have held := holders_pos absent (Expression.mem_freeSymbols present)
    rw [same] at held
    omega

/-- The two sides of a contraction have one dimension, since their factors pair. -/
theorem IsProduct.extent_mul (first : IsProduct es left) (second : IsProduct fs right)
    (accepted : left.mul right = .ok e) {s : Symbol} (twice : holders (es ++ fs) s = 2) :
    ∃ d, ∀ operand ∈ es ++ fs, ∀ index ∈ operand.free, index.symbol = s →
      index.factor.dimension = .ok d := by
  have zero := first.holders_eq_zero second accepted s
  obtain ⟨_, pairs, _⟩ := Expression.mul_eq_ok_iff.mp accepted
  rcases first.cases_of_twice second twice with onLeft | onRight | ⟨isLeft, isRight⟩
  · obtain ⟨d, sized⟩ := first.extent s onLeft
    exact ⟨d, extent_append sized (zero.1 onLeft)⟩
  · obtain ⟨d, sized⟩ := second.extent s onRight
    have swapped := extent_append sized (zero.2 onRight)
    refine ⟨d, fun operand member => swapped operand ?_⟩
    exact List.perm_append_comm.mem_iff.mp member
  · obtain ⟨index, atLeft, rfl⟩ := List.mem_map.mp isLeft
    obtain ⟨other, atRight, same⟩ := List.mem_map.mp isRight
    obtain ⟨d, sized, sized'⟩ :=
      checkContraction_eq_ok second.separated.free atRight same (pairs index atLeft)
    refine ⟨d, fun operand member found present names => ?_⟩
    rcases List.mem_append.mp member with there | there
    · have stays := first.kept operand there found present (names ▸ isLeft)
      rwa [FreeIndex.eq_of_symbol_eq first.separated.free stays atLeft names]
    · have stays := second.kept operand there found present (names ▸ isRight)
      rwa [FreeIndex.eq_of_symbol_eq second.separated.free stays atRight (names.trans same.symm)]

theorem IsProduct.mul (first : IsProduct es left) (second : IsProduct fs right)
    (accepted : left.mul right = .ok e) : IsProduct (es ++ fs) e := by
  have separated := Expression.separated_mul first.separated second.separated accepted
  have zero := first.holders_eq_zero second accepted
  have few := first.atMostTwice
  have few' := second.atMostTwice
  have kept := first.kept_mul second accepted
  have extent := fun s => first.extent_mul second accepted (s := s)
  obtain ⟨_, _, summedDims, _, rfl⟩ := Expression.mul_eq_ok_iff.mp accepted
  refine ⟨separated, ?_, ?_, ?_, kept, extent⟩
  · intro s
    have := zero s
    have := few s
    have := few' s
    rw [holders_append]
    omega
  · intro s
    have := zero s
    have := few s
    have := few' s
    rw [Expression.mem_freeSymbols_mul, first.freeOnce, second.freeOnce, holders_append]
    omega
  · intro s twice
    change s ∈ left.used ++ right.used ++ FreeIndex.symbols (Expression.shared left right)
    rw [Expression.symbols_shared]
    rcases first.cases_of_twice second twice with onLeft | onRight | both
    · exact List.mem_append_left _ (List.mem_append_left _ (first.usedTwice s onLeft))
    · exact List.mem_append_left _ (List.mem_append_right _ (second.usedTwice s onRight))
    · exact List.mem_append_right _ (Expression.mem_contracted.mpr both)

end Mul

inductive ProductTree (α : Type) where
  | operand (e : Expression α)
  | product (left right : ProductTree α)

namespace ProductTree

def operands : ProductTree α → List (Expression α)
  | operand e => [e]
  | product left right => left.operands ++ right.operands

def build : ProductTree α → Except Fault (Expression α)
  | operand e => .ok e
  | product left right => do (← left.build).mul (← right.build)

theorem isProduct_of_build {tree : ProductTree α} {result : Expression α}
    (built : tree.build = .ok result) (separated : ∀ e ∈ tree.operands, e.Separated) :
    IsProduct tree.operands result := by
  induction tree generalizing result with
  | operand e =>
      cases built
      exact isProduct_operand (separated e List.mem_cons_self)
  | product left right ihLeft ihRight =>
      obtain ⟨first, builtLeft, later⟩ := bind_eq_ok_iff.mp built
      obtain ⟨second, builtRight, accepted⟩ := bind_eq_ok_iff.mp later
      have left := ihLeft builtLeft fun e member => separated e (List.mem_append_left _ member)
      have right := ihRight builtRight fun e member => separated e (List.mem_append_right _ member)
      exact left.mul right accepted

theorem cacheNodes_of_build {tree : ProductTree α} {result : Expression α}
    (built : tree.build = .ok result) :
    result.cacheNodes = tree.operands.flatMap Expression.cacheNodes := by
  induction tree generalizing result with
  | operand e =>
      cases built
      simp [operands]
  | product left right ihLeft ihRight =>
      obtain ⟨first, builtLeft, later⟩ := bind_eq_ok_iff.mp built
      obtain ⟨second, builtRight, accepted⟩ := bind_eq_ok_iff.mp later
      obtain ⟨_, _, _, _, rfl⟩ := Expression.mul_eq_ok_iff.mp accepted
      rw [Expression.cacheNodes, ihLeft builtLeft, ihRight builtRight, operands, List.flatMap_append]

end ProductTree

def Sized (extent : Symbol → Nat) (es : List (Expression α)) : Prop :=
  ∀ e ∈ es, ∀ index ∈ e.free, index.symbol ∈ sharedSymbols es →
    index.factor.dimension = .ok (extent index.symbol)

theorem IsProduct.exists_sized {es : List (Expression α)} {e : Expression α}
    (product : IsProduct es e) : ∃ extent, Sized extent es := by
  have each : ∀ s, ∃ d, holders es s = 2 → ∀ operand ∈ es, ∀ index ∈ operand.free,
      index.symbol = s → index.factor.dimension = .ok d := by
    intro s
    by_cases twice : holders es s = 2
    · obtain ⟨d, sized⟩ := product.extent s twice
      exact ⟨d, fun _ => sized⟩
    · exact ⟨0, fun impossible => absurd impossible twice⟩
  choose extent sized using each
  refine ⟨extent, fun operand member index present shared => ?_⟩
  exact sized index.symbol (mem_sharedSymbols.mp shared) operand member index present rfl

theorem Sized.perm {extent : Symbol → Nat} {es fs : List (Expression α)} (sized : Sized extent es)
    (permuted : es.Perm fs) : Sized extent fs := by
  intro e member index present shared
  rw [mem_sharedSymbols, ← holders_perm permuted] at shared
  exact sized e (permuted.mem_iff.mpr member) index present (mem_sharedSymbols.mpr shared)

section Shared

variable {es fs : List (Expression α)} {left right e : Expression α} {extent : Symbol → Nat}

theorem IsProduct.sharedSymbols_perm (first : IsProduct es left) (second : IsProduct fs right)
    (accepted : left.mul right = .ok e) :
    (Expression.contracted left right ++ (sharedSymbols es ++ sharedSymbols fs)).Perm
      (sharedSymbols (es ++ fs)) := by
  have zero := first.holders_eq_zero second accepted
  have few := first.atMostTwice
  have few' := second.atMostTwice
  have distinct : (Expression.contracted left right ++ (sharedSymbols es ++ sharedSymbols fs)).Nodup := by
    refine List.nodup_append.mpr ⟨first.separated.free.filter _, List.nodup_append.mpr
      ⟨nodup_sharedSymbols es, nodup_sharedSymbols fs, ?_⟩, ?_⟩
    · intro s onLeft t onRight same
      rw [mem_sharedSymbols] at onLeft onRight
      have := zero s
      subst same
      omega
    · intro s both t summed same
      rw [Expression.mem_contracted, first.freeOnce, second.freeOnce] at both
      rw [List.mem_append, mem_sharedSymbols, mem_sharedSymbols] at summed
      subst same
      omega
  apply (List.perm_ext_iff_of_nodup distinct (nodup_sharedSymbols _)).mpr
  intro s
  rw [List.mem_append, List.mem_append, Expression.mem_contracted, mem_sharedSymbols,
    mem_sharedSymbols, mem_sharedSymbols, holders_append, first.freeOnce, second.freeOnce]
  have := zero s
  have := few s
  have := few' s
  omega

theorem IsProduct.mem_sharedSymbols_append (first : IsProduct es left) (second : IsProduct fs right)
    (accepted : left.mul right = .ok e) {s : Symbol} :
    s ∈ sharedSymbols (es ++ fs) ↔
      s ∈ Expression.contracted left right ∨ s ∈ sharedSymbols es ∨ s ∈ sharedSymbols fs := by
  rw [← (first.sharedSymbols_perm second accepted).mem_iff, List.mem_append, List.mem_append]

theorem IsProduct.held_left (first : IsProduct es left) (second : IsProduct fs right)
    (accepted : left.mul right = .ok e) {s : Symbol} (held : 0 < holders es s)
    (shared : s ∈ sharedSymbols (es ++ fs)) :
    s ∈ sharedSymbols es ∨ s ∈ Expression.contracted left right := by
  rcases (first.mem_sharedSymbols_append second accepted).mp shared with here | own | other
  · exact Or.inr here
  · exact Or.inl own
  · have none := (first.holders_eq_zero second accepted s).2 (mem_sharedSymbols.mp other)
    omega

theorem IsProduct.held_right (first : IsProduct es left) (second : IsProduct fs right)
    (accepted : left.mul right = .ok e) {s : Symbol} (held : 0 < holders fs s)
    (shared : s ∈ sharedSymbols (es ++ fs)) :
    s ∈ sharedSymbols fs ∨ s ∈ Expression.contracted left right := by
  rcases (first.mem_sharedSymbols_append second accepted).mp shared with here | other | own
  · exact Or.inr here
  · have none := (first.holders_eq_zero second accepted s).1 (mem_sharedSymbols.mp other)
    omega
  · exact Or.inl own

theorem Sized.of_append_left (sized : Sized extent (es ++ fs))
    (zero : ∀ s, holders es s = 2 → holders fs s = 0) : Sized extent es := by
  intro e member index present shared
  apply sized e (List.mem_append_left _ member) index present
  rw [mem_sharedSymbols] at shared ⊢
  rw [holders_append, zero _ shared, shared]

theorem Sized.of_append_right (sized : Sized extent (es ++ fs))
    (zero : ∀ s, holders fs s = 2 → holders es s = 0) : Sized extent fs := by
  apply Sized.of_append_left (sized.perm List.perm_append_comm)
  exact zero

theorem IsProduct.summedDims_eq (first : IsProduct es left) (second : IsProduct fs right)
    (sized : Sized extent (es ++ fs)) {summedDims : List Nat}
    (computed : FreeIndex.dimensions (Expression.shared left right) = .ok summedDims) :
    summedDims = (Expression.contracted left right).map extent := by
  apply Expression.summedDims_eq computed
  intro index member
  obtain ⟨isLeft, contains⟩ := List.mem_filter.mp member
  obtain ⟨operand, there, present⟩ := first.exists_operand isLeft
  apply sized operand (List.mem_append_left _ there) index present
  rw [mem_sharedSymbols, holders_append,
    (first.freeOnce _).mp (Expression.mem_freeSymbols isLeft),
    (second.freeOnce _).mp (List.contains_iff_mem.mp contains)]

end Shared

end IndexNotation
