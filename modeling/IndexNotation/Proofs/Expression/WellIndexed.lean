import IndexNotation.Proofs.Expression.Accepted
import IndexNotation.Proofs.Expression.Alignment
/-!
Well-indexed expressions: no symbol is free twice, used twice, or both free and used. Every operation makes
well-indexed expressions from well-indexed operands. A renaming does so because the fresh symbols it
takes are later than every symbol already there.
-/
namespace IndexNotation

variable {α : Type}

structure Expression.WellIndexed (e : Expression α) : Prop where
  free : e.freeSymbols.Nodup
  used : e.used.Nodup
  apart : ∀ s ∈ e.freeSymbols, s ∉ e.used

structure Expression.Separated (e : Expression α) : Prop where
  free : e.freeSymbols.Nodup
  apart : ∀ s ∈ e.freeSymbols, s ∉ e.used

theorem Expression.WellIndexed.separated {e : Expression α} (well : e.WellIndexed) : e.Separated :=
  ⟨well.free, well.apart⟩

/-- A letter, or a fresh symbol with a serial number below `next`. -/
def Symbol.Before (next : Nat) : Symbol → Prop
  | .letter _ => True
  | .fresh serial => serial < next

theorem Symbol.Before.mono {s : Symbol} {next later : Nat} (before : s.Before next)
    (grown : next ≤ later) : s.Before later := by
  cases s with
  | letter c => trivial
  | fresh serial => exact Nat.lt_of_lt_of_le before grown

theorem Symbol.not_before_fresh (next : Nat) : ¬ (Symbol.fresh next).Before next := Nat.lt_irrefl next

theorem IndexList.nodup_filter_count_eq_one (symbols : IndexList) :
    (symbols.filter fun s => symbols.count s = 1).Nodup := by
  rw [List.nodup_iff_count_le_one]
  intro s
  by_cases present : s ∈ symbols.filter fun s => symbols.count s = 1
  · have once : symbols.count s = 1 := by simpa using (List.mem_filter.mp present).2
    rw [← once]
    exact List.filter_sublist.count_le s
  · rw [List.count_eq_zero_of_not_mem present]
    exact Nat.zero_le 1

theorem IndexList.nodup_eraseDups (symbols : IndexList) : symbols.eraseDups.Nodup := by
  induction length : symbols.length using Nat.strongRecOn generalizing symbols with
  | ind n ih =>
      cases symbols with
      | nil => simp
      | cons s rest =>
          rw [List.eraseDups_cons, List.nodup_cons]
          have fewer : (rest.filter fun t => !t == s).length < n := by
            have := List.length_filter_le (fun t => !t == s) rest
            simp only [List.length_cons] at length
            omega
          refine ⟨?_, ih _ fewer _ rfl⟩
          rw [List.mem_eraseDups, List.mem_filter]
          simp

theorem IndexList.substitute_before {source target : IndexList} {s : Symbol} {next : Nat}
    (symbol : s.Before next) (targets : ∀ t ∈ target, t.Before next) :
    (substitute source target s).Before next := by
  unfold substitute
  cases found : (source.zip target).lookup s with
  | none => exact symbol
  | some t =>
      have pair : (s, t) ∈ source.zip target := by
        obtain ⟨front, back, split, _⟩ := List.lookup_eq_some_iff.mp found
        rw [split]
        simp
      exact targets t (List.of_mem_zip pair).2

namespace Expression

theorem renameUsed_cons (rename : Symbol → Symbol) {taken : IndexList} (s : Symbol) (rest : IndexList)
    {serial : Nat} (known : ∀ t ∈ taken, t.Before serial) (renamed : (rename s).Before serial) :
    ∃ t later, t ∉ taken ∧ t.Before later ∧ serial ≤ later ∧
      renameUsed rename taken (s :: rest) serial =
        (t :: (renameUsed rename (t :: taken) rest later).1,
          (renameUsed rename (t :: taken) rest later).2) := by
  by_cases clash : rename s ∈ taken
  · refine ⟨.fresh serial, serial + 1, ?_, Nat.lt_succ_self serial, Nat.le_succ serial, ?_⟩
    · exact fun present => Symbol.not_before_fresh serial (known _ present)
    · simp only [renameUsed, clash, if_true]
  · refine ⟨rename s, serial, clash, renamed, Nat.le_refl serial, ?_⟩
    simp only [renameUsed, clash, if_false]

/-- The summed symbols of a renaming are apart from each other and from those taken, and before the next
serial number. -/
theorem renameUsed_spec (rename : Symbol → Symbol) (taken used : IndexList) (serial : Nat)
    (known : ∀ s ∈ taken, s.Before serial) (renamed : ∀ s ∈ used, (rename s).Before serial) :
    (renameUsed rename taken used serial).1.Nodup ∧
      (∀ s ∈ (renameUsed rename taken used serial).1, s ∉ taken) ∧
      serial ≤ (renameUsed rename taken used serial).2 ∧
      ∀ s ∈ (renameUsed rename taken used serial).1, s.Before (renameUsed rename taken used serial).2 := by
  induction used generalizing taken serial with
  | nil => simp [renameUsed]
  | cons s rest ih =>
      obtain ⟨t, later, free, before, grown, step⟩ := renameUsed_cons rename s rest known
        (renamed s (by simp))
      have knownLater : ∀ u ∈ t :: taken, u.Before later := by
        intro u present
        rcases List.mem_cons.mp present with same | earlier
        · exact same ▸ before
        · exact (known u earlier).mono grown
      obtain ⟨distinct, apart, more, all⟩ := ih (t :: taken) later knownLater
        fun u present => (renamed u (by simp [present])).mono grown
      rw [step]
      refine ⟨List.nodup_cons.mpr ⟨?_, distinct⟩, ?_, Nat.le_trans grown more, ?_⟩
      · intro again
        exact apart t again (by simp)
      · intro u present
        rcases List.mem_cons.mp present with same | further
        · exact same ▸ free
        · exact fun inTaken => apart u further (by simp [inTaken])
      · intro u present
        rcases List.mem_cons.mp present with same | further
        · exact same ▸ before.mono more
        · exact all u further

theorem wellIndexed_index {tensor : Tensor α} {symbols : IndexList} {e : Expression α}
    (accepted : index tensor symbols = .ok e) : e.WellIndexed := by
  obtain ⟨leaf, made, rfl⟩ := index_eq_ok_iff.mp accepted
  obtain ⟨factors, indexed, _, _, _, _, _, rfl⟩ := Leaf.make_eq_ok_iff.mp made
  have free := Leaf.symbols_single (Space.indexedFactors_length indexed)
  constructor
  · show (FreeIndex.symbols (Leaf.single symbols factors)).Nodup
    rw [free]
    exact IndexList.nodup_filter_count_eq_one symbols
  · exact IndexList.nodup_eraseDups _
  · intro s single doubled
    change s ∈ FreeIndex.symbols (Leaf.single symbols factors) at single
    rw [free] at single
    have once := (List.mem_filter.mp single).2
    have twice := (List.mem_filter.mp (List.mem_eraseDups.mp doubled)).2
    simp only [decide_eq_true_eq] at once twice
    omega

theorem freeSymbols_mul {left right : Expression α} (summedDims : List Nat) :
    (product left right (contraction left right summedDims)).freeSymbols =
      (left.freeSymbols ++ right.freeSymbols).filter fun s =>
        !(left.freeSymbols.filter right.freeSymbols.contains).contains s := by
  simp only [freeSymbols, free, contraction, shared, FreeIndex.symbols, ← List.map_append,
    List.filter_map]
  rfl

theorem symbols_shared (left right : Expression α) :
    FreeIndex.symbols (shared left right) = left.freeSymbols.filter right.freeSymbols.contains := by
  simp only [freeSymbols, shared, FreeIndex.symbols, List.filter_map]
  rfl

theorem mem_freeSymbols_mul {left right : Expression α} {summedDims : List Nat} {s : Symbol} :
    s ∈ (product left right (contraction left right summedDims)).freeSymbols ↔
      (s ∈ left.freeSymbols ∨ s ∈ right.freeSymbols) ∧
        ¬ (s ∈ left.freeSymbols ∧ s ∈ right.freeSymbols) := by
  rw [freeSymbols_mul, List.mem_filter, List.mem_append, Bool.not_eq_true',
    ← Bool.not_eq_true, List.contains_iff_mem, List.mem_filter, List.contains_iff_mem]

theorem mem_free_mul {left right : Expression α} {summedDims : List Nat} {index : FreeIndex} :
    index ∈ (product left right (contraction left right summedDims)).free ↔
      (index ∈ left.free ∨ index ∈ right.free) ∧
        ¬ (index.symbol ∈ left.freeSymbols ∧ index.symbol ∈ right.freeSymbols) := by
  rw [free, contraction, symbols_shared, List.mem_filter, List.mem_append, Bool.not_eq_true',
    ← Bool.not_eq_true, List.contains_iff_mem, List.mem_filter, List.contains_iff_mem]

theorem separated_mul {left right e : Expression α} (first : left.Separated)
    (second : right.Separated) (accepted : mul left right = .ok e) : e.Separated := by
  obtain ⟨disjoint, _, summedDims, _, rfl⟩ := mul_eq_ok_iff.mp accepted
  obtain ⟨leftFree, rightFree, _⟩ := checkDisjoint_eq_ok_iff.mp disjoint
  constructor
  · rw [freeSymbols_mul, List.filter_append]
    refine List.nodup_append.mpr ⟨first.free.filter _, second.free.filter _, ?_⟩
    intro s onLeft t onRight same
    subst same
    obtain ⟨atLeft, kept⟩ := List.mem_filter.mp onLeft
    have atRight := (List.mem_filter.mp onRight).1
    have both : s ∈ left.freeSymbols.filter right.freeSymbols.contains :=
      List.mem_filter.mpr ⟨atLeft, List.contains_iff_mem.mpr atRight⟩
    rw [List.contains_iff_mem.mpr both] at kept
    cases kept
  · intro s isFree isUsed
    change s ∈ left.used ++ right.used ++ FreeIndex.symbols (shared left right) at isUsed
    rw [symbols_shared] at isUsed
    obtain ⟨operand, once⟩ := mem_freeSymbols_mul.mp isFree
    rcases List.mem_append.mp isUsed with summed | contracted
    · rcases operand with onLeft | onRight
      · rcases List.mem_append.mp summed with usedLeft | usedRight
        · exact first.apart s onLeft usedLeft
        · exact leftFree s onLeft usedRight
      · rcases List.mem_append.mp summed with usedLeft | usedRight
        · exact rightFree s onRight usedLeft
        · exact second.apart s onRight usedRight
    · simp only [List.mem_filter, List.contains_iff_mem] at contracted
      exact once contracted

theorem wellIndexed_mul {left right e : Expression α} (first : left.WellIndexed)
    (second : right.WellIndexed) (accepted : mul left right = .ok e) : e.WellIndexed := by
  have separated := separated_mul first.separated second.separated accepted
  obtain ⟨disjoint, _, summedDims, _, rfl⟩ := mul_eq_ok_iff.mp accepted
  obtain ⟨_, _, bothUsed⟩ := checkDisjoint_eq_ok_iff.mp disjoint
  refine ⟨separated.free, ?_, separated.apart⟩
  show (left.used ++ right.used ++ FreeIndex.symbols (shared left right)).Nodup
  rw [symbols_shared]
  refine List.nodup_append.mpr ⟨List.nodup_append.mpr ⟨first.used, second.used, ?_⟩,
    first.free.filter _, ?_⟩
  · intro s onLeft t onRight same
    exact bothUsed s onLeft (same ▸ onRight)
  · intro s summed t both same
    subst same
    simp only [List.mem_filter, List.contains_iff_mem] at both
    rcases List.mem_append.mp summed with onLeft | onRight
    · exact first.apart s both.1 onLeft
    · exact second.apart s both.2 onRight

theorem wellIndexed_combine {left right e : Expression α} {isDifference : Bool}
    (first : left.WellIndexed) (second : right.WellIndexed)
    (accepted : combine left right isDifference = .ok e) : e.WellIndexed := by
  obtain ⟨positions, aligned, rfl⟩ := combine_eq_ok_iff.mp accepted
  have same : right.freeSymbols.Perm left.freeSymbols :=
    (FreeIndex.perm_of_align second.free aligned).map FreeIndex.symbol
  constructor
  · exact first.free
  · show (left.used ++ right.used.filter fun s => !left.used.contains s).Nodup
    refine List.nodup_append.mpr ⟨first.used, second.used.filter _, ?_⟩
    intro s onLeft t onRight equal
    subst equal
    have new := (List.mem_filter.mp onRight).2
    rw [List.contains_iff_mem.mpr onLeft] at new
    cases new
  · intro s isFree isUsed
    change s ∈ left.freeSymbols at isFree
    rcases List.mem_append.mp isUsed with onLeft | onRight
    · exact first.apart s isFree onLeft
    · exact second.apart s (same.mem_iff.mpr isFree) (List.mem_filter.mp onRight).1

theorem not_mem_of_mentions_eq_false {e : Expression α} {s : Symbol} (absent : e.mentions s = false) :
    s ∉ e.freeSymbols ∧ s ∉ e.used := by
  simpa [mentions] using absent

theorem filterMap_getElem?_range (free : List FreeIndex) :
    (List.range free.length).filterMap (fun position => free[position]?) = free := by
  induction free with
  | nil => rfl
  | cons index rest ih =>
      rw [List.length_cons, List.range_succ_eq_map, List.filterMap_cons, List.filterMap_map]
      simpa [Function.comp_def] using ih

theorem indicesAt_sublist {e : Expression α} {positions : List Nat}
    (ascending : positions.Sublist (List.range e.free.length)) :
    (e.indicesAt positions).Sublist e.free := by
  have all := ascending.filterMap fun position => e.free[position]?
  rwa [filterMap_getElem?_range] at all

def keptSymbols (e : Expression α) (merged : List Nat) : IndexList :=
  FreeIndex.symbols (e.indicesAt
    ((List.range e.free.length).filter fun position => !merged.contains position))

theorem keptSymbols_sublist (e : Expression α) (merged : List Nat) :
    (e.keptSymbols merged).Sublist e.freeSymbols :=
  (indicesAt_sublist List.filter_sublist).map FreeIndex.symbol

theorem freeSymbols_bundling (e : Expression α) (merged mergedDims : List Nat) (target : Space)
    (result : Symbol) (isProduct : Bool) :
    (bundled e (e.bundling merged mergedDims target result isProduct)).freeSymbols =
      e.keptSymbols merged ++ [result] := by
  simp [freeSymbols, Expression.free, bundling, keptSymbols, FreeIndex.symbols]

theorem nodup_bundling {e : Expression α} (distinct : e.freeSymbols.Nodup) (merged mergedDims : List Nat)
    (target : Space) {result : Symbol} (isProduct : Bool) (new : result ∉ e.freeSymbols) :
    (bundled e (e.bundling merged mergedDims target result isProduct)).freeSymbols.Nodup := by
  have kept := e.keptSymbols_sublist merged
  rw [freeSymbols_bundling]
  refine List.nodup_append.mpr ⟨kept.nodup distinct, List.nodup_singleton result, ?_⟩
  intro s old t last same
  rw [List.mem_singleton.mp last] at same
  exact new (same ▸ kept.mem old)

theorem wellIndexed_bundle {e b : Expression α} {symbols : IndexList} {target : Space} {result : Symbol}
    (operand : e.WellIndexed) (accepted : bundle e symbols target result = .ok b) : b.WellIndexed := by
  obtain ⟨_, _, new, merged, _, _, isProduct, _, mergedDims, _, rfl⟩ := bundle_eq_ok_iff.mp accepted
  obtain ⟨notFree, notUsed⟩ := not_mem_of_mentions_eq_false new
  have kept := e.keptSymbols_sublist merged
  constructor
  · exact nodup_bundling operand.free merged mergedDims target isProduct notFree
  · exact operand.used
  · intro s isFree isUsed
    rw [freeSymbols_bundling] at isFree
    rcases List.mem_append.mp isFree with old | last
    · exact operand.apart s (kept.mem old) isUsed
    · rw [List.mem_singleton.mp last] at isUsed
      exact notUsed isUsed

theorem freeSymbols_splitting {e : Expression α} {position : Nat} {source : Space} {symbols : IndexList}
    {factors : List Space} (same : symbols.length = factors.length) :
    (split e (e.splitting position source symbols factors)).freeSymbols =
      e.freeSymbols.take position ++ symbols ++ e.freeSymbols.drop (position + 1) := by
  have names := FreeIndex.symbols_zipWith_mk same
  unfold FreeIndex.symbols at names
  simp [freeSymbols, Expression.free, splitting, FreeIndex.symbols, names, List.map_take, List.map_drop]

section Split

variable {e : Expression α} {position : Nat} {source : Space} {symbols : IndexList} {factors : List Space}

theorem freeSymbols_splitting_perm (same : symbols.length = factors.length) :
    (split e (e.splitting position source symbols factors)).freeSymbols.Perm
      (symbols ++ (e.freeSymbols.take position ++ e.freeSymbols.drop (position + 1))) := by
  rw [freeSymbols_splitting same, ← List.append_assoc]
  exact List.Perm.append_right _ List.perm_append_comm

theorem unsplit_sublist (e : Expression α) (position : Nat) :
    (e.freeSymbols.take position ++ e.freeSymbols.drop (position + 1)).Sublist e.freeSymbols := by
  conv_rhs => rw [← List.take_append_drop position e.freeSymbols]
  apply List.Sublist.append (List.Sublist.refl _)
  exact (List.drop_sublist_drop_left _ (Nat.le_succ position))

theorem nodup_splitting (distinct : e.freeSymbols.Nodup) (same : symbols.length = factors.length)
    (apart : symbols.Nodup) (new : ∀ s ∈ symbols, e.mentions s = false) :
    (split e (e.splitting position source symbols factors)).freeSymbols.Nodup := by
  have rest := e.unsplit_sublist position
  rw [(freeSymbols_splitting_perm same).nodup_iff]
  refine List.nodup_append.mpr ⟨apart, rest.nodup distinct, ?_⟩
  intro s given t old equal
  exact (not_mem_of_mentions_eq_false (new s given)).1 (equal ▸ rest.mem old)

theorem wellIndexed_splitAt {b : Expression α} {source : Symbol} (operand : e.WellIndexed)
    (accepted : splitAt e source symbols = .ok b) : b.WellIndexed := by
  obtain ⟨position, index, factors, _, _, _, _, same, distinct, new, rfl⟩ :=
    splitAt_eq_ok_iff.mp accepted
  constructor
  · exact nodup_splitting operand.free same distinct new
  · exact operand.used
  · intro s isFree isUsed
    rw [(freeSymbols_splitting_perm same).mem_iff] at isFree
    rcases List.mem_append.mp isFree with given | old
    · exact (not_mem_of_mentions_eq_false (new s given)).2 isUsed
    · exact operand.apart s ((e.unsplit_sublist position).mem old) isUsed

end Split

def symbols (e : Expression α) : IndexList := e.freeSymbols ++ e.used

theorem wellIndexed_rename {e r : Expression α} {source target : IndexList} {serial next : Nat}
    (known : ∀ s ∈ e.symbols, s.Before serial) (targets : ∀ s ∈ target, s.Before serial)
    (accepted : rename e source target serial = .ok (r, next)) :
    r.WellIndexed ∧ serial ≤ next ∧ ∀ s ∈ r.symbols, s.Before next := by
  obtain ⟨_, _, _, distinct, used, outcome, rfl⟩ := rename_eq_ok_iff.mp accepted
  have before (s : Symbol) (present : s ∈ e.symbols) :
      (IndexList.substitute source target s).Before serial :=
    IndexList.substitute_before (known s present) targets
  have freeBefore : ∀ s ∈ e.freeSymbols.map (IndexList.substitute source target), s.Before serial := by
    intro s present
    obtain ⟨t, old, rfl⟩ := List.mem_map.mp present
    exact before t (List.mem_append_left _ old)
  obtain ⟨usedDistinct, apart, grown, usedBefore⟩ := renameUsed_spec
    (IndexList.substitute source target) _ e.used serial freeBefore
    fun s present => before s (List.mem_append_right _ present)
  rw [outcome] at usedDistinct apart grown usedBefore
  have free : (renamed e (FreeIndex.rename (IndexList.substitute source target) e.free) used).freeSymbols =
      e.freeSymbols.map (IndexList.substitute source target) := FreeIndex.symbols_rename _ _
  refine ⟨⟨?_, usedDistinct, ?_⟩, grown, ?_⟩
  · rw [free]
    exact distinct
  · intro s isFree isUsed
    rw [free] at isFree
    exact apart s isUsed isFree
  · intro s present
    rcases List.mem_append.mp present with isFree | isUsed
    · rw [free] at isFree
      exact (freeBefore s isFree).mono grown
    · exact usedBefore s isUsed

end Expression

end IndexNotation
