import IndexNotation.Proofs.Expression.Session
import IndexNotation.Expression.Component

namespace IndexNotation

variable {α : Type}

namespace IndexList

theorem substitute_of_not_mem {source target : IndexList} {s : Symbol} (absent : s ∉ source) :
    substitute source target s = s := by
  have missing : (source.zip target).lookup s = none := by
    rw [List.lookup_eq_none_iff]
    intro pair present
    have inSource := (List.of_mem_zip present).1
    simp only [bne_iff_ne, ne_eq]
    exact fun same => absent (same ▸ inSource)
  simp [substitute, missing]

theorem substitute_getElem {source target : IndexList} (distinct : source.Nodup) {k : Nat}
    (inSource : k < source.length) (inTarget : k < target.length) :
    substitute source target source[k] = target[k] := by
  induction source generalizing target k with
  | nil => exact absurd inSource (Nat.not_lt_zero k)
  | cons s rest ih =>
      obtain ⟨fresh, distinct⟩ := List.nodup_cons.mp distinct
      cases target with
      | nil => exact absurd inTarget (Nat.not_lt_zero k)
      | cons t targets =>
          cases k with
          | zero => simp [substitute]
          | succ k =>
              have within := Nat.lt_of_succ_lt_succ inSource
              have other : rest[k] ≠ s := fun same => fresh (same ▸ List.getElem_mem within)
              have later := ih distinct within (Nat.lt_of_succ_lt_succ inTarget)
              simpa [substitute, List.lookup_cons, beq_false_of_ne other] using later

/-- The exchanged lists lead a renamed symbol back, unless its own name was given to another one of those
renamed together with it. -/
theorem substitute_substitute {source target symbols : IndexList} (same : source.length = target.length)
    (sources : source.Nodup) (targets : target.Nodup) (within : ∀ s ∈ source, s ∈ symbols)
    (apart : (symbols.map (substitute source target)).Nodup) {s : Symbol} (present : s ∈ symbols) :
    substitute target source (substitute source target s) = s := by
  by_cases replaced : s ∈ source
  · obtain ⟨k, inSource, rfl⟩ := List.getElem_of_mem replaced
    have inTarget : k < target.length := same ▸ inSource
    rw [substitute_getElem sources inSource inTarget, substitute_getElem targets inTarget inSource]
  · rw [substitute_of_not_mem replaced]
    -- A kept symbol that `target` names would be the new name of a second symbol.
    have kept : s ∉ target := by
      intro named
      obtain ⟨k, inTarget, rfl⟩ := List.getElem_of_mem named
      have inSource : k < source.length := same ▸ inTarget
      have clash : substitute source target source[k] = substitute source target target[k] := by
        rw [substitute_getElem sources inSource inTarget, substitute_of_not_mem replaced]
      have equal := List.inj_on_of_nodup_map apart (within _ (List.getElem_mem inSource)) present clash
      exact replaced (equal ▸ List.getElem_mem inSource)
    exact substitute_of_not_mem kept

end IndexList

namespace FreeIndex

theorem rename_rename (first second : Symbol → Symbol) (free : List FreeIndex) :
    rename second (rename first free) = rename (second ∘ first) free := by
  simp [rename, Function.comp_def]

theorem rename_eq_self {substitute : Symbol → Symbol} {free : List FreeIndex}
    (fixed : ∀ s ∈ symbols free, substitute s = s) : rename substitute free = free := by
  have unchanged : ∀ index ∈ free, { index with symbol := substitute index.symbol } = index := by
    intro index present
    rw [fixed index.symbol (List.mem_map_of_mem present)]
  exact (List.map_congr_left unchanged).trans (List.map_id free)

end FreeIndex

namespace Expression

@[simp] theorem length_renameUsed (rename : Symbol → Symbol) (taken used : IndexList) (serial : Nat) :
    (renameUsed rename taken used serial).1.length = used.length := by
  induction used generalizing taken serial with
  | nil => rfl
  | cons s rest ih => by_cases clash : rename s ∈ taken <;> simp [renameUsed, clash, ih]

theorem le_renameUsed (rename : Symbol → Symbol) (taken used : IndexList) (serial : Nat) :
    serial ≤ (renameUsed rename taken used serial).2 := by
  induction used generalizing taken serial with
  | nil => exact Nat.le_refl serial
  | cons s rest ih =>
      by_cases clash : rename s ∈ taken
      · simp only [renameUsed, clash, if_true]
        exact Nat.le_of_succ_le (ih _ (serial + 1))
      · simp only [renameUsed, clash, if_false]
        exact ih _ serial

/-- What becomes of the summed symbol `u`: its new name, or where that is taken already, a symbol with a
serial number from `serial` on and below `next`. -/
def Resolves (rename : Symbol → Symbol) (taken : IndexList) (serial next : Nat) (u t : Symbol) : Prop :=
  if rename u ∈ taken then ∃ n, serial ≤ n ∧ n < next ∧ t = .fresh n else t = rename u

/-- The place of a summed symbol decides what is taken: the names given at first, and those of the summed
symbols before it. -/
theorem renameUsed_getElem? (rename : Symbol → Symbol) (taken used : IndexList) (serial : Nat) {k : Nat}
    {u : Symbol} (place : used[k]? = some u) :
    ∃ t, (renameUsed rename taken used serial).1[k]? = some t ∧
      Resolves rename (taken ++ (renameUsed rename taken used serial).1.take k) serial
        (renameUsed rename taken used serial).2 u t := by
  induction used generalizing taken serial k with
  | nil => cases place
  | cons s rest ih =>
      by_cases clash : rename s ∈ taken
      · have more := le_renameUsed rename (.fresh serial :: taken) rest (serial + 1)
        simp only [renameUsed, clash, if_true]
        cases k with
        | zero =>
            obtain rfl : s = u := by simpa using place
            refine ⟨.fresh serial, rfl, ?_⟩
            simp only [Resolves, List.take_zero, List.append_nil, clash, if_true]
            exact ⟨serial, Nat.le_refl serial, more, rfl⟩
        | succ k =>
            obtain ⟨t, found, resolved⟩ := ih (.fresh serial :: taken) (serial + 1) (k := k) place
            refine ⟨t, by simpa using found, ?_⟩
            simp only [Resolves, List.take_succ_cons, List.mem_append, List.mem_cons] at resolved ⊢
            grind
      · simp only [renameUsed, clash, if_false]
        cases k with
        | zero =>
            obtain rfl : s = u := by simpa using place
            refine ⟨rename s, rfl, ?_⟩
            simp only [Resolves, List.take_zero, List.append_nil, clash, if_false]
        | succ k =>
            obtain ⟨t, found, resolved⟩ := ih (rename s :: taken) serial (k := k) place
            refine ⟨t, by simpa using found, ?_⟩
            simp only [Resolves, List.take_succ_cons, List.mem_append, List.mem_cons] at resolved ⊢
            grind

theorem rename_cases (e : Expression α) (source target : IndexList) (serial : Nat) :
    (∃ r next, e.rename source target serial = .ok (r, next)) ∨
      ∃ refusal, e.rename source target serial = refuse refusal := by
  unfold rename
  simp only [FreeIndex.symbols_rename]
  by_cases same : source.length = target.length
  · cases source.firstRepeat <|> target.firstRepeat with
    | some s => exact Or.inr ⟨.duplicateFreeIndex s, by simp [same]⟩
    | none =>
        cases IndexList.firstRepeat
            ((FreeIndex.symbols e.free).map (IndexList.substitute source target)) with
        | some s => exact Or.inr ⟨.duplicateFreeIndex s, by simp [same]⟩
        | none => exact Or.inl ⟨_, _, by simp only [same, ne_eq, not_true, if_false]; rfl⟩
  · exact Or.inr ⟨.lengthMismatch source.length target.length, by simp [same]⟩

theorem reindex_run (e : Expression α) (source target : IndexList) (store : Store α) :
    e.reindex source target store =
      match e.rename source target store.nextSymbol with
      | .ok (r, next) => (.ok r, { store with nextSymbol := next })
      | .error fault => (.error fault, store) := by
  change ((StoreM.ofExcept (e.rename source target store.nextSymbol) >>= fun made => do
    modify fun store => { store with nextSymbol := made.2 }
    return made.1 : StoreM α (Expression α)) store) = _
  rw [StoreM.bind_run, StoreM.ofExcept_run]
  cases e.rename source target store.nextSymbol with
  | error fault => rfl
  | ok made => rfl

theorem exists_rename_iff {e : Expression α} {source target : IndexList} {serial : Nat} :
    (∃ r next, e.rename source target serial = .ok (r, next)) ↔
      source.length = target.length ∧ source.Nodup ∧ target.Nodup ∧
        (e.freeSymbols.map (IndexList.substitute source target)).Nodup := by
  constructor
  · intro made
    obtain ⟨r, next, accepted⟩ := made
    obtain ⟨same, sources, targets, apart, _⟩ := rename_eq_ok_iff.mp accepted
    exact ⟨same, sources, targets, apart⟩
  · intro fit
    obtain ⟨same, sources, targets, apart⟩ := fit
    exact ⟨_, _, rename_eq_ok_iff.mpr ⟨same, sources, targets, apart, _, rfl, rfl⟩⟩

theorem free_rename {e r : Expression α} {source target : IndexList} {serial next : Nat}
    (accepted : e.rename source target serial = .ok (r, next)) :
    r.free = FreeIndex.rename (IndexList.substitute source target) e.free := by
  obtain ⟨_, _, _, _, used, _, rfl⟩ := rename_eq_ok_iff.mp accepted
  rfl

theorem component_rename [Scalar α] {e r : Expression α} {source target : IndexList} {serial next : Nat}
    (accepted : e.rename source target serial = .ok (r, next)) (values : List Nat) :
    r.component values = e.component values := by
  obtain ⟨_, _, _, _, used, _, rfl⟩ := rename_eq_ok_iff.mp accepted
  rfl

theorem length_used_rename {e r : Expression α} {source target : IndexList} {serial next : Nat}
    (accepted : e.rename source target serial = .ok (r, next)) : r.used.length = e.used.length := by
  obtain ⟨_, _, _, _, used, outcome, rfl⟩ := rename_eq_ok_iff.mp accepted
  have length := length_renameUsed (IndexList.substitute source target)
    (e.freeSymbols.map (IndexList.substitute source target)) e.used serial
  rwa [outcome] at length

/-- The summed symbol at place `k` takes its new name, or if that is free or stands at an earlier place, one
handed out during the renaming. -/
theorem used_rename_getElem? {e r : Expression α} {source target : IndexList} {serial next : Nat}
    (met : ∀ s ∈ e.symbols ++ target, s.Before serial)
    (accepted : e.rename source target serial = .ok (r, next)) {k : Nat} {u : Symbol}
    (place : e.used[k]? = some u) :
    ∃ t, r.used[k]? = some t ∧
      if IndexList.substitute source target u ∈ r.freeSymbols ∨
          IndexList.substitute source target u ∈ r.used.take k then
        ¬ t.Before serial ∧ t.Before next ∧ t ∉ r.freeSymbols ∧ t ∉ r.used.take k
      else t = IndexList.substitute source target u := by
  have known : ∀ s ∈ e.symbols, s.Before serial := fun s present => met s (List.mem_append_left _ present)
  have targets : ∀ s ∈ target, s.Before serial := fun s present => met s (List.mem_append_right _ present)
  obtain ⟨indexed, _, _⟩ := wellIndexed_rename known targets accepted
  obtain ⟨_, _, _, _, used, outcome, rfl⟩ := rename_eq_ok_iff.mp accepted
  have free : (renamed e (FreeIndex.rename (IndexList.substitute source target) e.free) used).freeSymbols =
      e.freeSymbols.map (IndexList.substitute source target) := FreeIndex.symbols_rename _ _
  obtain ⟨t, found, resolved⟩ := renameUsed_getElem? (IndexList.substitute source target)
    (e.freeSymbols.map (IndexList.substitute source target)) e.used serial place
  rw [outcome, ← free] at resolved
  rw [outcome] at found
  refine ⟨t, found, ?_⟩
  obtain ⟨within, here⟩ := List.getElem?_eq_some_iff.mp found
  have inUsed : t ∈ used := here ▸ List.getElem_mem within
  simp only [Resolves, List.mem_append] at resolved
  split at resolved
  · rename_i taken
    obtain ⟨n, since, below, rfl⟩ := resolved
    refine (if_pos taken).mpr ⟨Nat.not_lt.mpr since, below, fun isFree => indexed.apart _ isFree inUsed, ?_⟩
    -- The summed symbols are distinct, so the one at `k` is none of those before it.
    intro earlier
    obtain ⟨j, short, same⟩ := List.getElem_of_mem earlier
    rw [List.getElem_take] at same
    have before : j < k := by
      rw [List.length_take] at short
      omega
    have equal := (indexed.used.getElem_inj_iff (i := j) (j := k)).mp (same.trans here.symm)
    omega
  · rename_i available
    exact (if_neg available).mpr resolved

theorem exists_rename_back {e r : Expression α} {source target : IndexList} {serial next : Nat}
    (within : ∀ s ∈ source, s ∈ e.freeSymbols)
    (accepted : e.rename source target serial = .ok (r, next)) :
    ∃ back last, r.rename target source next = .ok (back, last) ∧ back.free = e.free := by
  obtain ⟨same, sources, targets, apart, used, _, rfl⟩ := rename_eq_ok_iff.mp accepted
  have fixed : ∀ s ∈ e.freeSymbols,
      (IndexList.substitute target source ∘ IndexList.substitute source target) s = s :=
    fun s present => IndexList.substitute_substitute same sources targets within apart present
  have free : FreeIndex.rename (IndexList.substitute target source)
      (FreeIndex.rename (IndexList.substitute source target) e.free) = e.free := by
    rw [FreeIndex.rename_rename, FreeIndex.rename_eq_self fixed]
  have symbols : (renamed e (FreeIndex.rename (IndexList.substitute source target) e.free) used).freeSymbols.map
      (IndexList.substitute target source) = e.freeSymbols := by
    exact (FreeIndex.symbols_rename _ _).symm.trans (congrArg FreeIndex.symbols free)
  obtain ⟨back, last, made⟩ := exists_rename_iff.mpr
    ⟨same.symm, targets, sources, symbols ▸ apart.of_map _⟩
  refine ⟨back, last, made, ?_⟩
  obtain ⟨_, _, _, _, _, _, rfl⟩ := rename_eq_ok_iff.mp made
  exact free

/-- A renaming is accepted exactly when the lists have equal lengths, neither repeats a symbol, and the free
symbols stay distinct. The free indices then stand where they stood, under their new names, and no component
changes. A summed symbol takes its new name, too, unless that is free in the result or summed before it: then
it gives way to a symbol that has never been met. When all old names are free, exchanging the lists brings
back the free indices, also where a new name was one of the summed symbols. -/
theorem reindex_accepted_and_undone [Scalar α] (e : Expression α) (source target : IndexList)
    (store : Store α) :
    let substitute := IndexList.substitute source target
    ((∃ r later, e.reindex source target store = (.ok r, later)) ↔
        source.length = target.length ∧ source.Nodup ∧ target.Nodup ∧
          (e.freeSymbols.map substitute).Nodup) ∧
      ((∃ r later, e.reindex source target store = (.ok r, later)) ∨
        ∃ refusal, e.reindex source target store = (refuse refusal, store)) ∧
      ∀ r later, e.reindex source target store = (.ok r, later) →
        r.free = e.free.map (fun index => ⟨substitute index.symbol, index.factor⟩) ∧
        (∀ values, r.component values = e.component values) ∧
        r.used.length = e.used.length ∧
        ((∀ s ∈ e.symbols ++ target, s.Before store.nextSymbol) →
          ∀ k u, e.used[k]? = some u → ∃ t, r.used[k]? = some t ∧
          if substitute u ∈ r.freeSymbols ∨ substitute u ∈ r.used.take k then
            ¬ t.Before store.nextSymbol ∧ t.Before later.nextSymbol ∧
              t ∉ r.freeSymbols ∧ t ∉ r.used.take k
          else t = substitute u) ∧
        ((∀ s ∈ source, s ∈ e.freeSymbols) → ∃ back last,
          r.reindex target source later = (.ok back, last) ∧ back.free = e.free ∧
            ∀ values, back.component values = e.component values) := by
  intro substitute
  have run := reindex_run e source target store
  rcases rename_cases e source target store.nextSymbol with ⟨made, next, accepted⟩ | ⟨refusal, refused⟩
  · rw [accepted] at run
    refine ⟨iff_of_true ⟨_, _, run⟩ (exists_rename_iff.mp ⟨_, _, accepted⟩), Or.inl ⟨_, _, run⟩, ?_⟩
    intro r later ran
    cases run.symm.trans ran
    have components := component_rename accepted
    refine ⟨free_rename accepted, components, length_used_rename accepted,
      fun met k u place => used_rename_getElem? met accepted place, ?_⟩
    intro within
    obtain ⟨back, last, undone, free⟩ := exists_rename_back within accepted
    refine ⟨back, { store with nextSymbol := last }, ?_, free, ?_⟩
    · rw [reindex_run, undone]
    · intro values
      rw [component_rename undone, components]
  · rw [refused] at run
    have failed : ∀ r later, e.reindex source target store ≠ (.ok r, later) := by
      intro r later ran
      cases run.symm.trans ran
    refine ⟨iff_of_false ?_ ?_, Or.inr ⟨refusal, run⟩, fun r later ran => absurd ran (failed r later)⟩
    · intro made
      obtain ⟨r, later, ran⟩ := made
      exact failed r later ran
    · intro fit
      obtain ⟨r, next, accepted⟩ := exists_rename_iff.mpr fit
      cases refused.symm.trans accepted

/-- The product of two matrices of zeros, renamed onto the symbol that it sums: the summed symbol gives way
to a fresh one, and exchanging the lists brings the free symbols back. -/
theorem reindex_accepted_and_undone_onto_summed :
    let plane : Space := .standard 2 "X"
    let matrix : Tensor (Bounded .signed32) := ⟨.tensorProduct [plane, plane.dual], .generated (.zero 4)⟩
    let named (row column : Symbol) : Expression (Bounded .signed32) :=
      .indexed { tensor := matrix, free := [⟨row, plane⟩, ⟨column, plane.dual⟩], used := []
                 slots := [.free 0, .free 1], slotDims := [2, 2], summedDims := [] }
    let left := named (.letter 'i') (.letter 'j')
    let right := named (.letter 'j') (.letter 'k')
    let product := Expression.product left right (Expression.contraction left right [2])
    ∃ r later back last,
      product.reindex [.letter 'i', .letter 'k'] [.letter 'l', .letter 'j'] Store.empty = (.ok r, later) ∧
        r.freeSymbols = [.letter 'l', .letter 'j'] ∧
        (∃ t, r.used[0]? = some t ∧ ¬ t.Before 0 ∧ t.Before later.nextSymbol) ∧
        r.reindex [.letter 'l', .letter 'j'] [.letter 'i', .letter 'k'] later = (.ok back, last) ∧
        back.free = product.free := by
  intro plane matrix named left right product
  have met : ∀ s ∈ product.symbols ++ [.letter 'l', .letter 'j'],
      s.Before (Store.empty (α := Bounded .signed32)).nextSymbol := by
    have symbols : product.symbols = [.letter 'i', .letter 'k', .letter 'j'] := rfl
    simp [symbols, Symbol.Before]
  obtain ⟨_, _, spec⟩ :=
    reindex_accepted_and_undone product [.letter 'i', .letter 'k'] [.letter 'l', .letter 'j'] Store.empty
  obtain ⟨_, _, _, summed, undone⟩ := spec _ _ rfl
  obtain ⟨t, found, new⟩ := summed met 0 (.letter 'j') rfl
  obtain ⟨back, last, accepted, free, _⟩ := undone (by decide)
  obtain ⟨fresh, drawn, _⟩ := (if_pos (Or.inl (by decide))).mp new
  exact ⟨_, _, back, last, rfl, rfl, ⟨t, found, fresh, drawn⟩, accepted, free⟩

end Expression

end IndexNotation
