import IndexNotation.Proofs.Expression.WellIndexed
import IndexNotation.Proofs.Store
import IndexNotation.Scalar.Integer
import Mathlib.Logic.Relation
/-!
Sessions: expressions made one after another, each from a tensor or from expressions made before. Fresh
symbols are handed out in order, and a call names only symbols that the caller can have: letters, and
fresh symbols already handed out. Then every expression made is well-indexed.
-/
namespace IndexNotation

variable {α : Type}

inductive Call (α : Type) where
  | index (tensor : Tensor α) (symbols : IndexList)
  | mul (left right : Expression α)
  | add (left right : Expression α)
  | sub (left right : Expression α)
  | scaledBy (operand : Expression α) (x : α)
  | dividedBy (operand : Expression α) (x : α)
  | negate (operand : Expression α)
  | bundle (operand : Expression α) (symbols : IndexList) (target : Space) (result : Symbol)
  | splitAt (operand : Expression α) (source : Symbol) (symbols : IndexList)
  | reindex (operand : Expression α) (source target : IndexList)
  | eval (operand : Expression α)

namespace Call

def operands : Call α → List (Expression α)
  | index _ _ => []
  | mul left right | add left right | sub left right => [left, right]
  | scaledBy operand _ | dividedBy operand _ | negate operand | bundle operand _ _ _
  | splitAt operand _ _ | reindex operand _ _ | eval operand => [operand]

def written : Call α → IndexList
  | index _ symbols => symbols
  | bundle _ symbols _ result => result :: symbols
  | splitAt _ source symbols => source :: symbols
  | reindex _ source target => source ++ target
  | mul .. | add .. | sub .. | scaledBy .. | dividedBy .. | negate _ | eval _ => []

def run : Call α → StoreM α (Expression α)
  | index tensor symbols => .ofExcept (Expression.index tensor symbols)
  | mul left right => .ofExcept (Expression.mul left right)
  | add left right => .ofExcept (Expression.add left right)
  | sub left right => .ofExcept (Expression.sub left right)
  | scaledBy operand x => .ofExcept (.ok (operand.scaledBy x))
  | dividedBy operand x => .ofExcept (.ok (operand.dividedBy x))
  | negate operand => .ofExcept (.ok operand.negate)
  | bundle operand symbols target result => .ofExcept (operand.bundle symbols target result)
  | splitAt operand source symbols => .ofExcept (operand.splitAt source symbols)
  | reindex operand source target => operand.reindex source target
  | eval operand => operand.eval

end Call

structure Session (α : Type) where
  store : Store α
  made : List (Expression α)

structure Store.Grown (earlier later : Store α) : Prop where
  symbols : earlier.nextSymbol ≤ later.nextSymbol
  caches : earlier.scratch.caches.size ≤ later.scratch.caches.size

inductive Session.Step : Session α → Session α → Prop
  | call {session : Session α} {e : Expression α} {store : Store α} (c : Call α)
      (operands : ∀ o ∈ c.operands, o ∈ session.made)
      (written : ∀ s ∈ c.written, s.Before session.store.nextSymbol)
      (accepted : c.run session.store = (.ok e, store)) : Step session ⟨store, e :: session.made⟩
  /-- Between two calls memory is written, caches are filled and fresh symbols are handed out. -/
  | elsewhere {session : Session α} {store : Store α} (grown : session.store.Grown store) :
      Step session ⟨store, session.made⟩

theorem Store.Grown.refl (store : Store α) : store.Grown store :=
  ⟨Nat.le_refl _, Nat.le_refl _⟩

namespace Expression

theorem symbols_index {tensor : Tensor α} {symbols : IndexList} {e : Expression α}
    (accepted : index tensor symbols = .ok e) : ∀ s ∈ e.symbols, s ∈ symbols := by
  obtain ⟨leaf, made, rfl⟩ := index_eq_ok_iff.mp accepted
  obtain ⟨factors, indexed, _, _, _, _, _, rfl⟩ := Leaf.make_eq_ok_iff.mp made
  have free := Leaf.symbols_single (Space.indexedFactors_length indexed)
  intro s present
  rcases List.mem_append.mp present with single | doubled
  · change s ∈ FreeIndex.symbols (Leaf.single symbols factors) at single
    rw [free] at single
    exact (List.mem_filter.mp single).1
  · exact (List.mem_filter.mp (List.mem_eraseDups.mp doubled)).1

theorem symbols_mul {left right e : Expression α} (accepted : mul left right = .ok e) :
    ∀ s ∈ e.symbols, s ∈ left.symbols ∨ s ∈ right.symbols := by
  obtain ⟨_, _, summedDims, _, rfl⟩ := mul_eq_ok_iff.mp accepted
  intro s present
  simp only [symbols, List.mem_append]
  rcases List.mem_append.mp present with isFree | isUsed
  · rw [freeSymbols_mul] at isFree
    rcases List.mem_append.mp (List.mem_filter.mp isFree).1 with onLeft | onRight
    · exact Or.inl (Or.inl onLeft)
    · exact Or.inr (Or.inl onRight)
  · change s ∈ left.used ++ right.used ++ FreeIndex.symbols (shared left right) at isUsed
    rw [symbols_shared] at isUsed
    rcases List.mem_append.mp isUsed with summed | contracted
    · rcases List.mem_append.mp summed with onLeft | onRight
      · exact Or.inl (Or.inr onLeft)
      · exact Or.inr (Or.inr onRight)
    · exact Or.inl (Or.inl (List.mem_filter.mp contracted).1)

theorem symbols_combine {left right e : Expression α} {isDifference : Bool}
    (accepted : combine left right isDifference = .ok e) :
    ∀ s ∈ e.symbols, s ∈ left.symbols ∨ s ∈ right.symbols := by
  obtain ⟨positions, _, rfl⟩ := combine_eq_ok_iff.mp accepted
  intro s present
  simp only [symbols, List.mem_append]
  rcases List.mem_append.mp present with isFree | isUsed
  · exact Or.inl (Or.inl isFree)
  · rcases List.mem_append.mp isUsed with onLeft | onRight
    · exact Or.inl (Or.inr onLeft)
    · exact Or.inr (Or.inr (List.mem_filter.mp onRight).1)

theorem symbols_bundle {e b : Expression α} {symbols : IndexList} {target : Space} {result : Symbol}
    (accepted : bundle e symbols target result = .ok b) :
    ∀ s ∈ b.symbols, s ∈ e.symbols ∨ s = result := by
  obtain ⟨_, _, _, merged, _, _, isProduct, _, mergedDims, _, rfl⟩ := bundle_eq_ok_iff.mp accepted
  intro s present
  rcases List.mem_append.mp present with isFree | isUsed
  · rw [freeSymbols_bundling] at isFree
    rcases List.mem_append.mp isFree with old | last
    · exact Or.inl (List.mem_append_left _ ((e.keptSymbols_sublist merged).mem old))
    · exact Or.inr (List.mem_singleton.mp last)
  · exact Or.inl (List.mem_append_right _ isUsed)

theorem symbols_splitAt {e b : Expression α} {source : Symbol} {symbols : IndexList}
    (accepted : splitAt e source symbols = .ok b) : ∀ s ∈ b.symbols, s ∈ e.symbols ∨ s ∈ symbols := by
  obtain ⟨position, index, factors, _, _, _, _, same, _, _, rfl⟩ := splitAt_eq_ok_iff.mp accepted
  intro s present
  rcases List.mem_append.mp present with isFree | isUsed
  · rw [freeSymbols_splitting same] at isFree
    rcases List.mem_append.mp isFree with front | back
    · rcases List.mem_append.mp front with old | given
      · exact Or.inl (List.mem_append_left _ (List.mem_of_mem_take old))
      · exact Or.inr given
    · exact Or.inl (List.mem_append_left _ (List.mem_of_mem_drop back))
  · exact Or.inl (List.mem_append_right _ isUsed)

theorem reindex_eq_ok {e r : Expression α} {source target : IndexList} {store later : Store α}
    (accepted : reindex e source target store = (.ok r, later)) :
    ∃ next, e.rename source target store.nextSymbol = .ok (r, next) ∧
      later = { store with nextSymbol := next } := by
  unfold reindex at accepted
  obtain ⟨_, _, read, accepted⟩ := StoreM.bind_run_eq_ok_iff.mp accepted
  cases read
  obtain ⟨⟨result, next⟩, _, step, accepted⟩ := StoreM.bind_run_eq_ok_iff.mp accepted
  obtain ⟨renamed, rfl⟩ := Prod.mk.inj step
  obtain ⟨_, _, counted, done⟩ := StoreM.bind_run_eq_ok_iff.mp accepted
  cases counted
  cases done
  exact ⟨next, renamed, rfl⟩

theorem eval_eq_ok {e r : Expression α} {store later : Store α} (accepted : eval e store = (.ok r, later)) :
    ∃ dims, e.freeDims = .ok dims ∧ r = .cached e store.scratch.caches.size dims ∧
      later = { store with scratch := { store.scratch with caches := store.scratch.caches.push none } } := by
  unfold eval at accepted
  obtain ⟨dims, _, step, accepted⟩ := StoreM.bind_run_eq_ok_iff.mp accepted
  obtain ⟨found, rfl⟩ := Prod.mk.inj step
  obtain ⟨_, _, added, done⟩ := StoreM.bind_run_eq_ok_iff.mp accepted
  cases added
  cases done
  exact ⟨dims, found, rfl, rfl⟩

end Expression

structure Expression.Ordered (next : Nat) (e : Expression α) : Prop where
  indexed : e.WellIndexed
  before : ∀ s ∈ e.symbols, s.Before next

namespace Expression.Ordered

theorem mono {next later : Nat} {e : Expression α} (ordered : e.Ordered next) (grown : next ≤ later) :
    e.Ordered later :=
  ⟨ordered.indexed, fun s present => (ordered.before s present).mono grown⟩

theorem index {next : Nat} {tensor : Tensor α} {symbols : IndexList} {e : Expression α}
    (written : ∀ s ∈ symbols, s.Before next) (accepted : Expression.index tensor symbols = .ok e) :
    e.Ordered next :=
  ⟨wellIndexed_index accepted, fun s present => written s (symbols_index accepted s present)⟩

theorem mul {next : Nat} {left right e : Expression α} (first : left.Ordered next)
    (second : right.Ordered next) (accepted : Expression.mul left right = .ok e) : e.Ordered next := by
  refine ⟨wellIndexed_mul first.indexed second.indexed accepted, ?_⟩
  intro s present
  rcases symbols_mul accepted s present with onLeft | onRight
  · exact first.before s onLeft
  · exact second.before s onRight

theorem combine {next : Nat} {left right e : Expression α} {isDifference : Bool}
    (first : left.Ordered next) (second : right.Ordered next)
    (accepted : Expression.combine left right isDifference = .ok e) : e.Ordered next := by
  refine ⟨wellIndexed_combine first.indexed second.indexed accepted, ?_⟩
  intro s present
  rcases symbols_combine accepted s present with onLeft | onRight
  · exact first.before s onLeft
  · exact second.before s onRight

theorem scaled {next : Nat} {e : Expression α} (operand : e.Ordered next) (scaling : Scaling α) :
    (Expression.scaled e scaling).Ordered next :=
  ⟨⟨operand.indexed.free, operand.indexed.used, operand.indexed.apart⟩, operand.before⟩

theorem bundle {next : Nat} {e b : Expression α} {symbols : IndexList} {target : Space}
    {result : Symbol} (operand : e.Ordered next) (written : result.Before next)
    (accepted : Expression.bundle e symbols target result = .ok b) : b.Ordered next := by
  refine ⟨wellIndexed_bundle operand.indexed accepted, ?_⟩
  intro s present
  rcases symbols_bundle accepted s present with old | new
  · exact operand.before s old
  · exact new ▸ written

theorem splitAt {next : Nat} {e b : Expression α} {source : Symbol} {symbols : IndexList}
    (operand : e.Ordered next) (written : ∀ s ∈ symbols, s.Before next)
    (accepted : Expression.splitAt e source symbols = .ok b) : b.Ordered next := by
  refine ⟨wellIndexed_splitAt operand.indexed accepted, ?_⟩
  intro s present
  rcases symbols_splitAt accepted s present with old | new
  · exact operand.before s old
  · exact written s new

theorem cached {next : Nat} {e : Expression α} (operand : e.Ordered next) (cache : Nat)
    (dims : List Nat) : (Expression.cached e cache dims).Ordered next :=
  ⟨⟨operand.indexed.free, operand.indexed.used, operand.indexed.apart⟩, operand.before⟩

end Expression.Ordered

/-- A call keeps to symbols that have been handed out when its operands and its caller do. -/
theorem Call.run_ordered {c : Call α} {e : Expression α} {store later : Store α}
    (operands : ∀ o ∈ c.operands, o.Ordered store.nextSymbol)
    (written : ∀ s ∈ c.written, s.Before store.nextSymbol)
    (accepted : c.run store = (.ok e, later)) : store.Grown later ∧ e.Ordered later.nextSymbol := by
  cases c with
  | index tensor symbols =>
      obtain ⟨made, rfl⟩ := StoreM.ofExcept_run_eq_ok accepted
      exact ⟨.refl _, .index written made⟩
  | mul left right =>
      obtain ⟨made, rfl⟩ := StoreM.ofExcept_run_eq_ok accepted
      have first := operands left (by simp [Call.operands])
      have second := operands right (by simp [Call.operands])
      exact ⟨.refl _, first.mul second made⟩
  | add left right =>
      obtain ⟨made, rfl⟩ := StoreM.ofExcept_run_eq_ok accepted
      have first := operands left (by simp [Call.operands])
      have second := operands right (by simp [Call.operands])
      exact ⟨.refl _, first.combine second made⟩
  | sub left right =>
      obtain ⟨made, rfl⟩ := StoreM.ofExcept_run_eq_ok accepted
      have first := operands left (by simp [Call.operands])
      have second := operands right (by simp [Call.operands])
      exact ⟨.refl _, first.combine second made⟩
  | scaledBy operand x =>
      cases accepted
      exact ⟨.refl _, (operands operand (by simp [Call.operands])).scaled (.times x)⟩
  | dividedBy operand x =>
      cases accepted
      exact ⟨.refl _, (operands operand (by simp [Call.operands])).scaled (.divided x)⟩
  | negate operand =>
      cases accepted
      exact ⟨.refl _, (operands operand (by simp [Call.operands])).scaled .negated⟩
  | bundle operand symbols target result =>
      obtain ⟨made, rfl⟩ := StoreM.ofExcept_run_eq_ok accepted
      have given := operands operand (by simp [Call.operands])
      exact ⟨.refl _, given.bundle (written result (by simp [Call.written])) made⟩
  | splitAt operand source symbols =>
      obtain ⟨made, rfl⟩ := StoreM.ofExcept_run_eq_ok accepted
      have given := operands operand (by simp [Call.operands])
      exact ⟨.refl _, given.splitAt (fun s present => written s (by simp [Call.written, present]))
        made⟩
  | reindex operand source target =>
      obtain ⟨next, renamed, rfl⟩ := Expression.reindex_eq_ok accepted
      obtain ⟨indexed, grown, before⟩ := Expression.wellIndexed_rename
        (operands operand (by simp [Call.operands])).before
        (fun s present => written s (by simp [Call.written, present])) renamed
      exact ⟨⟨grown, Nat.le_refl _⟩, indexed, before⟩
  | eval operand =>
      obtain ⟨dims, _, rfl, rfl⟩ := Expression.eval_eq_ok accepted
      refine ⟨⟨Nat.le_refl _, ?_⟩, (operands operand (by simp [Call.operands])).cached _ dims⟩
      simp

namespace Session

def Ordered (session : Session α) : Prop := ∀ e ∈ session.made, e.Ordered session.store.nextSymbol

theorem Step.ordered {session next : Session α} (step : Step session next)
    (ordered : session.Ordered) : next.Ordered := by
  cases step with
  | call c operands written accepted =>
      obtain ⟨grown, new⟩ := Call.run_ordered (fun o given => ordered o (operands o given)) written accepted
      intro e present
      rcases List.mem_cons.mp present with rfl | earlier
      · exact new
      · exact (ordered e earlier).mono grown.symbols
  | elsewhere grown => exact fun e present => (ordered e present).mono grown.symbols

theorem ordered_of_steps {session later : Session α} (steps : Relation.ReflTransGen Step session later)
    (ordered : session.Ordered) : later.Ordered := by
  induction steps with
  | refl => exact ordered
  | tail _ step ih => exact step.ordered ih

/-- Every expression made in a session has distinct free symbols and distinct used symbols, and none that
is both. -/
theorem symbols_apart_of_steps {store : Store α} {session : Session α}
    (steps : Relation.ReflTransGen Step ⟨store, []⟩ session) :
    ∀ e ∈ session.made, e.freeSymbols.Nodup ∧ e.used.Nodup ∧ ∀ s ∈ e.freeSymbols, s ∉ e.used := by
  have start : Session.Ordered (⟨store, []⟩ : Session α) := by
    intro e present
    cases present
  intro e present
  have indexed := (ordered_of_steps steps start e present).indexed
  exact ⟨indexed.free, indexed.used, indexed.apart⟩

theorem symbols_apart_of_steps_renamed :
    ∃ session : Session (Bounded .signed32), Relation.ReflTransGen Step ⟨Store.empty, []⟩ session ∧
      session.made.map (fun e => (e.freeSymbols, e.used)) =
        [([.letter 'i', .letter 'j'], [.fresh 0]), ([.letter 'i', .letter 'k'], [.letter 'j']),
          ([.letter 'j', .letter 'k'], []), ([.letter 'i', .letter 'j'], [])] ∧
      ∀ e ∈ session.made, e.freeSymbols.Nodup ∧ e.used.Nodup ∧ ∀ s ∈ e.freeSymbols, s ∉ e.used := by
  let plane : Space := .standard 2 "X"
  let matrix : Tensor (Bounded .signed32) := ⟨.tensorProduct [plane, plane.dual], .generated (.zero 4)⟩
  let named (row column : Symbol) : Expression (Bounded .signed32) :=
    .indexed { tensor := matrix, free := [⟨row, plane⟩, ⟨column, plane.dual⟩], used := []
               slots := [.free 0, .free 1], slotDims := [2, 2], summedDims := [] }
  let left := named (.letter 'i') (.letter 'j')
  let right := named (.letter 'j') (.letter 'k')
  let product := Expression.product left right (Expression.contraction left right [2])
  have first : Step ⟨Store.empty, []⟩ ⟨Store.empty, [left]⟩ :=
    .call (.index matrix [.letter 'i', .letter 'j']) (by simp [Call.operands])
      (by simp [Call.written, Symbol.Before]) rfl
  have second : Step ⟨Store.empty, [left]⟩ ⟨Store.empty, [right, left]⟩ :=
    .call (.index matrix [.letter 'j', .letter 'k']) (by simp [Call.operands])
      (by simp [Call.written, Symbol.Before]) rfl
  have third : Step ⟨Store.empty, [right, left]⟩ ⟨Store.empty, [product, right, left]⟩ :=
    .call (.mul left right) (by simp [Call.operands]) (by simp [Call.written]) rfl
  have fourth : Step ⟨Store.empty, [product, right, left]⟩ _ :=
    .call (.reindex product [.letter 'k'] [.letter 'j']) (by simp [Call.operands])
      (by simp [Call.written, Symbol.Before]) rfl
  have steps := (((Relation.ReflTransGen.single first).tail second).tail third).tail fourth
  exact ⟨_, steps, rfl, symbols_apart_of_steps steps⟩

end Session

end IndexNotation
