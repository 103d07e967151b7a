import IndexNotation.Proofs.Expression.Caches
import IndexNotation.Proofs.Expression.Faults
import IndexNotation.Proofs.Expression.Regrouping
/-!
Sessions in which evaluation is safe. Tensors have the components that their dimensions say, every dimension
that a call works with is computed, and components are evaluated in between. Then each component of each
expression is defined, and its evaluation fails only at the arithmetic of the scalars or at an allocation.
-/
namespace IndexNotation

variable {α : Type}

section Later

variable {memory later : Memory α}
  (kept : ∀ location x, memory.read? location = some x → ∃ y, later.read? location = some y)

include kept

theorem Components.exists_value_mono {c : Components α} {index : Nat}
    (found : ∃ x, c.value memory index = .ok x) : ∃ x, c.value later index = .ok x := by
  induction c generalizing index with
  | stored storage block offset length =>
      rw [value] at found ⊢
      split
      · rename_i inside
        rw [if_pos inside, Memory.read] at found
        cases read : memory.read? ⟨block, offset + index⟩ with
        | none => simp [read] at found
        | some x =>
            rcases kept _ x read with ⟨y, present⟩
            exact ⟨y, Memory.read_eq present⟩
      · rename_i outside
        rw [if_neg outside] at found
        exact found
  | generated generator => exact found
  | window base offset length ih =>
      rw [value] at found ⊢
      split
      · rename_i inside
        rw [if_pos inside] at found
        exact ih found
      · rename_i outside
        rw [if_neg outside] at found
        exact found

theorem Expression.Defined.mono {e : Expression α} {values : List Nat} (defined : e.Defined memory values) :
    e.Defined later values := by
  induction e generalizing values with
  | indexed leaf =>
      intro summed below
      rcases defined summed below with ⟨x, slot⟩
      rcases bind_eq_ok_iff.mp slot with ⟨slots, gathered, rest⟩
      rcases bind_eq_ok_iff.mp rest with ⟨offset, placed, found⟩
      rcases Components.exists_value_mono kept ⟨x, found⟩ with ⟨y, found'⟩
      refine ⟨y, ?_⟩
      rw [Leaf.slotValue, gathered, ok_bind, placed, ok_bind, found']
  | product left right contraction ihLeft ihRight =>
      intro summed below
      rcases defined summed below with ⟨leftValues, rightValues, gathered, gathered', onLeft, onRight⟩
      exact ⟨leftValues, rightValues, gathered, gathered', ihLeft onLeft, ihRight onRight⟩
  | sum left right isDifference matching ihLeft ihRight =>
      rcases defined with ⟨rightValues, found, onLeft, onRight⟩
      exact ⟨rightValues, found, ihLeft onLeft, ihRight onRight⟩
  | scaled operand scaling ih => exact ih defined
  | bundled operand bundling ih =>
      rcases defined with ⟨places, operandValues, found, below⟩
      exact ⟨places, operandValues, found, ih below⟩
  | split operand splitting ih =>
      rcases defined with ⟨found, ran, below⟩
      exact ⟨found, ran, fun operandValues sign same => ih (below operandValues sign same)⟩
  | renamed operand free used ih => exact ih defined
  | cached operand cache dims ih =>
      rcases defined with ⟨d, sized, placed, each⟩
      exact ⟨d, sized, placed, fun tuple below => ⟨(each tuple below).1, ih (each tuple below).2⟩⟩

theorem Expression.Safe.mono {e : Expression α} (safe : e.Safe memory) : e.Safe later :=
  ⟨safe.indexed, safe.computed, safe.fits, fun values inRange => (safe.defined values inRange).mono kept⟩

end Later

namespace Call

/-- What a call asks for besides being accepted. A tensor has a component for each number below its dimension,
and the dimension of any space that a component is looked up in is computed. -/
def Sound (memory : Memory α) : Call α → Prop
  | index tensor _ => tensor.Checked memory ∧ tensor.components.Total ∧ tensor.space.OrdersFit
  | bundle _ _ target _ => (∃ d, target.dimension = .ok d) ∧ target.OrdersFit
  | eval operand => ∃ d, operand.space.dimension = .ok d
  | mul .. | add .. | sub .. | scaledBy .. | dividedBy .. | negate _ | splitAt .. | reindex .. => True

theorem run_safe {c : Call α} {e : Expression α} {memory : Memory α} {store later : Store α}
    (sound : c.Sound memory) (operands : ∀ o ∈ c.operands, o.Safe memory) (indexed : e.WellIndexed)
    (accepted : c.run store = (.ok e, later)) : e.Safe memory := by
  cases c with
  | index tensor symbols =>
      obtain ⟨made, rfl⟩ := StoreM.ofExcept_run_eq_ok accepted
      exact Expression.safe_index sound.1 sound.2.1 sound.2.2 made
  | mul left right =>
      obtain ⟨made, rfl⟩ := StoreM.ofExcept_run_eq_ok accepted
      exact Expression.safe_mul (operands left (by simp [Call.operands]))
        (operands right (by simp [Call.operands])) made
  | add left right =>
      obtain ⟨made, rfl⟩ := StoreM.ofExcept_run_eq_ok accepted
      exact Expression.safe_combine (operands left (by simp [Call.operands]))
        (operands right (by simp [Call.operands])) made
  | sub left right =>
      obtain ⟨made, rfl⟩ := StoreM.ofExcept_run_eq_ok accepted
      exact Expression.safe_combine (operands left (by simp [Call.operands]))
        (operands right (by simp [Call.operands])) made
  | scaledBy operand x =>
      cases accepted
      exact Expression.safe_scaled (operands operand (by simp [Call.operands])) (.times x)
  | dividedBy operand x =>
      cases accepted
      exact Expression.safe_scaled (operands operand (by simp [Call.operands])) (.divided x)
  | negate operand =>
      cases accepted
      exact Expression.safe_scaled (operands operand (by simp [Call.operands])) .negated
  | bundle operand symbols target result =>
      obtain ⟨made, rfl⟩ := StoreM.ofExcept_run_eq_ok accepted
      rcases sound with ⟨⟨d, sized⟩, fits⟩
      exact Expression.safe_bundle (operands operand (by simp [Call.operands])) sized fits made
  | splitAt operand source symbols =>
      obtain ⟨made, rfl⟩ := StoreM.ofExcept_run_eq_ok accepted
      exact Expression.safe_splitAt (operands operand (by simp [Call.operands])) made
  | reindex operand source target =>
      obtain ⟨next, renamed, rfl⟩ := Expression.reindex_eq_ok accepted
      exact Expression.safe_rename (operands operand (by simp [Call.operands])) indexed renamed
  | eval operand =>
      obtain ⟨dims, computed, rfl, rfl⟩ := Expression.eval_eq_ok accepted
      rcases sound with ⟨d, sized⟩
      exact Expression.safe_eval (operands operand (by simp [Call.operands])) _ computed sized

theorem run_frame {c : Call α} {e : Expression α} {store later : Store α}
    (accepted : c.run store = (.ok e, later)) :
    later.memory = store.memory ∧
      ∀ cache : Nat, later.scratch.caches[cache]?.join = store.scratch.caches[cache]?.join := by
  cases c with
  | index _ _ | mul _ _ | add _ _ | sub _ _ | bundle _ _ _ _ | splitAt _ _ _ =>
      obtain ⟨_, rfl⟩ := StoreM.ofExcept_run_eq_ok accepted
      exact ⟨rfl, fun _ => rfl⟩
  | scaledBy _ _ | dividedBy _ _ | negate _ =>
      cases accepted
      exact ⟨rfl, fun _ => rfl⟩
  | reindex operand source target =>
      obtain ⟨_, _, rfl⟩ := Expression.reindex_eq_ok accepted
      exact ⟨rfl, fun _ => rfl⟩
  | eval operand =>
      obtain ⟨_, _, _, rfl⟩ := Expression.eval_eq_ok accepted
      refine ⟨rfl, fun cache => ?_⟩
      dsimp only
      rw [Array.getElem?_push]
      split
      · rename_i last
        rw [last, Array.getElem?_eq_none (Nat.le_refl _)]
        rfl
      · rfl

end Call

/-- What stays while others work on the store: cells may be overwritten but not taken away, and caches in
use are left alone. -/
structure Store.Kept (earlier later : Store α) : Prop extends earlier.Grown later where
  cells : ∀ location x, earlier.memory.read? location = some x →
    ∃ y, later.memory.read? location = some y
  filled : ∀ cache < earlier.scratch.caches.size, later.scratch.caches[cache]? = earlier.scratch.caches[cache]?

namespace Session

variable [Scalar α]

inductive SoundStep : Session α → Session α → Prop
  | call {session : Session α} {e : Expression α} {store : Store α} (c : Call α)
      (operands : ∀ o ∈ c.operands, o ∈ session.made)
      (written : ∀ s ∈ c.written, s.Before session.store.nextSymbol)
      (sound : c.Sound session.store.memory)
      (accepted : c.run session.store = (.ok e, store)) : SoundStep session ⟨store, e :: session.made⟩
  | evaluate {session : Session α} {e : Expression α} (made : e ∈ session.made) (values : List Nat) :
      SoundStep session
        ⟨(StoreM.ofEvalM (e.component values) session.store).2, session.made⟩
  | elsewhere {session : Session α} {store : Store α} (kept : session.store.Kept store) :
      SoundStep session ⟨store, session.made⟩

structure Sound (session : Session α) : Prop where
  known : session.CachesKnown
  ordered : session.Ordered
  safe : ∀ e ∈ session.made, e.Safe session.store.memory
  sized : ∀ node ∈ session.made.flatMap Expression.cacheNodes, node.Sized session.store.scratch.caches

theorem SoundStep.sound {session next : Session α} (step : SoundStep session next)
    (sound : session.Sound) : next.Sound := by
  cases step with
  | @call e store c operands written asked accepted =>
      have step : Step session ⟨store, e :: session.made⟩ := .call c operands written accepted
      have known := step.cachesKnown sound.known
      have ordered := step.ordered sound.ordered
      rcases Call.run_frame accepted with ⟨memory, caches⟩
      refine ⟨known, ordered, ?_, ?_⟩
      · dsimp only
        rw [memory]
        have indexed := (ordered e List.mem_cons_self).indexed
        have safe := Call.run_safe asked (fun o given => sound.safe o (operands o given)) indexed accepted
        exact List.forall_mem_cons.mpr ⟨safe, sound.safe⟩
      · intro node present components found
        dsimp only at found
        rw [caches] at found
        rcases Call.run_grows accepted with ⟨_, fresh, extends_, new⟩
        rw [List.flatMap_cons] at present
        rcases List.mem_append.mp present with here | earlier
        · rcases extends_ node here with added | ⟨o, given, inside⟩
          · -- the cache of a new node is still to be filled
            rw [(new node added.symm).1, Array.getElem?_eq_none (Nat.le_refl _)] at found
            cases found
          · exact sound.sized node (List.mem_flatMap.mpr ⟨o, operands o given, inside⟩) components found
        · exact sound.sized node earlier components found
  | @evaluate e made values =>
      have inside : ∀ node ∈ e.cacheNodes, node ∈ session.made.flatMap Expression.cacheNodes :=
        fun node present => List.mem_flatMap.mpr ⟨e, made, present⟩
      have agrees := (component_yields sound.known.apart inside values session.store.scratch
        (agrees_refl session.store.memory session.store.scratch.caches session.made)).2
      refine ⟨⟨fun node present => ?_, sound.known.apart⟩, sound.ordered, sound.safe, agrees.sized sound.sized⟩
      exact Nat.lt_of_lt_of_eq (sound.known.known node present) agrees.size.symm
  | elsewhere kept =>
      have step : Step session ⟨_, session.made⟩ := .elsewhere kept.toGrown
      refine ⟨step.cachesKnown sound.known, step.ordered sound.ordered, ?_, ?_⟩
      · exact fun e present => (sound.safe e present).mono kept.cells
      · intro node present components found
        dsimp only at found
        rw [kept.filled node.cache (sound.known.known node present)] at found
        exact sound.sized node present components found

theorem sound_of_steps {store : Store α} {session : Session α}
    (steps : Relation.ReflTransGen SoundStep ⟨store, []⟩ session) : session.Sound := by
  induction steps with
  | refl =>
      have none {P : Expression α → Prop} : ∀ e ∈ ([] : List (Expression α)), P e := by
        intro e absent
        cases absent
      have noNode {P : CacheNode α → Prop} : ∀ node ∈ ([] : List (Expression α)).flatMap Expression.cacheNodes,
          P node := by
        intro node absent
        cases absent
      exact ⟨⟨noNode, noNode⟩, none, none, noNode⟩
  | tail _ step ih => exact step.sound ih

/-- In a session whose calls are sound, every component at values in range has all that its evaluation looks
up: lists, offsets in arrays, cells and generated components. What then remains to fail is the arithmetic of
the scalars, and the allocation of a cache of more bytes than can be addressed. -/
theorem component_of_steps {store : Store α} {session : Session α}
    (steps : Relation.ReflTransGen SoundStep ⟨store, []⟩ session) :
    ∀ e ∈ session.made, ∃ dims, e.freeDims = .ok dims ∧ ∀ values, RowMajor.Below values dims →
      e.Defined session.store.memory values ∧
        ((∃ x, (e.component values session.store.memory session.store.scratch).1 = .ok x) ∨
          ∃ fault, (e.component values session.store.memory session.store.scratch).1 = .error fault ∧
            Expression.Stops session.store.memory session.store.scratch.caches fault e values) := by
  have sound := sound_of_steps steps
  intro e made
  have safe := sound.safe e made
  have inside : ∀ node ∈ e.cacheNodes, node ∈ session.made.flatMap Expression.cacheNodes :=
    fun node present => List.mem_flatMap.mpr ⟨e, made, present⟩
  rcases safe.exists_freeDims with ⟨dims, computed⟩
  refine ⟨dims, computed, fun values below => ?_⟩
  have defined := safe.defined_below computed below
  refine ⟨defined, ?_⟩
  rw [component_run sound.known.apart inside]
  cases outcome : e.value session.store.memory session.store.scratch.caches values with
  | ok x => exact Or.inl ⟨x, rfl⟩
  | error fault =>
      right
      refine ⟨fault, rfl, ?_⟩
      exact Expression.stops_of_value (fun node present => sound.sized node (inside node present)) defined outcome

theorem component_of_steps_square :
    ∃ session : Session (Bounded .signed32), Relation.ReflTransGen SoundStep ⟨Store.empty, []⟩ session ∧
      session.made.map Expression.freeSymbols =
        [[.letter 'i', .letter 'j'], [.letter 'i', .letter 'j'], [.letter 'p']] ∧
      ∀ e ∈ session.made, ∃ dims, e.freeDims = .ok dims ∧ ∀ values, RowMajor.Below values dims →
        e.Defined session.store.memory values ∧
          ((∃ x, (e.component values session.store.memory session.store.scratch).1 = .ok x) ∨
            ∃ fault, (e.component values session.store.memory session.store.scratch).1 = .error fault ∧
              Expression.Stops session.store.memory session.store.scratch.caches fault e values) := by
  let plane : Space := .standard 2 "V"
  let square : Tensor (Bounded .signed32) := ⟨.symmetricPower 2 plane, .generated (.zero 3)⟩
  let leaf : Expression (Bounded .signed32) :=
    .indexed { tensor := square, free := [⟨.letter 'p', .symmetricPower 2 plane⟩], used := []
               slots := [.free 0], slotDims := [3], summedDims := [] }
  let parts := Expression.split leaf
    { free := [⟨.letter 'i', plane⟩, ⟨.letter 'j', plane⟩], position := 0, count := 2
      source := .symmetricPower 2 plane }
  let store : Store (Bounded .signed32) := { Store.empty with scratch := ⟨#[none], #[]⟩ }
  have total : square.components.Total := Components.total_zero 3
  have first : SoundStep ⟨Store.empty, []⟩ ⟨Store.empty, [leaf]⟩ :=
    .call (.index square [.letter 'p']) (by simp [Call.operands]) (by simp [Call.written, Symbol.Before])
      ⟨⟨rfl, trivial⟩, total, trivial⟩ rfl
  have second : SoundStep ⟨Store.empty, [leaf]⟩ ⟨Store.empty, [parts, leaf]⟩ :=
    .call (.splitAt leaf (.letter 'p') [.letter 'i', .letter 'j']) (by simp [Call.operands])
      (by simp [Call.written, Symbol.Before]) trivial rfl
  have third : SoundStep ⟨Store.empty, [parts, leaf]⟩ ⟨store, [.cached parts 0 [2, 2], parts, leaf]⟩ :=
    .call (.eval parts) (by simp [Call.operands]) (by simp [Call.written]) ⟨4, rfl⟩ rfl
  have fourth :=
    @SoundStep.evaluate _ _ ⟨store, [.cached parts 0 [2, 2], parts, leaf]⟩ _ List.mem_cons_self [1, 0]
  have steps := (((Relation.ReflTransGen.single first).tail second).tail third).tail fourth
  exact ⟨_, steps, rfl, component_of_steps steps⟩

/-- A cache over a space of `2 ^ 61` values of eight bytes each cannot be allocated, though the dimension is a
size, no scalar is ever added, and no operation on the scalars fails with this fault. -/
theorem component_eq_capacity :
    ∃ session : Session (Bounded .signed64), Relation.ReflTransGen SoundStep ⟨Store.empty, []⟩ session ∧
      ∃ e ∈ session.made, e.freeDims = .ok [2305843009213693952] ∧
        RowMajor.Below [0] [2305843009213693952] ∧
        (e.component [0] session.store.memory session.store.scratch).1 = .error .capacity ∧
        ∀ x y : Bounded .signed64, Scalar.add x y ≠ .error .capacity ∧ Scalar.sub x y ≠ .error .capacity ∧
          Scalar.mul x y ≠ .error .capacity ∧ Scalar.div x y ≠ .error .capacity := by
  let line : Space := .standard 2305843009213693952 "X"
  let vector : Tensor (Bounded .signed64) := ⟨line, .generated (.zero 2305843009213693952)⟩
  let leaf : Expression (Bounded .signed64) :=
    .indexed { tensor := vector, free := [⟨.letter 'i', line⟩], used := []
               slots := [.free 0], slotDims := [2305843009213693952], summedDims := [] }
  let kept := Expression.cached leaf 0 [2305843009213693952]
  let store : Store (Bounded .signed64) := { Store.empty with scratch := ⟨#[none], #[]⟩ }
  have total : vector.components.Total := Components.total_zero 2305843009213693952
  have first : SoundStep ⟨Store.empty, []⟩ ⟨Store.empty, [leaf]⟩ :=
    .call (.index vector [.letter 'i']) (by simp [Call.operands]) (by simp [Call.written, Symbol.Before])
      ⟨⟨rfl, trivial⟩, total, trivial⟩ rfl
  have second : SoundStep ⟨Store.empty, [leaf]⟩ ⟨store, [kept, leaf]⟩ :=
    .call (.eval leaf) (by simp [Call.operands]) (by simp [Call.written]) ⟨2305843009213693952, rfl⟩ rfl
  have inRange (n : Int) : (Bounded.ofInt n : Except Fault (Bounded .signed64)) ≠ .error .capacity := by
    intro same
    unfold Bounded.ofInt at same
    split at same
    · cases same
    · cases same
  have steps := (Relation.ReflTransGen.single first).tail second
  refine ⟨_, steps, kept, List.mem_cons_self, rfl, ⟨by decide, trivial⟩, ?_, ?_⟩
  · rfl
  · intro x y
    refine ⟨inRange _, inRange _, inRange _, ?_⟩
    intro same
    change Bounded.div x y = _ at same
    unfold Bounded.div at same
    split at same
    · cases same
    · exact inRange _ same

end Session

end IndexNotation
