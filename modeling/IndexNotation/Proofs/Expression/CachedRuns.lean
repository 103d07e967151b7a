import IndexNotation.Proofs.Expression.Caches
import IndexNotation.Proofs.Expression.Materialized
import IndexNotation.Proofs.Expression.Watched
import IndexNotation.Scalar.Integer
/-!
Runs of a cached node: requests for its components in any order, and anything else in between. The first
request that succeeds asks the operand for each component once, and every answer from then on is the
operand's component as it was at that moment.
-/
namespace IndexNotation

variable {α : Type}

structure Moment (α : Type) where
  memory : Memory α
  scratch : Scratch α

/-- A request to a cached node with its answer and the values at which it asked the operand, or something
else that happens. -/
inductive Event (α : Type) where
  | component (values : List Nat) (answer : Except Fault α) (asked : List (List Nat))
  | all (answer : Except Fault (Option (Array α))) (asked : List (List Nat))
  | elsewhere

namespace Event

def asked : Event α → List (List Nat)
  | component _ _ asked | all _ asked => asked
  | elsewhere => []

def Succeeds : Event α → Prop
  | component _ answer _ => ∃ x, answer = .ok x
  | all answer _ => ∃ components, answer = .ok components
  | elsewhere => False

end Event

namespace CacheNode

def Unfilled (node : CacheNode α) (moment : Moment α) : Prop :=
  moment.scratch.caches[node.cache]? = some none

variable [Scalar α]

inductive Step (node : CacheNode α) : Moment α → Event α → Moment α → Prop
  /-- One component is asked for, at values in range. -/
  | component {start : Moment α} {values : List Nat} {answer : Except Fault α} {later : Scratch α}
      {asked : List (List Nat)} (below : RowMajor.Below values node.dims)
      (answered : node.expression.component values start.memory start.scratch = (answer, later))
      (watched : (node.watchedComponent values start.memory (start.scratch, [])).2.2 = asked) :
      Step node start (.component values answer asked) ⟨start.memory, later⟩
  /-- All components are asked for. -/
  | all {start : Moment α} {answer : Except Fault (Option (Array α))} {later : Scratch α}
      {asked : List (List Nat)}
      (answered : node.expression.value? start.memory start.scratch = (answer, later))
      (watched : (node.watchedValue start.memory (start.scratch, [])).2.2 = asked) :
      Step node start (.all answer asked) ⟨start.memory, later⟩
  /-- Memory is written and whatever else is evaluated, which may fill any cache but this one. -/
  | elsewhere {start later : Moment α}
      (kept : later.scratch.caches[node.cache]? = start.scratch.caches[node.cache]?) :
      Step node start .elsewhere later

inductive Run (node : CacheNode α) : Moment α → List (Event α) → Moment α → Prop
  | done (start : Moment α) : Run node start [] start
  | step {start middle last : Moment α} {event : Event α} {events : List (Event α)}
      (first : node.Step start event middle) (rest : Run node middle events last) :
      Run node start (event :: events) last

structure Reads (node : CacheNode α) (moment : Moment α) (components : Array α) : Prop where
  size : node.operand.space.dimension = .ok components.size
  each : ∀ values, RowMajor.Below values node.dims →
    ∃ x, (node.operand.component values moment.memory moment.scratch).1 = .ok x ∧
      components[RowMajor.number values node.dims]? = some x

def Answers (node : CacheNode α) (moment : Moment α) : Event α → Prop
  | .component values answer _ =>
    (∃ x, answer = .ok x) ∧ answer = (node.operand.component values moment.memory moment.scratch).1
  | .all answer _ => ∃ components, answer = .ok (some components) ∧ node.Reads moment components
  | .elsewhere => True

/-- No request has succeeded. Those that failed have asked the operand for its first components in
row-major order, and the operand's memory is still in use. -/
structure Pending (node : CacheNode α) (events : List (Event α)) (last : Moment α) : Prop where
  failed : ∀ event ∈ events, ¬ event.Succeeds
  asked : ∀ event ∈ events, event.asked <+: RowMajor.tuples node.dims
  memory : ∀ range, node.expression.usesMemory range last.memory last.scratch =
    node.operand.usesMemory range last.memory last.scratch

/-- The first of the requests that follow `moment` has asked the operand for each component once, in
row-major order, and the others for none. All are answered with what the operand has at `moment`, and no
memory is in use any more. -/
structure Settled (node : CacheNode α) (moment : Moment α) (first : Event α) (after : List (Event α))
    (last : Moment α) : Prop where
  succeeds : first.Succeeds
  asked : first.asked = RowMajor.tuples node.dims
  silent : ∀ event ∈ after, event.asked = []
  answers : ∀ event ∈ first :: after, node.Answers moment event
  memory : ∀ range, node.expression.usesMemory range last.memory last.scratch = (.ok false, last.scratch)

def Holds (node : CacheNode α) (moment now : Moment α) : Prop :=
  ∃ components, now.scratch.caches[node.cache]? = some (some components) ∧ node.Reads moment components

variable {node : CacheNode α} {start later : Moment α}

omit [Scalar α] in
theorem Unfilled.join (unfilled : node.Unfilled start) : start.scratch.caches[node.cache]?.join = none := by
  rw [Unfilled] at unfilled
  rw [unfilled]
  rfl

theorem usesMemory_run (node : CacheNode α) (range : ByteRange) (moment : Moment α) :
    node.expression.usesMemory range moment.memory moment.scratch =
      if moment.scratch.caches[node.cache]?.join.isSome then (.ok false, moment.scratch)
      else node.operand.usesMemory range moment.memory moment.scratch := by
  rw [Expression.usesMemory, EvalM.bind_run]
  have looked : (EvalM.cached? node.cache : EvalM α _) moment.memory moment.scratch =
      (.ok moment.scratch.caches[node.cache]?.join, moment.scratch) := rfl
  rw [looked]
  cases moment.scratch.caches[node.cache]?.join with
  | some components => rfl
  | none => rfl

/-- Filling the cache gives the operand's components at this moment and keeps them, or fails and leaves it
unfilled. -/
theorem once_run_unfilled (apart : CachesApart [node.expression])
    (computed : node.operand.freeDims = .ok node.dims) (unfilled : node.Unfilled start) :
    (∃ fault later, EvalM.once node.cache (materialize node.operand.space node.dims node.operand.component)
        start.memory start.scratch = (.error fault, later) ∧ later.caches[node.cache]? = some none) ∨
      ∃ components later, EvalM.once node.cache
        (materialize node.operand.space node.dims node.operand.component) start.memory start.scratch =
          (.ok components, later) ∧
        later.caches[node.cache]? = some (some components) ∧ node.Reads start components := by
  have inside : ∀ other ∈ node.operand.cacheNodes,
      other ∈ [node.expression].flatMap Expression.cacheNodes := by
    intro other present
    simp [present]
  have member : node ∈ [node.expression].flatMap Expression.cacheNodes := by simp
  have yields : EvalM.Yields (Agrees start.memory start.scratch.caches [node.expression]) start.memory
      (materialize node.operand.space node.dims node.operand.component)
      (node.filling start.memory start.scratch.caches) :=
    materialize_yields (component_yields apart inside)
  obtain ⟨outcome, agrees⟩ := yields start.scratch (agrees_refl start.memory start.scratch.caches _)
  have room : node.cache < start.scratch.caches.size := (Array.getElem?_eq_some_iff.mp unfilled).1
  rw [EvalM.once_run, unfilled.join]
  rcases ran : materialize node.operand.space node.dims node.operand.component start.memory start.scratch
    with ⟨result, later⟩
  rw [ran] at outcome agrees
  have fits : node.cache < later.caches.size := agrees.size.symm ▸ room
  cases result with
  | error fault =>
      refine Or.inl ⟨fault, later, rfl, ?_⟩
      have now := agrees.nodes node member
      -- a cache filled on the way would hold the components that have just failed
      rcases found : later.caches[node.cache]?.join with _ | components
      · rw [Array.getElem?_eq_getElem fits, Option.join_some] at found
        rw [Array.getElem?_eq_getElem fits, found]
      · rw [found, filled, unfilled.join, ← outcome] at now
        cases now
  | ok components =>
      refine Or.inr ⟨components, _, rfl, Array.getElem?_setIfInBounds_self_of_lt fits, ?_⟩
      have sized := size_materialized outcome.symm
      have counted := Expression.prod_freeDims computed sized
      refine ⟨sized, fun values below => ?_⟩
      obtain ⟨x, value, found⟩ := materialized_eq_ok (counted.symm ▸ sized) outcome.symm values below
      refine ⟨x, ?_, found⟩
      rw [component_run apart inside, value]

theorem once_run_holds {moment now : Moment α} (holds : node.Holds moment now) :
    ∃ components, now.scratch.caches[node.cache]? = some (some components) ∧ node.Reads moment components ∧
      ∀ evaluate : EvalM α (Array α),
        EvalM.once node.cache evaluate now.memory now.scratch = (.ok components, now.scratch) := by
  obtain ⟨components, kept, reads⟩ := holds
  refine ⟨components, kept, reads, fun evaluate => ?_⟩
  rw [EvalM.once_run, kept]
  rfl

theorem component_run (node : CacheNode α) (values : List Nat) (moment : Moment α) :
    node.expression.component values moment.memory moment.scratch =
      match EvalM.once node.cache
        (materialize node.operand.space node.dims node.operand.component) moment.memory moment.scratch with
      | (.ok components, later) =>
        (do
          let offset ← RowMajor.offset values node.dims
          match components[offset]? with
          | some x => .ok x
          | none => .error .outOfBounds, later)
      | (.error fault, later) => (.error fault, later) := by
  rw [Expression.component, cachedComponent, EvalM.bind_run]
  rcases (EvalM.once node.cache _ : EvalM α _) moment.memory moment.scratch with ⟨outcome, later⟩
  cases outcome with
  | error fault => rfl
  | ok components =>
      change ((EvalM.ofExcept (RowMajor.offset values node.dims) >>= _ : EvalM α α) moment.memory later) = _
      rw [EvalM.bind_run]
      cases RowMajor.offset values node.dims with
      | error fault => rfl
      | ok offset => rfl

theorem value?_run (node : CacheNode α) (moment : Moment α) :
    node.expression.value? moment.memory moment.scratch =
      match EvalM.once node.cache
        (materialize node.operand.space node.dims node.operand.component) moment.memory moment.scratch with
      | (.ok components, later) => (.ok (some components), later)
      | (.error fault, later) => (.error fault, later) := by
  rw [Expression.value?, cachedComponents, EvalM.bind_run]
  rcases (EvalM.once node.cache _ : EvalM α _) moment.memory moment.scratch with ⟨outcome, later⟩
  cases outcome <;> rfl

theorem Reads.component {components : Array α} (reads : node.Reads start components)
    (computed : node.operand.freeDims = .ok node.dims) {values : List Nat}
    (below : RowMajor.Below values node.dims) :
    ∃ x, (node.operand.component values start.memory start.scratch).1 = .ok x ∧
      (do
        let offset ← RowMajor.offset values node.dims
        match components[offset]? with
        | some x => .ok x
        | none => .error .outOfBounds : Except Fault α) = .ok x := by
  obtain ⟨x, value, found⟩ := reads.each values below
  have bounded : node.dims.prod ≤ Size.bound := by
    rw [Expression.prod_freeDims computed reads.size]
    exact Nat.le_of_lt (Space.dimension_lt reads.size)
  refine ⟨x, value, ?_⟩
  rw [RowMajor.offset_eq below bounded, ok_bind, found]

/-- Once the cache is filled, requests ask for nothing and are answered from it. -/
theorem Step.settled {moment now next : Moment α} {event : Event α} (step : node.Step now event next)
    (computed : node.operand.freeDims = .ok node.dims) (holds : node.Holds moment now) :
    event.asked = [] ∧ node.Answers moment event ∧ node.Holds moment next := by
  obtain ⟨components, kept, reads, looked⟩ := once_run_holds holds
  have nothing : node.toAsk now.scratch = [] := by
    rw [toAsk, kept]
    rfl
  cases step with
  | @component values answer later asked below answered watched =>
      have none := (node.watchedComponent_follows values now.memory now.scratch).asked.1
      rw [watched, nothing] at none
      obtain ⟨x, value, found⟩ := reads.component computed below
      rw [component_run, looked] at answered
      obtain ⟨rfl, rfl⟩ := Prod.mk.inj answered
      exact ⟨List.prefix_nil.mp none, ⟨⟨x, found⟩, found.trans value.symm⟩, components, kept, reads⟩
  | all answered watched =>
      have none := (node.watchedValue_follows now.memory now.scratch).asked.1
      rw [watched, nothing] at none
      rw [value?_run, looked] at answered
      obtain ⟨rfl, rfl⟩ := Prod.mk.inj answered
      exact ⟨List.prefix_nil.mp none, ⟨components, rfl, reads⟩, components, kept, reads⟩
  | elsewhere same => exact ⟨rfl, trivial, components, same.trans kept, reads⟩

/-- While the cache is unfilled, a request asks the operand for its components in order. Either it fails and
leaves the cache unfilled, or it asks for all of them, and the cache keeps them. -/
theorem Step.pending {event : Event α} (step : node.Step start event later)
    (apart : CachesApart [node.expression]) (computed : node.operand.freeDims = .ok node.dims)
    (unfilled : node.Unfilled start) :
    event.asked <+: RowMajor.tuples node.dims ∧
      ((¬ event.Succeeds ∧ node.Unfilled later) ∨
        event.Succeeds ∧ event.asked = RowMajor.tuples node.dims ∧ node.Answers start event ∧
          node.Holds start later) := by
  have all : node.toAsk start.scratch = RowMajor.tuples node.dims := by rw [toAsk, unfilled.join]
  cases step with
  | @component values answer later asked below answered watched =>
      obtain ⟨initial, complete⟩ := (node.watchedComponent_follows values start.memory start.scratch).asked
      rw [watched, all] at initial complete
      rw [answered] at complete
      rw [component_run] at answered
      refine ⟨initial, ?_⟩
      rcases once_run_unfilled apart computed unfilled with ⟨fault, later, failed, left⟩ |
        ⟨components, later, made, kept, reads⟩
      · rw [failed] at answered
        obtain ⟨rfl, rfl⟩ := Prod.mk.inj answered
        refine Or.inl ⟨?_, left⟩
        rintro ⟨_, absent⟩
        cases absent
      · rw [made] at answered
        obtain ⟨rfl, rfl⟩ := Prod.mk.inj answered
        obtain ⟨x, value, found⟩ := reads.component computed below
        exact Or.inr ⟨⟨x, found⟩, complete x found, ⟨⟨x, found⟩, found.trans value.symm⟩,
          components, kept, reads⟩
  | @all answer later asked answered watched =>
      obtain ⟨initial, complete⟩ := (node.watchedValue_follows start.memory start.scratch).asked
      rw [watched, all] at initial complete
      rw [answered] at complete
      rw [value?_run] at answered
      refine ⟨initial, ?_⟩
      rcases once_run_unfilled apart computed unfilled with ⟨fault, later, failed, left⟩ |
        ⟨components, later, made, kept, reads⟩
      · rw [failed] at answered
        obtain ⟨rfl, rfl⟩ := Prod.mk.inj answered
        refine Or.inl ⟨?_, left⟩
        rintro ⟨_, absent⟩
        cases absent
      · rw [made] at answered
        obtain ⟨rfl, rfl⟩ := Prod.mk.inj answered
        exact Or.inr ⟨⟨_, rfl⟩, complete _ rfl, ⟨components, rfl, reads⟩, components, kept, reads⟩
  | elsewhere same => exact ⟨List.nil_prefix, Or.inl ⟨id, same.trans unfilled⟩⟩

theorem Run.settled {moment now last : Moment α} {events : List (Event α)} (run : node.Run now events last)
    (computed : node.operand.freeDims = .ok node.dims) (holds : node.Holds moment now) :
    (∀ event ∈ events, event.asked = [] ∧ node.Answers moment event) ∧ node.Holds moment last := by
  induction run with
  | done now => exact ⟨by simp, holds⟩
  | step first rest ih =>
      obtain ⟨silent, answers, kept⟩ := first.settled computed holds
      obtain ⟨later, final⟩ := ih kept
      exact ⟨List.forall_mem_cons.mpr ⟨⟨silent, answers⟩, later⟩, final⟩

theorem Pending.done (unfilled : node.Unfilled start) : node.Pending [] start := by
  refine ⟨by simp, by simp, fun range => ?_⟩
  rw [usesMemory_run, unfilled.join]
  rfl

theorem Pending.cons {event : Event α} {events : List (Event α)} {last : Moment α}
    (failed : ¬ event.Succeeds) (asked : event.asked <+: RowMajor.tuples node.dims)
    (rest : node.Pending events last) : node.Pending (event :: events) last :=
  ⟨List.forall_mem_cons.mpr ⟨failed, rest.failed⟩, List.forall_mem_cons.mpr ⟨asked, rest.asked⟩, rest.memory⟩

/-- Up to the first request that succeeds the node does without its cache, and from there on with it. -/
theorem Run.pending_or_settled {last : Moment α} {events : List (Event α)} (run : node.Run start events last)
    (apart : CachesApart [node.expression]) (computed : node.operand.freeDims = .ok node.dims)
    (unfilled : node.Unfilled start) :
    node.Pending events last ∨
      ∃ before first after moment, events = before ++ first :: after ∧ node.Run start before moment ∧
        node.Pending before moment ∧ node.Settled moment first after last := by
  induction run with
  | done start => exact Or.inl (.done unfilled)
  | @step start middle last event events first rest ih =>
      obtain ⟨asked, ⟨failed, left⟩ | ⟨succeeds, all, answers, holds⟩⟩ := first.pending apart computed unfilled
      · rcases ih left with pending | ⟨before, event', after, moment, rfl, run, pending, settled⟩
        · exact Or.inl (.cons failed asked pending)
        · exact Or.inr ⟨event :: before, event', after, moment, rfl, .step first run,
            .cons failed asked pending, settled⟩
      · obtain ⟨later, components, kept, _⟩ := rest.settled computed holds
        refine Or.inr ⟨[], event, events, start, rfl, .done start, .done unfilled, succeeds, all,
          fun event present => (later event present).1,
          List.forall_mem_cons.mpr ⟨answers, fun event present => (later event present).2⟩, fun range => ?_⟩
        rw [usesMemory_run, kept]
        rfl

def doubledPair : CacheNode (Bounded .signed32) where
  operand := Expression.scaledBy
    (.indexed
      { tensor := ⟨.standard 2 "X", .stored .member 0 0 2⟩
        free := [⟨.letter 'i', .standard 2 "X"⟩], used := []
        slots := [.free 0], slotDims := [2], summedDims := [] })
    (.wrap 2)
  cache := 0
  dims := [2]

def pairMemory (first second : Int) : Memory (Bounded .signed32) := ⟨#[⟨0, #[.wrap first, .wrap second]⟩], 32⟩

/-- The second cell overflows when it is doubled. Once it is overwritten the cache is filled, and later writes do
not reach it. -/
theorem run_doubledPair :
    doubledPair.Run ⟨pairMemory 1 2147483647, ⟨#[none], #[]⟩⟩
      [.component [0] (.error .overflow) [[0], [1]], .elsewhere, .component [0] (.ok (.wrap 2)) [[0], [1]],
        .elsewhere, .all (.ok (some #[.wrap 2, .wrap 6])) []]
      ⟨pairMemory 5 3, ⟨#[some #[.wrap 2, .wrap 6]], #[]⟩⟩ := by
  let broken : Moment (Bounded .signed32) := ⟨pairMemory 1 2147483647, ⟨#[none], #[]⟩⟩
  let mended : Moment (Bounded .signed32) := ⟨pairMemory 1 3, ⟨#[none], #[]⟩⟩
  let filled : Moment (Bounded .signed32) := ⟨pairMemory 1 3, ⟨#[some #[.wrap 2, .wrap 6]], #[]⟩⟩
  have below : RowMajor.Below [0] doubledPair.dims := ⟨by decide, trivial⟩
  have first : doubledPair.Step broken (.component [0] (.error .overflow) [[0], [1]]) broken :=
    .component below rfl rfl
  have second : doubledPair.Step broken .elsewhere mended := .elsewhere rfl
  have third : doubledPair.Step mended (.component [0] (.ok (.wrap 2)) [[0], [1]]) filled :=
    .component below rfl rfl
  have fourth : doubledPair.Step filled .elsewhere ⟨pairMemory 5 3, filled.scratch⟩ := .elsewhere rfl
  exact .step first (.step second (.step third (.step fourth (.step (.all rfl rfl) (.done _)))))

theorem asked_before_success :
    ¬ ∀ events last before first after,
      doubledPair.Run ⟨pairMemory 1 2147483647, ⟨#[none], #[]⟩⟩ events last →
        events = before ++ first :: after → first.Succeeds → (∀ event ∈ before, ¬ event.Succeeds) →
          ∀ event ∈ before, event.asked = [] := by
  intro never
  have silent := never _ _ [_, _] _ [_, _] run_doubledPair rfl ⟨_, rfl⟩ (by simp [Event.Succeeds])
    (.component [0] (.error .overflow) [[0], [1]]) (by simp)
  cases silent

end CacheNode

namespace Session

open CacheNode

variable [Scalar α]

/-- An expression made in a session and then kept in a cache, with memory written and other caches filled
between the requests in any way. Until a request succeeds, each has asked the operand for its first
components at most; the first to succeed asks for each component once, in row-major order; and from then on
every answer is the operand's component of that moment, and no memory is in use. -/
theorem run_eval {store : Store α} {session : Session α}
    (steps : Relation.ReflTransGen Step ⟨store, []⟩ session) {e x : Expression α} (present : e ∈ session.made)
    {built : Store α} (made : e.eval session.store = (.ok x, built)) :
    ∃ node : CacheNode α, x = node.expression ∧ node.operand = e ∧ e.freeDims = .ok node.dims ∧
      ∀ events last, node.Run ⟨built.memory, built.scratch⟩ events last →
        node.Pending events last ∨
          ∃ before first after moment, events = before ++ first :: after ∧
            node.Run ⟨built.memory, built.scratch⟩ before moment ∧ node.Pending before moment ∧
            node.Settled moment first after last := by
  have next : Step session ⟨built, x :: session.made⟩ :=
    .call (.eval e) (by simpa [Call.operands] using present) (by simp [Call.written]) made
  have apart : CachesApart (x :: session.made) := cachesApart_of_steps (steps.tail next)
  obtain ⟨dims, computed, rfl, rfl⟩ := Expression.eval_eq_ok made
  refine ⟨⟨e, session.store.scratch.caches.size, dims⟩, rfl, rfl, computed, fun events last run => ?_⟩
  apply run.pending_or_settled (apart.mono (by simp)) computed
  simp [CacheNode.Unfilled]

/-- Two cells doubled: a request overflows, the larger cell is overwritten, a request succeeds, the other cell is
overwritten, and all components are asked for. -/
theorem run_eval_doubledPair :
    ∃ (store : Store (Bounded .signed32)) (session : Session (Bounded .signed32)) (built : Store (Bounded .signed32)),
      Relation.ReflTransGen Step ⟨store, []⟩ session ∧ doubledPair.operand ∈ session.made ∧
        doubledPair.operand.eval session.store = (.ok doubledPair.expression, built) ∧
        ∃ events last, doubledPair.Run ⟨built.memory, built.scratch⟩ events last ∧
          (doubledPair.Pending events last ∨
            ∃ before first after moment, events = before ++ first :: after ∧
              doubledPair.Run ⟨built.memory, built.scratch⟩ before moment ∧ doubledPair.Pending before moment ∧
              doubledPair.Settled moment first after last) := by
  let store : Store (Bounded .signed32) := { Store.empty with memory := pairMemory 1 2147483647 }
  let pair : Tensor (Bounded .signed32) := ⟨.standard 2 "X", .stored .member 0 0 2⟩
  let leaf : Expression (Bounded .signed32) := .indexed
    { tensor := pair, free := [⟨.letter 'i', .standard 2 "X"⟩], used := []
      slots := [.free 0], slotDims := [2], summedDims := [] }
  have first : Step ⟨store, []⟩ ⟨store, [leaf]⟩ :=
    .call (.index pair [.letter 'i']) (by simp [Call.operands]) (by simp [Call.written, Symbol.Before]) rfl
  have second : Step ⟨store, [leaf]⟩ ⟨store, [leaf.scaledBy (.wrap 2), leaf]⟩ :=
    .call (.scaledBy leaf (.wrap 2)) (by simp [Call.operands]) (by simp [Call.written]) rfl
  have steps := (Relation.ReflTransGen.single first).tail second
  have present : doubledPair.operand ∈ [leaf.scaledBy (.wrap 2), leaf] := List.mem_cons_self
  obtain ⟨node, same, operand, computed, runs⟩ := run_eval steps present rfl
  obtain rfl : node = doubledPair := by
    obtain ⟨operand, cache, dims⟩ := node
    cases same
    rfl
  exact ⟨store, _, _, steps, present, rfl, _, _, run_doubledPair, runs _ _ run_doubledPair⟩

end Session

end IndexNotation
