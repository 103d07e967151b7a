import IndexNotation.Proofs.Expression.Value

namespace IndexNotation

variable {α β γ : Type}

/-- Evaluation with a record of values, which stays when evaluation fails. -/
abbrev WatchM (α β : Type) := ReaderT (Memory α) (ExceptT Fault (StateM (Scratch α × List (List Nat)))) β

namespace WatchM

def quietly (x : EvalM α β) : WatchM α β := fun memory (scratch, asked) =>
  let (outcome, later) := x memory scratch
  (outcome, later, asked)

instance : MonadLift (EvalM α) (WatchM α) := ⟨quietly⟩

def ask (component : List Nat → EvalM α α) (values : List Nat) : WatchM α α :=
  fun memory (scratch, asked) => quietly (component values) memory (scratch, asked ++ [values])

theorem bind_run (x : WatchM α β) (f : β → WatchM α γ) (memory : Memory α)
    (state : Scratch α × List (List Nat)) :
    (x >>= f) memory state =
      match x memory state with
      | (.ok b, middle) => f b memory middle
      | (.error fault, middle) => (.error fault, middle) := by
  change (ExceptT.bindCont (fun b => f b memory) (x memory state).1) (x memory state).2 = _
  rcases x memory state with ⟨outcome, middle⟩
  cases outcome with
  | error fault => rfl
  | ok b => rfl

/-- From this state `x` does what `y` does. Besides, it records the values of `expected` in order, all of
them if it gives a result and an initial segment if it fails. -/
def Follows (x : WatchM α β) (y : EvalM α β) (memory : Memory α) (scratch : Scratch α)
    (expected : List (List Nat)) : Prop :=
  ∃ record, (∀ asked, x memory (scratch, asked) =
      ((y memory scratch).1, (y memory scratch).2, asked ++ record)) ∧
    record <+: expected ∧ ∀ b, (y memory scratch).1 = .ok b → record = expected

variable {memory : Memory α} {scratch : Scratch α}

theorem follows_quietly (y : EvalM α β) : Follows (quietly y) y memory scratch [] := by
  refine ⟨[], fun asked => ?_, List.nil_prefix, fun _ _ => rfl⟩
  rw [List.append_nil]
  rfl

theorem follows_pure (b : β) : Follows (pure b) (pure b : EvalM α β) memory scratch [] :=
  follows_quietly (pure b)

theorem follows_ask (component : List Nat → EvalM α α) (values : List Nat) :
    Follows (ask component values) (component values) memory scratch [values] :=
  ⟨[values], fun _ => rfl, List.prefix_rfl, fun _ _ => rfl⟩

theorem Follows.asked {x : WatchM α β} {y : EvalM α β} {expected : List (List Nat)}
    (follows : Follows x y memory scratch expected) :
    (x memory (scratch, [])).2.2 <+: expected ∧
      ∀ b, (y memory scratch).1 = .ok b → (x memory (scratch, [])).2.2 = expected := by
  obtain ⟨record, same, initial, complete⟩ := follows
  rw [same []]
  exact ⟨initial, complete⟩

theorem Follows.bind {x : WatchM α β} {y : EvalM α β} {f : β → WatchM α γ} {g : β → EvalM α γ}
    {expected later : List (List Nat)} (first : Follows x y memory scratch expected)
    (rest : ∀ b middle, y memory scratch = (.ok b, middle) → Follows (f b) (g b) memory middle later) :
    Follows (x >>= f) (y >>= g) memory scratch (expected ++ later) := by
  obtain ⟨record, same, initial, complete⟩ := first
  rcases ran : y memory scratch with ⟨outcome, middle⟩
  rw [ran] at same complete
  cases outcome with
  | error fault =>
      have stopped : (y >>= g) memory scratch = (.error fault, middle) := by rw [EvalM.bind_run, ran]
      refine ⟨record, fun asked => ?_, initial.trans (List.prefix_append expected later), ?_⟩
      · rw [bind_run, same asked, stopped]
      · intro c done
        rw [stopped] at done
        cases done
  | ok b =>
      have continued : (y >>= g) memory scratch = g b memory middle := by rw [EvalM.bind_run, ran]
      obtain ⟨record', same', initial', complete'⟩ := rest b middle ran
      obtain rfl := complete b rfl
      refine ⟨record ++ record', fun asked => ?_, (List.prefix_append_right_inj record).mpr initial', ?_⟩
      · rw [bind_run, same asked, continued, ← List.append_assoc]
        exact same' (asked ++ record)
      · intro c done
        rw [continued] at done
        rw [complete' c done]

theorem Follows.quietly_bind {y : EvalM α β} {f : β → WatchM α γ} {g : β → EvalM α γ}
    {expected : List (List Nat)}
    (rest : ∀ b middle, y memory scratch = (.ok b, middle) → Follows (f b) (g b) memory middle expected) :
    Follows (quietly y >>= f) (y >>= g) memory scratch expected :=
  (follows_quietly y).bind rest

theorem Follows.bind_silent {x : WatchM α β} {y : EvalM α β} {f : β → WatchM α γ} {g : β → EvalM α γ}
    {expected : List (List Nat)} (first : Follows x y memory scratch expected)
    (rest : ∀ b middle, Follows (f b) (g b) memory middle []) :
    Follows (x >>= f) (y >>= g) memory scratch expected := by
  have both := first.bind fun b middle _ => rest b middle
  rwa [List.append_nil] at both

theorem Follows.foldlM {steps : List (List Nat)} {f : β → List Nat → WatchM α β}
    {g : β → List Nat → EvalM α β} {acc : β}
    (each : ∀ acc values scratch, Follows (f acc values) (g acc values) memory scratch [values]) :
    Follows (steps.foldlM f acc) (steps.foldlM g acc) memory scratch steps := by
  induction steps generalizing acc scratch with
  | nil => exact follows_pure acc
  | cons values steps ih =>
      rw [List.foldlM_cons, List.foldlM_cons]
      exact (each acc values scratch).bind fun next middle _ => ih

variable [Scalar α]

/-- All components are asked for, in row-major order. -/
theorem materialize_follows (space : Space) (dims : List Nat) (component : List Nat → EvalM α α) :
    Follows (materialize space dims (ask component)) (materialize space dims component) memory scratch
      (RowMajor.tuples dims) := by
  apply Follows.quietly_bind
  intro dimension middle _
  apply Follows.quietly_bind
  intro _ middle' _
  rw [RowMajor.foldTuples_eq_foldlM, RowMajor.foldTuples_eq_foldlM]
  apply Follows.foldlM
  intro acc values scratch
  apply Follows.quietly_bind
  intro offset middle _
  exact (follows_ask component values).bind_silent fun x _ => follows_pure (acc.setIfInBounds offset x)

omit [Scalar α] in
theorem once_follows {cache : Nat} {x : WatchM α (Array α)} {y : EvalM α (Array α)}
    {expected : List (List Nat)} (unfilled : scratch.caches[cache]?.join = none)
    (filling : Follows x y memory scratch expected) :
    Follows (EvalM.once cache x) (EvalM.once cache y) memory scratch expected := by
  apply Follows.quietly_bind
  intro found middle looked
  obtain ⟨rfl, rfl⟩ : found = none ∧ middle = scratch := by
    have ran : (EvalM.cached? cache : EvalM α _) memory scratch = (.ok none, scratch) := by
      change (Except.ok scratch.caches[cache]?.join, scratch) = _
      rw [unfilled]
    cases ran.symm.trans looked
    exact ⟨rfl, rfl⟩
  apply filling.bind_silent
  intro components middle
  exact Follows.quietly_bind fun _ _ _ => follows_pure components

omit [Scalar α] in
theorem once_follows_filled {cache : Nat} {x : WatchM α (Array α)} {y : EvalM α (Array α)}
    {components : Array α} (kept : scratch.caches[cache]?.join = some components) :
    Follows (EvalM.once cache x) (EvalM.once cache y) memory scratch [] := by
  apply Follows.quietly_bind
  intro found middle looked
  obtain ⟨rfl, rfl⟩ : found = some components ∧ middle = scratch := by
    have ran : (EvalM.cached? cache : EvalM α _) memory scratch = (.ok (some components), scratch) := by
      change (Except.ok scratch.caches[cache]?.join, scratch) = _
      rw [kept]
    cases ran.symm.trans looked
    exact ⟨rfl, rfl⟩
  exact follows_pure components

end WatchM

namespace CacheNode

abbrev expression (node : CacheNode α) : Expression α := .cached node.operand node.cache node.dims

@[simp] theorem cacheNodes_expression (node : CacheNode α) :
    node.expression.cacheNodes = node :: node.operand.cacheNodes := rfl

/-- What a request asks the operand for: all components while the cache is unfilled, none afterwards. -/
def toAsk (node : CacheNode α) (scratch : Scratch α) : List (List Nat) :=
  match scratch.caches[node.cache]?.join with
  | some _ => []
  | none => RowMajor.tuples node.dims

variable [Scalar α]

def watchedComponent (node : CacheNode α) (values : List Nat) : WatchM α α :=
  cachedComponent node.cache node.operand.space node.dims (WatchM.ask node.operand.component) values

def watchedValue (node : CacheNode α) : WatchM α (Option (Array α)) :=
  cachedComponents node.cache node.operand.space node.dims (WatchM.ask node.operand.component)

theorem once_materialize_follows (node : CacheNode α) (memory : Memory α) (scratch : Scratch α) :
    WatchM.Follows
      (EvalM.once node.cache (materialize node.operand.space node.dims (WatchM.ask node.operand.component)))
      (EvalM.once node.cache (materialize node.operand.space node.dims node.operand.component)) memory
      scratch (node.toAsk scratch) := by
  rw [toAsk]
  rcases found : scratch.caches[node.cache]?.join with _ | components
  · exact WatchM.once_follows found (WatchM.materialize_follows _ _ _)
  · exact WatchM.once_follows_filled found

theorem watchedComponent_follows (node : CacheNode α) (values : List Nat) (memory : Memory α)
    (scratch : Scratch α) :
    WatchM.Follows (node.watchedComponent values) (node.expression.component values) memory scratch
      (node.toAsk scratch) := by
  apply (node.once_materialize_follows memory scratch).bind_silent
  intro components middle
  exact WatchM.Follows.quietly_bind fun _ _ _ => WatchM.follows_quietly _

theorem watchedValue_follows (node : CacheNode α) (memory : Memory α) (scratch : Scratch α) :
    WatchM.Follows node.watchedValue node.expression.value? memory scratch (node.toAsk scratch) :=
  (node.once_materialize_follows memory scratch).bind_silent fun components _ => WatchM.follows_pure (some components)

end CacheNode

end IndexNotation
