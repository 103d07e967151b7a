import IndexNotation.Components
import IndexNotation.Proofs.Outcome
/-!
Evaluation as the outcome it has: what is evaluated twice on the same memory gives the same outcome, as
long as the caches in between hold what they are known to hold.
-/
namespace IndexNotation

abbrev Caches (α : Type) := Array (Option (Array α))

theorem CountM.ofExcept_bind_congr {β γ : Type} {x : Except Fault β} {f g : β → CountM γ}
    (same : ∀ b, x = .ok b → f b = g b) : CountM.ofExcept x >>= f = CountM.ofExcept x >>= g := by
  cases x with
  | error fault => rfl
  | ok b => exact same b rfl

namespace EvalM

variable {α β γ : Type}

theorem bind_run (x : EvalM α β) (f : β → EvalM α γ) (memory : Memory α) (scratch : Scratch α) :
    (x >>= f) memory scratch =
      match x memory scratch with
      | (.ok b, middle) => f b memory middle
      | (.error fault, middle) => (.error fault, middle) := by
  change (ExceptT.bindCont (fun b => f b memory) (x memory scratch).1) (x memory scratch).2 = _
  rcases x memory scratch with ⟨outcome, middle⟩
  cases outcome with
  | error fault => rfl
  | ok b => rfl

theorem bind_run_eq_ok_iff {x : EvalM α β} {f : β → EvalM α γ} {memory : Memory α}
    {scratch last : Scratch α} {c : γ} :
    (x >>= f) memory scratch = (.ok c, last) ↔
      ∃ b middle, x memory scratch = (.ok b, middle) ∧ f b memory middle = (.ok c, last) := by
  rw [bind_run]
  rcases x memory scratch with ⟨outcome, middle⟩
  cases outcome with
  | error fault =>
      constructor
      · intro rest
        cases rest
      · intro ⟨b, middle', same, _⟩
        cases same
  | ok b =>
      constructor
      · intro rest
        exact ⟨b, middle, rfl, rest⟩
      · intro ⟨b', middle', same, rest⟩
        cases same
        exact rest

theorem bind_ofExcept_run (x : EvalM α β) (f : β → Except Fault γ) (memory : Memory α) (scratch : Scratch α) :
    ((do ofExcept (f (← x))) memory scratch).1 = (x memory scratch).1 >>= f := by
  rw [bind_run]
  rcases x memory scratch with ⟨outcome, middle⟩
  cases outcome with
  | error fault => rfl
  | ok b => rfl

theorem bind_run_eq_error_iff {x : EvalM α β} {f : β → EvalM α γ} {memory : Memory α} {scratch last : Scratch α}
    {fault : Fault} :
    (x >>= f) memory scratch = (.error fault, last) ↔
      x memory scratch = (.error fault, last) ∨
        ∃ b middle, x memory scratch = (.ok b, middle) ∧ f b memory middle = (.error fault, last) := by
  rw [bind_run]
  rcases x memory scratch with ⟨outcome, middle⟩
  cases outcome with
  | error other =>
      constructor
      · intro failed
        cases failed
        exact Or.inl rfl
      · rintro (failed | ⟨b, _, absent, _⟩)
        · cases failed
          rfl
        · cases absent
  | ok b =>
      constructor
      · exact fun failed => Or.inr ⟨b, middle, rfl, failed⟩
      · rintro (absent | ⟨_, _, same, failed⟩)
        · cases absent
        · cases same
          exact failed

section Sequence

variable {f : β → EvalM α γ} {memory : Memory α} {scratch last : Scratch α} {xs : List β}

theorem forall₂_of_mapM {ys : List γ} (ran : xs.mapM f memory scratch = (.ok ys, last)) :
    List.Forall₂ (fun x y => ∃ before after, f x memory before = (.ok y, after)) xs ys := by
  induction xs generalizing scratch ys with
  | nil =>
      cases ran
      exact .nil
  | cons x xs ih =>
      rw [List.mapM_cons] at ran
      rcases bind_run_eq_ok_iff.mp ran with ⟨y, middle, first, ran⟩
      rcases bind_run_eq_ok_iff.mp ran with ⟨ys, _, rest, made⟩
      cases made
      exact .cons ⟨scratch, middle, first⟩ (ih rest)

theorem mapM_run_eq_error_iff {fault : Fault} :
    xs.mapM f memory scratch = (.error fault, last) ↔
      ∃ front x back ys middle, xs = front ++ x :: back ∧ front.mapM f memory scratch = (.ok ys, middle) ∧
        f x memory middle = (.error fault, last) := by
  constructor
  · intro failed
    induction xs generalizing scratch with
    | nil => cases failed
    | cons x xs ih =>
        rw [List.mapM_cons, bind_run_eq_error_iff] at failed
        rcases failed with here | ⟨y, next, first, failed⟩
        · exact ⟨[], x, xs, [], scratch, rfl, rfl, here⟩
        rcases bind_run_eq_error_iff.mp failed with rest | ⟨_, _, _, made⟩
        · rcases ih rest with ⟨front, z, back, ys, middle, rfl, ran, fails⟩
          refine ⟨x :: front, z, back, y :: ys, middle, rfl, ?_, fails⟩
          rw [List.mapM_cons, bind_run, first]
          dsimp only
          rw [bind_run, ran]
          rfl
        · cases made
  · rintro ⟨front, x, back, ys, middle, rfl, ran, fails⟩
    rw [List.mapM_append, bind_run, ran]
    dsimp only
    rw [bind_run, List.mapM_cons, bind_run, fails]

theorem exists_mapM_run (each : ∀ x ∈ xs, ∃ y, f x memory scratch = (.ok y, scratch)) :
    ∃ ys, xs.mapM f memory scratch = (.ok ys, scratch) := by
  induction xs with
  | nil => exact ⟨[], rfl⟩
  | cons x xs ih =>
      rcases each x List.mem_cons_self with ⟨y, first⟩
      rcases ih fun z present => each z (List.mem_cons_of_mem x present) with ⟨ys, rest⟩
      refine ⟨y :: ys, ?_⟩
      rw [List.mapM_cons, bind_run, first]
      dsimp only
      rw [bind_run, rest]
      rfl

end Sequence

theorem liftM_eq (x : EvalM α β) : (liftM x : EvalM α β) = x := rfl

theorem once_run (cache : Nat) (evaluate : EvalM α (Array α)) (memory : Memory α)
    (scratch : Scratch α) :
    once cache evaluate memory scratch =
      match scratch.caches[cache]?.join with
      | some components => (.ok components, scratch)
      | none =>
        match evaluate memory scratch with
        | (.ok components, later) =>
          (.ok components,
            { later with caches := later.caches.setIfInBounds cache (some components) })
        | (.error fault, later) => (.error fault, later) := by
  have looked : cached? cache memory scratch = (.ok scratch.caches[cache]?.join, scratch) := rfl
  rw [once, bind_run, liftM_eq, looked]
  cases scratch.caches[cache]?.join with
  | some components => rfl
  | none =>
      change (evaluate >>= fun components => do
        fill cache components
        pure components) memory scratch = _
      rw [bind_run]
      rcases evaluate memory scratch with ⟨outcome, later⟩
      cases outcome with
      | error fault => rfl
      | ok components => rfl

@[simp] theorem ofExcept_ok (b : β) : (ofExcept (.ok b) : EvalM α β) = pure b := rfl

theorem ofCountM_run (x : CountM β) (memory : Memory α) (scratch : Scratch α) :
    (ofCountM x : EvalM α β) memory scratch =
      ((x scratch.counts).1, { scratch with counts := (x scratch.counts).2 }) := rfl

theorem ofCountM_bind (x : CountM β) (f : β → CountM γ) :
    (ofCountM (x >>= f) : EvalM α γ) = ofCountM x >>= fun b => ofCountM (f b) := by
  funext memory scratch
  have bound : (x >>= f) scratch.counts =
      ExceptT.bindCont f (x scratch.counts).1 (x scratch.counts).2 := rfl
  rw [bind_run, ofCountM_run, ofCountM_run, bound]
  rcases x scratch.counts with ⟨outcome, counts⟩
  cases outcome with
  | error fault => rfl
  | ok b => rfl

/-- From any caches that satisfy `kept` the outcome is `outcome`, and those left behind satisfy `kept`
again. -/
def Yields (kept : Caches α → Prop) (memory : Memory α) (x : EvalM α β)
    (outcome : Except Fault β) : Prop :=
  ∀ scratch, kept scratch.caches →
    (x memory scratch).1 = outcome ∧ kept (x memory scratch).2.caches

variable {kept : Caches α → Prop} {memory : Memory α}

theorem yields_ofExcept (outcome : Except Fault β) : Yields kept memory (ofExcept outcome) outcome :=
  fun _ holds => ⟨rfl, holds⟩

theorem yields_pure (b : β) : Yields kept memory (pure b) (.ok b) := fun _ holds => ⟨rfl, holds⟩

theorem yields_read (location : Location) :
    Yields kept memory (read location) (memory.read location) := fun _ holds => ⟨rfl, holds⟩

theorem yields_ofCountM {x : CountM β} (steady : x.Steady) :
    Yields kept memory (ofCountM x) (x #[]).1 :=
  fun scratch holds => ⟨steady scratch.counts #[], holds⟩

theorem Yields.bind {x : EvalM α β} {f : β → EvalM α γ} {outcome : Except Fault β}
    {g : β → Except Fault γ} (first : Yields kept memory x outcome)
    (rest : ∀ b, outcome = .ok b → Yields kept memory (f b) (g b)) :
    Yields kept memory (x >>= f) (outcome >>= g) := by
  intro scratch holds
  obtain ⟨same, holds'⟩ := first scratch holds
  rw [bind_run]
  rcases found : x memory scratch with ⟨outcome', middle⟩
  rw [found] at same holds'
  subst same
  cases outcome' with
  | error fault => exact ⟨rfl, holds'⟩
  | ok b => exact rest b rfl middle holds'

theorem Yields.ofExcept_bind {outcome : Except Fault β} {f : β → EvalM α γ}
    {g : β → Except Fault γ} (rest : ∀ b, outcome = .ok b → Yields kept memory (f b) (g b)) :
    Yields kept memory (ofExcept outcome >>= f) (outcome >>= g) :=
  (yields_ofExcept outcome).bind rest

theorem Yields.foldlM {steps : List γ} {f : β → γ → EvalM α β} {g : β → γ → Except Fault β}
    {acc : β} (each : ∀ acc step, step ∈ steps → Yields kept memory (f acc step) (g acc step)) :
    Yields kept memory (steps.foldlM f acc) (steps.foldlM g acc) := by
  induction steps generalizing acc with
  | nil => exact yields_pure acc
  | cons step steps ih =>
      rw [List.foldlM_cons, List.foldlM_cons]
      apply (each acc step List.mem_cons_self).bind
      intro next _
      exact ih fun acc later present => each acc later (List.mem_cons_of_mem step present)

theorem Yields.foldTuples {dims : List Nat} {f : List Nat → β → EvalM α β}
    {g : List Nat → β → Except Fault β} {acc : β}
    (each : ∀ acc values, RowMajor.Below values dims →
      Yields kept memory (f values acc) (g values acc)) :
    Yields kept memory (RowMajor.foldTuples f dims acc) (RowMajor.foldTuples g dims acc) := by
  rw [RowMajor.foldTuples_eq_foldlM, RowMajor.foldTuples_eq_foldlM]
  apply Yields.foldlM
  intro acc values present
  exact each acc values (RowMajor.mem_tuples.mp present)

end EvalM

namespace Components

variable {α : Type}

def value (memory : Memory α) : Components α → Nat → Except Fault α
  | stored _ block offset length, index =>
    if index < length then memory.read ⟨block, offset + index⟩ else .error .outOfBounds
  | generated generator, index => (generator.evaluate index #[]).1
  | window base offset length, index =>
    if index < length then base.value memory (offset + index) else .error .termsBroken

theorem get_yields {kept : Caches α → Prop} {memory : Memory α} (c : Components α) (index : Nat) :
    EvalM.Yields kept memory (c.get index) (c.value memory index) := by
  induction c generalizing index with
  | stored storage block offset length =>
      rw [get, value]
      split
      · exact EvalM.yields_read _
      · exact EvalM.yields_ofExcept _
  | generated generator => exact EvalM.yields_ofCountM (generator.steady_evaluate index)
  | window base offset length ih =>
      rw [get, value]
      split
      · exact ih (offset + index)
      · exact EvalM.yields_ofExcept _

end Components

end IndexNotation
