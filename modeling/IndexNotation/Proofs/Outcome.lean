import IndexNotation.Fault
import Mathlib.Data.List.Forall2

namespace IndexNotation

variable {β γ : Type}

theorem bind_eq_ok_iff {x : Except Fault β} {f : β → Except Fault γ} {c : γ} :
    x >>= f = .ok c ↔ ∃ b, x = .ok b ∧ f b = .ok c := by
  cases x with
  | error fault =>
      constructor
      · intro same
        cases same
      · intro given
        rcases given with ⟨b, absent, _⟩
        cases absent
  | ok b =>
      constructor
      · intro same
        exact ⟨b, rfl, same⟩
      · intro given
        rcases given with ⟨b', same, rest⟩
        cases same
        exact rest

theorem bind_eq_error_iff {x : Except Fault β} {f : β → Except Fault γ} {fault : Fault} :
    x >>= f = .error fault ↔ x = .error fault ∨ ∃ b, x = .ok b ∧ f b = .error fault := by
  cases x with
  | error fault' =>
      constructor
      · intro same
        cases same
        exact Or.inl rfl
      · intro either
        rcases either with same | ⟨b, absent, _⟩
        · cases same
          rfl
        · cases absent
  | ok b =>
      constructor
      · intro later
        exact Or.inr ⟨b, rfl, later⟩
      · intro either
        rcases either with absent | ⟨b', same, later⟩
        · cases absent
        · cases same
          exact later

@[simp] theorem ok_bind (b : β) (f : β → Except Fault γ) : Except.ok b >>= f = f b := rfl

@[simp] theorem error_bind (fault : Fault) (f : β → Except Fault γ) :
    Except.error fault >>= f = .error fault := rfl

@[simp] theorem refuse_bind (reason : Refusal) (f : β → Except Fault γ) :
    refuse reason >>= f = refuse reason := rfl

@[simp] theorem refuse_map (reason : Refusal) (f : β → γ) :
    f <$> (refuse reason : Except Fault β) = refuse reason := rfl

@[simp] theorem refuse_ne_ok (reason : Refusal) (b : β) : refuse reason ≠ .ok b := by
  intro same
  cases same

@[simp] theorem pure_eq_ok_iff {a b : β} : (pure a : Except Fault β) = .ok b ↔ a = b := by
  constructor
  · intro same
    cases same
    rfl
  · intro same
    rw [same]
    rfl

theorem mapM_eq_ok_iff {f : β → Except Fault γ} {xs : List β} {ys : List γ} :
    xs.mapM f = .ok ys ↔ List.Forall₂ (fun x y => f x = .ok y) xs ys := by
  induction xs generalizing ys with
  | nil =>
      simp only [List.mapM_nil, pure_eq_ok_iff, List.forall₂_nil_left_iff]
      exact eq_comm
  | cons x xs ih =>
      simp only [List.mapM_cons, bind_eq_ok_iff, ih, pure_eq_ok_iff, List.forall₂_cons_left_iff]
      constructor
      · intro given
        rcases given with ⟨y, first, ys, rest, rfl⟩
        exact ⟨y, ys, first, rest, rfl⟩
      · intro given
        rcases given with ⟨y, ys, first, rest, rfl⟩
        exact ⟨y, first, ys, rest, rfl⟩

theorem exists_of_mapM {f : β → Except Fault γ} {xs : List β} {ys : List γ}
    (collected : xs.mapM f = .ok ys) {x : β} (present : x ∈ xs) : ∃ y ∈ ys, f x = .ok y := by
  rw [mapM_eq_ok_iff] at collected
  induction collected with
  | nil => cases present
  | cons first _ ih =>
      rcases List.mem_cons.mp present with here | later
      · exact ⟨_, List.mem_cons_self, here ▸ first⟩
      · rcases ih later with ⟨y, inside, computed⟩
        exact ⟨y, List.mem_cons_of_mem _ inside, computed⟩

theorem mapM_eq_error {f : β → Except Fault γ} {xs : List β} {fault : Fault}
    (failed : xs.mapM f = .error fault) : ∃ x ∈ xs, f x = .error fault := by
  induction xs with
  | nil => cases failed
  | cons x xs ih =>
      rw [List.mapM_cons] at failed
      rcases bind_eq_error_iff.mp failed with first | ⟨y, _, later⟩
      · exact ⟨x, List.mem_cons_self, first⟩
      · rcases bind_eq_error_iff.mp later with rest | ⟨ys, _, done⟩
        · obtain ⟨x', present, fails⟩ := ih rest
          exact ⟨x', List.mem_cons_of_mem x present, fails⟩
        · cases done

theorem foldlM_push {m : Type → Type} [Monad m] [LawfulMonad m] {f : β → m γ} {xs : List β}
    {acc : Array γ} :
    xs.foldlM (fun acc x => do return acc.push (← f x)) acc =
      (do return acc ++ (← xs.mapM f).toArray) := by
  induction xs generalizing acc with
  | nil => simp
  | cons x xs ih =>
      rw [List.foldlM_cons, List.mapM_cons, bind_assoc, bind_assoc]
      apply congrArg (f x >>= ·)
      funext y
      rw [pure_bind, ih, bind_assoc]
      apply congrArg (xs.mapM f >>= ·)
      funext ys
      rw [pure_bind]
      simp

theorem exists_mapM_eq_ok {f : β → Except Fault γ} {xs : List β}
    (each : ∀ x ∈ xs, ∃ y, f x = .ok y) : ∃ ys, xs.mapM f = .ok ys := by
  induction xs with
  | nil => exact ⟨[], rfl⟩
  | cons x xs ih =>
      obtain ⟨y, first⟩ := each x (by simp)
      obtain ⟨ys, rest⟩ := ih fun next present => each next (by simp [present])
      exact ⟨y :: ys, mapM_eq_ok_iff.mpr (.cons first (mapM_eq_ok_iff.mp rest))⟩

theorem foldlM_congr {steps : List γ} {f g : β → γ → Except Fault β} {acc : β}
    (same : ∀ acc, ∀ step ∈ steps, f acc step = g acc step) :
    steps.foldlM f acc = steps.foldlM g acc := by
  induction steps generalizing acc with
  | nil => rfl
  | cons step steps ih =>
      rw [List.foldlM_cons, List.foldlM_cons, same acc step List.mem_cons_self]
      apply congrArg (g acc step >>= ·)
      funext next
      apply ih
      exact fun acc later present => same acc later (List.mem_cons_of_mem step present)

theorem foldlM_eq_error {steps : List γ} {f : β → γ → Except Fault β} {acc : β} {fault : Fault}
    (failed : steps.foldlM f acc = .error fault) :
    ∃ before, ∃ step ∈ steps, f before step = .error fault := by
  induction steps generalizing acc with
  | nil => cases failed
  | cons step steps ih =>
      rw [List.foldlM_cons] at failed
      rcases bind_eq_error_iff.mp failed with first | later
      · exact ⟨acc, step, List.mem_cons_self, first⟩
      · rcases later with ⟨next, _, rest⟩
        rcases ih rest with ⟨before, step', present, fails⟩
        exact ⟨before, step', List.mem_cons_of_mem step present, fails⟩

theorem foldlM_invariant {kept : β → Prop} {f : β → γ → Except Fault β} {steps : List γ}
    {acc last : β} (start : kept acc) (each : ∀ acc step next, kept acc → f acc step = .ok next → kept next)
    (ran : steps.foldlM f acc = .ok last) : kept last := by
  induction steps generalizing acc with
  | nil =>
      cases ran
      exact start
  | cons step steps ih =>
      rw [List.foldlM_cons] at ran
      rcases bind_eq_ok_iff.mp ran with ⟨next, first, rest⟩
      exact ih (each acc step next start first) rest

theorem forM_eq_ok_iff {f : β → Except Fault Unit} {xs : List β} {done : Unit} :
    xs.forM f = .ok done ↔ ∀ x ∈ xs, f x = .ok () := by
  induction xs with
  | nil => simp
  | cons x xs ih =>
      have unfolded : (x :: xs).forM f = f x >>= fun _ => xs.forM f := rfl
      simp only [unfolded, bind_eq_ok_iff, ih, List.forall_mem_cons]
      constructor
      · intro given
        rcases given with ⟨_, first, rest⟩
        exact ⟨first, rest⟩
      · intro given
        rcases given with ⟨first, rest⟩
        exact ⟨(), first, rest⟩

theorem forM_eq_error {f : β → Except Fault Unit} {xs : List β} {fault : Fault}
    (failed : xs.forM f = .error fault) : ∃ x ∈ xs, f x = .error fault := by
  induction xs with
  | nil => cases failed
  | cons x xs ih =>
      have unfolded : (x :: xs).forM f = f x >>= fun _ => xs.forM f := rfl
      rw [unfolded] at failed
      rcases bind_eq_error_iff.mp failed with first | ⟨_, _, rest⟩
      · exact ⟨x, List.mem_cons_self, first⟩
      · rcases ih rest with ⟨x', present, fails⟩
        exact ⟨x', List.mem_cons_of_mem x present, fails⟩

end IndexNotation
