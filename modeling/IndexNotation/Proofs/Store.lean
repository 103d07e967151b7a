import IndexNotation.Store

namespace IndexNotation.StoreM

variable {α β γ : Type}

theorem bind_run (x : StoreM α β) (f : β → StoreM α γ) (store : Store α) :
    (x >>= f) store =
      match x store with
      | (.ok b, middle) => f b middle
      | (.error fault, middle) => (.error fault, middle) := by
  change (ExceptT.bindCont f (x store).1) (x store).2 = _
  rcases x store with ⟨outcome, middle⟩
  cases outcome with
  | error fault => rfl
  | ok b => rfl

theorem bind_run_eq_ok_iff {x : StoreM α β} {f : β → StoreM α γ} {store last : Store α} {c : γ} :
    (x >>= f) store = (.ok c, last) ↔
      ∃ b middle, x store = (.ok b, middle) ∧ f b middle = (.ok c, last) := by
  rw [bind_run]
  rcases x store with ⟨outcome, middle⟩
  cases outcome with
  | error fault =>
      constructor
      · intro rest
        cases rest
      · intro steps
        obtain ⟨b, middle', same, _⟩ := steps
        cases same
  | ok b =>
      constructor
      · intro rest
        exact ⟨b, middle, rfl, rest⟩
      · intro steps
        obtain ⟨b', middle', same, rest⟩ := steps
        cases same
        exact rest

@[simp] theorem ofExcept_run (x : Except Fault β) (store : Store α) :
    (ofExcept x : StoreM α β) store = (x, store) := rfl

theorem ofExcept_run_eq_ok {x : Except Fault β} {b : β} {store later : Store α}
    (ran : ofExcept x store = (.ok b, later)) : x = .ok b ∧ later = store := by
  cases ran
  exact ⟨rfl, rfl⟩

end IndexNotation.StoreM
