import IndexNotation.Proofs.Expression.Defined
import IndexNotation.Proofs.MultiIndex
import IndexNotation.Scalar.Integer

namespace IndexNotation.Expression

variable {α : Type} [Scalar α] {e : Expression α} {m : MultiIndex}

theorem componentAt_of_dims (same : e.freeDims = .ok m.dims) : e.componentAt m = e.component m.values := by
  rw [componentAt, same, EvalM.ofExcept_ok, pure_bind, if_pos rfl]

theorem componentAt_of_ne {dims : List Nat} (computed : e.freeDims = .ok dims) (differ : m.dims ≠ dims) :
    e.componentAt m = EvalM.ofExcept (.error (.wrongDimensions m.dims)) := by
  rw [componentAt, computed, EvalM.ofExcept_ok, pure_bind, if_neg differ]

theorem componentAt_of_error {fault : Fault} (failed : e.freeDims = .error fault) :
    e.componentAt m = EvalM.ofExcept (.error fault) := by
  rw [componentAt, failed]
  rfl

theorem freeDims_of_componentAt {memory : Memory α} {scratch last : Scratch α} {x : α}
    (ran : e.componentAt m memory scratch = (.ok x, last)) : e.freeDims = .ok m.dims := by
  cases computed : e.freeDims with
  | error fault =>
      rw [componentAt_of_error computed] at ran
      cases ran
  | ok dims =>
      by_cases same : m.dims = dims
      · rw [same]
      · rw [componentAt_of_ne computed same] at ran
        cases ran

/-- Whatever a multi-index was made from and however it was stepped, a component is returned only over the free
dimensions, and over these it is the one at the values. Other dimensions fail before anything is evaluated. As long
as the multi-index has not ended its values are in range, and the component has all that its evaluation looks up. -/
theorem componentAt_of_reachable (e : Expression α) (reached : m.Reachable) (memory : Memory α)
    (scratch : Scratch α) :
    (∀ x last, e.componentAt m memory scratch = (.ok x, last) →
      e.freeDims = .ok m.dims ∧ e.component m.values memory scratch = (.ok x, last)) ∧
    (e.freeDims = .ok m.dims → e.componentAt m memory scratch = e.component m.values memory scratch) ∧
    (∀ dims, e.freeDims = .ok dims → m.dims ≠ dims →
      e.componentAt m memory scratch = (.error (.wrongDimensions m.dims), scratch)) ∧
    (∀ fault, e.freeDims = .error fault → e.componentAt m memory scratch = (.error fault, scratch)) ∧
    (m.isAtEnd = false → RowMajor.Below m.values m.dims ∧
      (e.freeDims = .ok m.dims → e.Safe memory → e.Defined memory m.values)) := by
  refine ⟨?_, ?_, ?_, ?_, ?_⟩
  · intro x last ran
    have same := freeDims_of_componentAt ran
    rw [componentAt_of_dims same] at ran
    exact ⟨same, ran⟩
  · intro same
    rw [componentAt_of_dims same]
  · intro dims computed differ
    rw [componentAt_of_ne computed differ]
    rfl
  · intro fault failed
    rw [componentAt_of_error failed]
    rfl
  · intro before
    have below := reached.inRange before
    exact ⟨below, fun same safe => safe.defined_below same below⟩

theorem componentAt_of_reachable_second :
    ∃ (e : Expression (Bounded .signed32)) (memory : Memory (Bounded .signed32)) (m : MultiIndex),
      m.Reachable ∧ e.freeDims = .ok m.dims ∧ RowMajor.Below m.values m.dims ∧
        e.componentAt m memory ⟨#[], #[]⟩ = (.ok ⟨7, by decide⟩, ⟨#[], #[]⟩) ∧
        (e.componentAt (.start [3]) memory ⟨#[], #[]⟩).1 = .error (.wrongDimensions [3]) := by
  let vector : Tensor (Bounded .signed32) := ⟨.standard 2 "X", .stored .member 0 0 2⟩
  let memory : Memory (Bounded .signed32) := ⟨#[⟨0, #[⟨5, by decide⟩, ⟨7, by decide⟩]⟩], 24⟩
  obtain ⟨e, accepted⟩ : ∃ e, Expression.index vector [.letter 'i'] = .ok e := ⟨_, rfl⟩
  have dims : e.freeDims = .ok [2] := by
    cases accepted
    rfl
  have second : e.component [1] memory ⟨#[], #[]⟩ = (.ok ⟨7, by decide⟩, ⟨#[], #[]⟩) := by
    cases accepted
    rfl
  have reached : (MultiIndex.start [2]).increment.Reachable := .increment (.start [2])
  obtain ⟨_, same, _, _, before⟩ := componentAt_of_reachable e reached memory ⟨#[], #[]⟩
  obtain ⟨_, _, differs, _⟩ := componentAt_of_reachable e (.start [3]) memory ⟨#[], #[]⟩
  refine ⟨e, memory, _, reached, dims, (before rfl).1, (same dims).trans second, ?_⟩
  exact congrArg Prod.fst (differs [2] dims (by decide))

/-- At its end a multi-index is read like any other. A value past its dimension reaches into the next row, and a
walk that has stepped off its last tuple reads the first component again. -/
theorem componentAt_past_end :
    ∃ (t : Tensor (Bounded .signed32)) (e : Expression (Bounded .signed32)) (memory : Memory (Bounded .signed32))
      (wide ended : MultiIndex),
      t.Checked memory ∧ Expression.index t [.letter 'i', .letter 'j'] = .ok e ∧
        wide = .ofCoordinates [⟨0, 2⟩, ⟨3, 2⟩] ∧ ended = MultiIndex.increment^[4] (.start [2, 2]) ∧
        wide.Reachable ∧ ended.Reachable ∧ wide.isAtEnd = true ∧ ended.isAtEnd = true ∧
        (e.componentAt wide memory ⟨#[], #[]⟩).1 = (e.component [1, 1] memory ⟨#[], #[]⟩).1 ∧
        (e.componentAt wide memory ⟨#[], #[]⟩).1 = .ok ⟨4, by decide⟩ ∧
        (e.componentAt ended memory ⟨#[], #[]⟩).1 = .ok ⟨1, by decide⟩ := by
  let square : Tensor (Bounded .signed32) :=
    ⟨.tensorProduct [.standard 2 "X", .standard 2 "Y"], .stored .member 0 0 4⟩
  let block : Block (Bounded .signed32) :=
    ⟨0, #[⟨1, by decide⟩, ⟨2, by decide⟩, ⟨3, by decide⟩, ⟨4, by decide⟩]⟩
  let memory : Memory (Bounded .signed32) := ⟨#[block], 32⟩
  have checked : square.Checked memory :=
    ⟨rfl, Components.fits_stored (b := block) rfl .member (Nat.le_refl 4)⟩
  have walked : (MultiIndex.increment^[4] (.start [2, 2])).Reachable :=
    .increment (.increment (.increment (.increment (.start [2, 2]))))
  exact ⟨square, _, memory, _, _, checked, rfl, rfl, rfl, .ofCoordinates _, walked, rfl, rfl, rfl, rfl, rfl⟩

end IndexNotation.Expression
