import IndexNotation.Proofs.DirectAssignment
import IndexNotation.Proofs.Filling

namespace IndexNotation

variable {α : Type}

/-- All cells are still there, and all but the given ones hold what they held. -/
structure Memory.ChangesOnly (cells : Location → Prop) (memory later : Memory α) : Prop where
  kept : ∀ location, ¬ cells location → ∀ x, memory.read? location = some x → later.read? location = some x
  present : ∀ location x, memory.read? location = some x → ∃ y, later.read? location = some y

namespace Memory.ChangesOnly

variable {cells : Location → Prop} {memory middle later : Memory α}

theorem of_extends (kept : memory.Extends later) : memory.ChangesOnly cells later :=
  ⟨fun location _ x found => kept location x found, fun location x found => ⟨x, kept location x found⟩⟩

theorem refl (cells : Location → Prop) (memory : Memory α) : memory.ChangesOnly cells memory :=
  of_extends (.refl memory)

theorem trans (first : memory.ChangesOnly cells middle) (second : middle.ChangesOnly cells later) :
    memory.ChangesOnly cells later := by
  constructor
  · intro location foreign x found
    exact second.kept location foreign x (first.kept location foreign x found)
  · intro location x found
    obtain ⟨y, kept⟩ := first.present location x found
    exact second.present location y kept

theorem mono {wider : Location → Prop} (changes : memory.ChangesOnly cells later)
    (inside : ∀ location, cells location → wider location) : memory.ChangesOnly wider later :=
  ⟨fun location foreign => changes.kept location fun owned => foreign (inside location owned),
    changes.present⟩

theorem value_eq (changes : memory.ChangesOnly cells later) {c : Components α} (fits : c.Fits memory)
    {index : Nat} (spared : ∀ location, c.locate index = .ok location → ¬ cells location) :
    c.value later index = c.value memory index := by
  apply Components.value_congr
  intro location located
  obtain ⟨x, found⟩ := fits.exists_read? located
  rw [found, changes.kept location (spared location located) x found]

end Memory.ChangesOnly

namespace StoreM

variable {β γ : Type} {cells : Location → Prop}

def WritesOnly (cells : Location → Prop) (x : StoreM α β) : Prop :=
  ∀ store : Store α, store.memory.ChangesOnly cells (x store).2.memory

theorem writesOnly_pure (b : β) : WritesOnly cells (pure b : StoreM α β) :=
  fun store => .refl cells store.memory

theorem writesOnly_ofEvalM (x : EvalM α β) : WritesOnly cells (ofEvalM x) :=
  fun store => .refl cells store.memory

theorem WritesOnly.bind {x : StoreM α β} {f : β → StoreM α γ} (first : WritesOnly cells x)
    (rest : ∀ b, WritesOnly cells (f b)) : WritesOnly cells (x >>= f) := by
  intro store
  have step := first store
  rw [bind_run]
  rcases ran : x store with ⟨outcome, middle⟩
  rw [ran] at step
  cases outcome with
  | error fault => exact step
  | ok b => exact step.trans (rest b middle)

theorem WritesOnly.mono {wider : Location → Prop} {x : StoreM α β} (writes : WritesOnly cells x)
    (inside : ∀ location, cells location → wider location) : WritesOnly wider x :=
  fun store => (writes store).mono inside

/-- What follows a check may rely on what the check has found. -/
theorem WritesOnly.ofExcept_bind {outcome : Except Fault β} {f : β → StoreM α γ}
    (rest : ∀ b, outcome = .ok b → WritesOnly cells (f b)) :
    WritesOnly cells (ofExcept outcome >>= f) := by
  cases outcome with
  | error fault => exact fun store => .refl cells store.memory
  | ok b => exact rest b rfl

theorem WritesOnly.foldlM {steps : List γ} {f : β → γ → StoreM α β} {acc : β}
    (each : ∀ acc step, WritesOnly cells (f acc step)) : WritesOnly cells (steps.foldlM f acc) := by
  induction steps generalizing acc with
  | nil => exact writesOnly_pure acc
  | cons step steps ih =>
      rw [List.foldlM_cons]
      exact (each acc step).bind fun next => ih

theorem WritesOnly.forM {steps : List γ} {f : γ → StoreM α PUnit}
    (each : ∀ step, WritesOnly cells (f step)) : WritesOnly cells (steps.forM f) := by
  induction steps with
  | nil => exact writesOnly_pure _
  | cons step steps ih => exact (each step).bind fun _ => ih

end StoreM

theorem Components.writesOnly_set (c : Components α) (index : Nat) (x : α) :
    StoreM.WritesOnly c.Owns (c.set index x) := by
  apply StoreM.WritesOnly.ofExcept_bind
  intro location located store
  constructor
  · intro other foreign y found
    have apart : location ≠ other := by
      intro same
      exact foreign ⟨index, lt_of_locate located, same ▸ located⟩
    exact (Memory.read?_write_of_ne store.memory apart x).trans found
  · intro other y found
    exact Memory.exists_read?_write found x

variable [Scalar α]

theorem Target.writesOnly_assign (target : Target α) (e : Expression α) :
    StoreM.WritesOnly target.tensor.components.Owns (target.assign e) := by
  apply StoreM.WritesOnly.ofExcept_bind
  intro positions _
  apply StoreM.WritesOnly.ofExcept_bind
  intro dimension _
  apply StoreM.WritesOnly.ofExcept_bind
  intro _ _
  refine (StoreM.writesOnly_ofEvalM (target.evaluate e positions)).bind ?_
  intro values
  rw [← values.toArray_toList, List.forM_toArray' values.toList _ rfl]
  exact StoreM.WritesOnly.forM fun w => Components.writesOnly_set _ w.1 w.2

theorem Target.writesOnly_assignDirectly (target : Target α) (e : Expression α) :
    StoreM.WritesOnly target.tensor.components.Owns (target.assignDirectly e) := by
  apply StoreM.WritesOnly.ofExcept_bind
  intro positions _
  rw [RowMajor.foldTuples_eq_foldlM]
  apply StoreM.WritesOnly.foldlM
  intro _ values
  apply StoreM.WritesOnly.ofExcept_bind
  intro operandValues _
  apply StoreM.WritesOnly.ofExcept_bind
  intro offset _
  apply (StoreM.writesOnly_ofEvalM _).bind
  intro x
  exact Components.writesOnly_set _ offset x

namespace Target

variable {target : Target α} {e : Expression α} {positions : List Nat} {store later : Store α}

theorem placed_of_writeEntries {tuples : List (List Nat)}
    (accepted : target.writeEntries e positions tuples store = (.ok (), later)) :
    ∀ values ∈ tuples, ∃ offset, RowMajor.offset values target.dims = .ok offset ∧
      offset < target.tensor.components.length := by
  induction tuples generalizing store with
  | nil => simp
  | cons values tuples ih =>
      rw [writeEntries, List.foldlM_cons] at accepted
      obtain ⟨_, middle, first, rest⟩ := StoreM.bind_run_eq_ok_iff.mp accepted
      rw [List.forall_mem_cons]
      refine ⟨?_, ih rest⟩
      obtain ⟨entry, between, evaluated, written⟩ := StoreM.bind_run_eq_ok_iff.mp first
      obtain ⟨location, _, found, _⟩ := StoreM.bind_run_eq_ok_iff.mp written
      obtain ⟨located, _⟩ := StoreM.ofExcept_run_eq_ok found
      rcases ran : target.evaluateEntry e positions values store.memory store.scratch with ⟨outcome, scratch⟩
      rw [StoreM.ofEvalM, ran] at evaluated
      cases evaluated
      exact ⟨entry.1, evaluateEntry_eq_ok ran, Components.lt_of_locate located⟩

/-- What is evaluated one by one is what the temporary has. -/
theorem entries_of_evaluateEntry (apart : CachesApart [e]) {memory : Memory α} {scratch last : Scratch α}
    {writes : List (Nat × α)}
    (evaluated : (RowMajor.tuples target.dims).mapM (target.evaluateEntry e positions) memory scratch =
      (.ok writes, last)) :
    (RowMajor.tuples target.dims).mapM (target.entry memory scratch.caches e positions) = .ok writes := by
  have run := @evaluate_run _ _ target e positions apart memory scratch
  rw [evaluate_eq, EvalM.bind_run, evaluated] at run
  change Except.ok writes.toArray = _ at run
  obtain ⟨entries, collected, same⟩ := bind_eq_ok_iff.mp run.symm
  rw [collected, List.toArray_inj (Except.ok.inj same)]

end Target

namespace Tensor

variable {t : Tensor α} {symbols : IndexList} {e : Expression α} {store later : Store α}

theorem writesOnly_assign (t : Tensor α) (symbols : IndexList) (e : Expression α) :
    StoreM.WritesOnly t.components.Owns (t.assign symbols e) := by
  apply StoreM.WritesOnly.ofExcept_bind
  intro target named
  obtain ⟨_, _, _, _, rfl⟩ := target_eq_ok named
  exact target.writesOnly_assign e

theorem writesOnly_assignDirectly (t : Tensor α) (symbols : IndexList) (e : Expression α) :
    StoreM.WritesOnly t.components.Owns (t.assignDirectly symbols e) := by
  apply StoreM.WritesOnly.ofExcept_bind
  intro target named
  obtain ⟨_, _, _, _, rfl⟩ := target_eq_ok named
  exact target.writesOnly_assignDirectly e

theorem assigned_of_assign (writable : t.isWritable) (checked : t.Checked store.memory)
    (distinct : e.freeSymbols.Nodup) (apart : CachesApart [e])
    (accepted : t.assign symbols e store = (.ok (), later)) : t.Assigned symbols e store later := by
  by_cases matching : t.Matches symbols e
  · obtain ⟨target, factors, positions, named, rfl, serves⟩ :=
      exists_serves checked.length distinct matching
    rw [assign, StoreM.bind_run, StoreM.ofExcept_run, named] at accepted
    dsimp only at accepted
    cases room : Size.reserve target.tensor.components.length (8 + (Scalar.width α + 7) / 8 * 8) with
    | error fault =>
        cases (Target.assign_run_of_capacity store serves.aligned checked.length room).symm.trans accepted
    | ok done =>
        obtain ⟨scratch, ran⟩ := Target.assign_run apart store serves.aligned checked.length room
        rw [ran] at accepted
        cases collected : (RowMajor.tuples target.dims).mapM
            (target.entry store.memory store.scratch.caches e positions) with
        | error fault =>
            rw [collected] at accepted
            cases accepted
        | ok writes =>
            obtain ⟨last, written, assigned⟩ := serves.assigned writable checked apart collected scratch
            rw [collected] at accepted
            cases written.symm.trans accepted
            exact assigned
  · obtain ⟨fault, _, refused⟩ := assign_refused checked.length distinct matching store
    cases refused.symm.trans accepted

theorem assigned_of_assignDirectly (writable : t.isWritable) (checked : t.Checked store.memory)
    (distinct : e.freeSymbols.Nodup) (apart : CachesApart [e])
    (avoids : e.Avoids t.components.Owns store.scratch.caches)
    (accepted : t.assignDirectly symbols e store = (.ok (), later)) : t.Assigned symbols e store later := by
  by_cases matching : t.Matches symbols e
  · obtain ⟨target, factors, positions, named, rfl, serves⟩ :=
      exists_serves checked.length distinct matching
    rw [assignDirectly, StoreM.bind_run, StoreM.ofExcept_run, named] at accepted
    dsimp only at accepted
    rw [Target.assignDirectly_eq serves.aligned] at accepted
    have placed : ∀ values ∈ RowMajor.tuples target.dims, ∀ offset,
        RowMajor.offset values target.dims = .ok offset → offset < target.tensor.components.length := by
      intro values present offset numbered
      obtain ⟨_, same, inside⟩ := Target.placed_of_writeEntries accepted values present
      cases numbered.symm.trans same
      exact inside
    have direct := @Target.writeEntries_run _ _ target e positions _ store.memory avoids writable _ placed store
      (fun _ _ => rfl) checked.fits fun _ filled => filled
    rcases evaluated : (RowMajor.tuples target.dims).mapM (target.evaluateEntry e positions) store.memory
      store.scratch with ⟨outcome, scratch⟩
    rw [evaluated] at direct
    cases outcome with
    | error fault =>
        obtain ⟨written, failed⟩ := direct
        cases failed.symm.trans accepted
    | ok writes =>
        obtain ⟨last, written, assigned⟩ := serves.assigned writable checked apart
          (Target.entries_of_evaluateEntry apart evaluated) scratch
        cases written.symm.trans (direct.symm.trans accepted)
        exact assigned
  · obtain ⟨fault, _, refused⟩ := assign_refused checked.length distinct matching store
    rw [assignDirectly_refused checked.length distinct matching] at accepted
    cases refused.symm.trans accepted

end Tensor

end IndexNotation
