import IndexNotation.Proofs.Filling
import IndexNotation.Proofs.DirectAssignment

namespace IndexNotation

variable {α : Type} [Scalar α]

namespace Target

variable {target : Target α} {e : Expression α} {positions : List Nat} {memory : Memory α}
  {scratch last : Scratch α}

theorem offsets_of_evaluateEntry {writes : List (Nat × α)}
    (evaluated : (RowMajor.tuples target.dims).mapM (target.evaluateEntry e positions) memory scratch =
      (.ok writes, last)) :
    writes.map Prod.fst = List.range target.dims.prod ∧ target.dims.prod ≤ Size.bound := by
  apply RowMajor.offsets_eq_range
  rw [List.forall₂_map_right_iff]
  refine (EvalM.forall₂_of_mapM evaluated).imp ?_
  rintro values write ⟨before, after, entry⟩
  exact evaluateEntry_eq_ok entry

/-- What stops an assignment to named slots, and the caches and counts that it leaves: the indices do not match, the
temporary is too large for memory, or some component cannot be evaluated after those in front of it. -/
inductive Obstacle (target : Target α) (e : Expression α) (store : Store α) (fault : Fault) : Scratch α → Prop
  | indices (apart : FreeIndex.align target.free e.free = .error fault) : Obstacle target e store fault store.scratch
  | room {positions : List Nat} (aligned : FreeIndex.align target.free e.free = .ok positions)
      (full : Size.reserve target.tensor.components.length (8 + (Scalar.width α + 7) / 8 * 8) = .error fault) :
      Obstacle target e store fault store.scratch
  | component {positions : List Nat} {front back : List (List Nat)} {values : List Nat} {writes : List (Nat × α)}
      {middle last : Scratch α} (aligned : FreeIndex.align target.free e.free = .ok positions)
      (room : Size.reserve target.tensor.components.length (8 + (Scalar.width α + 7) / 8 * 8) = .ok ())
      (order : RowMajor.tuples target.dims = front ++ values :: back)
      (evaluated : front.mapM (target.evaluateEntry e positions) store.memory store.scratch = (.ok writes, middle))
      (fails : target.evaluateEntry e positions values store.memory middle = (.error fault, last)) :
      Obstacle target e store fault last

variable {store later : Store α} {fault : Fault}

theorem Obstacle.assign_run (checked : target.tensor.Checked store.memory)
    (obstacle : target.Obstacle e store fault scratch) :
    target.assign e store = (.error fault, { store with scratch }) := by
  cases obstacle with
  | indices apart => rw [assign, StoreM.bind_run, StoreM.ofExcept_run, apart]
  | room aligned full => exact assign_run_of_capacity store aligned checked.length full
  | @component positions front back values writes middle last aligned room order evaluated fails =>
      have failed := EvalM.mapM_run_eq_error_iff.mpr ⟨front, values, back, writes, middle, order, evaluated, fails⟩
      rw [assign_eq aligned checked.length room, failed]

/-- An assignment that fails met something in its way, if there is a cell for each component of a temporary. -/
theorem exists_obstacle (checked : target.tensor.Checked store.memory)
    (places : ∀ positions writes last,
      (RowMajor.tuples target.dims).mapM (target.evaluateEntry e positions) store.memory store.scratch =
        (.ok writes, last) →
      ∀ w ∈ writes, ∃ location, target.tensor.components.locate w.1 = .ok location)
    (failed : target.assign e store = (.error fault, later)) :
    ∃ scratch, later = { store with scratch } ∧ target.Obstacle e store fault scratch := by
  cases aligned : FreeIndex.align target.free e.free with
  | error stopped =>
      rw [assign, StoreM.bind_run, StoreM.ofExcept_run, aligned] at failed
      cases failed
      exact ⟨store.scratch, rfl, .indices aligned⟩
  | ok positions =>
      cases room : Size.reserve target.tensor.components.length (8 + (Scalar.width α + 7) / 8 * 8) with
      | error stopped =>
          rw [assign_run_of_capacity store aligned checked.length room] at failed
          cases failed
          exact ⟨store.scratch, rfl, .room aligned room⟩
      | ok done =>
          rw [assign_eq aligned checked.length room] at failed
          rcases collected : (RowMajor.tuples target.dims).mapM (target.evaluateEntry e positions) store.memory
            store.scratch with ⟨outcome, scratch⟩
          rw [collected] at failed
          cases outcome with
          | error stopped =>
              cases failed
              rcases EvalM.mapM_run_eq_error_iff.mp collected with
                ⟨front, values, back, writes, middle, order, evaluated, fails⟩
              exact ⟨scratch, rfl, .component aligned room order evaluated fails⟩
          | ok writes =>
              -- all components are there, and each write finds its cell
              have written := Components.forM_set_eq (places positions writes scratch collected) { store with scratch }
              cases written.symm.trans failed

end Target

namespace Tensor

variable {t : Tensor α} {symbols : IndexList} {e : Expression α} {store later : Store α} {fault : Fault}

inductive Obstacle (t : Tensor α) (symbols : IndexList) (e : Expression α) (store : Store α) (fault : Fault) :
    Scratch α → Prop
  | slots (named : t.target symbols = .error fault) : Obstacle t symbols e store fault store.scratch
  | components {target : Target α} {scratch : Scratch α} (named : t.target symbols = .ok target)
      (obstacle : target.Obstacle e store fault scratch) : Obstacle t symbols e store fault scratch

theorem exists_locate_of_evaluateEntry {target : Target α} {positions : List Nat} {scratch last : Scratch α}
    {writes : List (Nat × α)} (writable : t.isWritable) (checked : t.Checked store.memory)
    (named : t.target symbols = .ok target)
    (evaluated : (RowMajor.tuples target.dims).mapM (target.evaluateEntry e positions) store.memory scratch =
      (.ok writes, last)) :
    ∀ w ∈ writes, ∃ location, t.components.locate w.1 = .ok location := by
  intro w written
  rcases Target.offsets_of_evaluateEntry evaluated with ⟨offsets, bounded⟩
  rcases target_eq_ok named with ⟨factors, indexed, _, computed, _⟩
  have numbered : w.1 < target.dims.prod := by
    rw [← List.mem_range, ← offsets]
    exact List.mem_map_of_mem written
  have inside := Space.lt_of_lt_prod_indexed checked.length indexed computed bounded numbered
  rcases Components.exists_locate checked.fits writable inside with ⟨location, located, _⟩
  exact ⟨location, located⟩

theorem Obstacle.assign_run {scratch : Scratch α} (checked : t.Checked store.memory)
    (obstacle : t.Obstacle symbols e store fault scratch) :
    t.assign symbols e store = (.error fault, { store with scratch }) := by
  cases obstacle with
  | slots named => rw [assign, StoreM.bind_run, StoreM.ofExcept_run, named]
  | components named obstacle =>
      rcases target_eq_ok named with ⟨_, _, _, _, same⟩
      subst same
      rw [assign, StoreM.bind_run, StoreM.ofExcept_run, named]
      exact obstacle.assign_run checked

theorem exists_obstacle (writable : t.isWritable) (checked : t.Checked store.memory)
    (failed : t.assign symbols e store = (.error fault, later)) :
    ∃ scratch, later = { store with scratch } ∧ t.Obstacle symbols e store fault scratch := by
  rw [assign, StoreM.bind_run, StoreM.ofExcept_run] at failed
  cases named : t.target symbols with
  | error stopped =>
      rw [named] at failed
      cases failed
      exact ⟨store.scratch, rfl, .slots named⟩
  | ok target =>
      rcases target_eq_ok named with ⟨_, _, _, _, same⟩
      subst same
      rw [named] at failed
      rcases Target.exists_obstacle checked
        (fun _ _ _ collected => exists_locate_of_evaluateEntry writable checked named collected) failed with
        ⟨scratch, kept, obstacle⟩
      exact ⟨scratch, kept, .components named obstacle⟩

/-- An assignment fails exactly where something stands in its way before it writes: a failed one leaves every cell
as it was, and a component that fails was evaluated on the memory before the call. -/
theorem assign_eq_error_iff (writable : t.isWritable) (checked : t.Checked store.memory) :
    t.assign symbols e store = (.error fault, later) ↔
      later = { store with scratch := later.scratch } ∧ t.Obstacle symbols e store fault later.scratch := by
  constructor
  · intro failed
    rcases exists_obstacle writable checked failed with ⟨scratch, rfl, obstacle⟩
    exact ⟨rfl, obstacle⟩
  · rintro ⟨kept, obstacle⟩
    rw [kept]
    exact obstacle.assign_run checked

/-- A shared matrix inside a direct sum is assigned the sum of itself and its transpose, of which only the last
component overflows: no cell has changed. -/
theorem assign_transpose_eq_overflow :
    ∃ (whole square : Tensor (Bounded .signed32)) (x y e : Expression (Bounded .signed32))
      (store later : Store (Bounded .signed32)),
      whole.summand 1 = .ok square ∧ square.isWritable ∧ square.Checked store.memory ∧
      Expression.index square [.letter 'j', .letter 'i'] = .ok x ∧
      Expression.index square [.letter 'i', .letter 'j'] = .ok y ∧ x.add y = .ok e ∧
      (∀ values ∈ [[0, 0], [1, 0], [0, 1]], (e.component values store.memory store.scratch).1.toBool) ∧
      square.assign [.letter 'i', .letter 'j'] e store = (.error .overflow, later) ∧
      later.memory = store.memory := by
  let whole : Tensor (Bounded .signed32) :=
    ⟨.directSum [.standard 1 "U", .tensorProduct [.standard 2 "V", .standard 2 "V"]], .stored .shared 0 0 5⟩
  let cells : Array (Bounded .signed32) :=
    #[⟨7, by decide⟩, ⟨1, by decide⟩, ⟨2, by decide⟩, ⟨3, by decide⟩, ⟨0x7fffffff, by decide⟩]
  let store : Store (Bounded .signed32) := { Store.empty with memory := ⟨#[⟨0, cells⟩], 0⟩ }
  rcases (⟨_, _, _, _, _, rfl, rfl, rfl, rfl, rfl, by decide +kernel, rfl⟩ : ∃ square x y e later,
      whole.summand 1 = .ok square ∧ square.isWritable ∧
      Expression.index square [.letter 'j', .letter 'i'] = .ok x ∧
      Expression.index square [.letter 'i', .letter 'j'] = .ok y ∧ x.add y = .ok e ∧
      (∀ values ∈ [[0, 0], [1, 0], [0, 1]], (e.component values store.memory store.scratch).1.toBool) ∧
      square.assign [.letter 'i', .letter 'j'] e store = (.error .overflow, later)) with
    ⟨square, x, y, e, later, windowed, writable, transposed, plain, added, present, failed⟩
  have checked : whole.Checked store.memory :=
    ⟨rfl, Components.fits_stored (b := ⟨0, cells⟩) rfl .shared (Nat.le_refl 5)⟩
  have kept := (assign_eq_error_iff writable (checked.summand windowed)).mp failed
  exact ⟨whole, square, x, y, e, store, later, windowed, writable, checked.summand windowed, transposed, plain, added,
    present, failed, by rw [kept.1]⟩

end Tensor

end IndexNotation
