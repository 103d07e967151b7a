import IndexNotation.Assignment
import IndexNotation.Proofs.Expression.Alignment
import IndexNotation.Proofs.Expression.Contraction
import IndexNotation.Proofs.RowMajor
import IndexNotation.Proofs.Store

namespace IndexNotation

variable {α : Type} [Scalar α]

/-- The positions bring values that are given by symbol into the order of the other indices. -/
theorem FreeIndex.valuesAt_align {reference other : List FreeIndex} {positions : List Nat}
    (aligned : align reference other = .ok positions) (values : Symbol → Nat) :
    valuesAt ((symbols reference).map values) positions = .ok ((symbols other).map values) := by
  obtain ⟨_, matched⟩ := align_eq_ok_iff.mp aligned
  have names : (symbols other).map values = other.map fun index => values index.symbol :=
    List.map_map
  rw [valuesAt, mapM_eq_ok_iff, names, List.forall₂_map_right_iff]
  apply List.Forall₂.flip
  apply matched.imp
  intro index position stands
  have there : ((symbols reference).map values)[position]? = some (values index.symbol) := by
    simp [symbols, stands.2]
  simp only [flip, there]

def Target.entry (memory : Memory α) (caches : Caches α) (target : Target α)
    (e : Expression α) (positions values : List Nat) : Except Fault (Nat × α) := do
  let operandValues ← valuesAt values positions
  let offset ← RowMajor.offset values target.dims
  return (offset, ← e.value memory caches operandValues)

namespace Target

variable {target : Target α} {e : Expression α} {positions : List Nat}

theorem evaluate_run (apart : CachesApart [e]) (memory : Memory α) (scratch : Scratch α) :
    (target.evaluate e positions memory scratch).1 =
      (do return (← (RowMajor.tuples target.dims).mapM
        (target.entry memory scratch.caches e positions)).toArray) := by
  have steps : EvalM.Yields (Agrees memory scratch.caches [e]) memory
      (target.evaluate e positions)
      (RowMajor.foldTuples (fun values acc => do
        return acc.push (← target.entry memory scratch.caches e positions values))
        target.dims #[]) := by
    apply EvalM.Yields.foldTuples
    intro acc values _
    have entry : (do return acc.push (← target.entry memory scratch.caches e positions values)) =
        (valuesAt values positions >>= fun operandValues =>
          RowMajor.offset values target.dims >>= fun offset =>
            e.value memory scratch.caches operandValues >>= fun x =>
              Except.ok (acc.push (offset, x))) := by
      simp only [Target.entry, bind_assoc, pure_bind]
      rfl
    rw [entry]
    apply EvalM.Yields.ofExcept_bind
    intro operandValues _
    apply EvalM.Yields.ofExcept_bind
    intro offset _
    have component : EvalM.Yields (Agrees memory scratch.caches [e]) memory
        (e.component operandValues) (e.value memory scratch.caches operandValues) :=
      component_yields apart (fun _ inside => List.mem_flatMap.mpr ⟨e, List.mem_cons_self, inside⟩)
        operandValues
    exact component.bind fun x _ => EvalM.yields_pure _
  have ran := (steps scratch (agrees_refl memory scratch.caches [e])).1
  rw [ran, RowMajor.foldTuples_eq_foldlM, foldlM_push]
  simp

theorem offset_of_entry {memory : Memory α} {caches : Caches α} {values : List Nat} {write : Nat × α}
    (computed : target.entry memory caches e positions values = .ok write) :
    RowMajor.offset values target.dims = .ok write.1 := by
  obtain ⟨operandValues, _, rest⟩ := bind_eq_ok_iff.mp computed
  obtain ⟨offset, numbered, later⟩ := bind_eq_ok_iff.mp rest
  obtain ⟨x, _, made⟩ := bind_eq_ok_iff.mp later
  cases made
  exact numbered

theorem entry_map (aligned : FreeIndex.align target.free e.free = .ok positions)
    (memory : Memory α) (caches : Caches α) (values : Symbol → Nat) :
    target.entry memory caches e positions ((FreeIndex.symbols target.free).map values) = (do
      let offset ← RowMajor.offset ((FreeIndex.symbols target.free).map values) target.dims
      return (offset, ← e.valueAt memory caches values)) := by
  rw [entry, FreeIndex.valuesAt_align aligned, ok_bind]
  rfl

theorem offsets_eq_range {memory : Memory α} {caches : Caches α} {writes : List (Nat × α)}
    (collected : (RowMajor.tuples target.dims).mapM (target.entry memory caches e positions) =
      .ok writes) :
    writes.map Prod.fst = List.range target.dims.prod ∧ target.dims.prod ≤ Size.bound := by
  apply RowMajor.offsets_eq_range
  rw [List.forall₂_map_right_iff]
  exact (mapM_eq_ok_iff.mp collected).imp fun values write computed => offset_of_entry computed

theorem assign_run_of_capacity (store : Store α) {d : Nat} {fault : Fault}
    (aligned : FreeIndex.align target.free e.free = .ok positions)
    (sized : target.tensor.dimension = .ok d)
    (full : Size.reserve d (8 + (Scalar.width α + 7) / 8 * 8) = .error fault) :
    target.assign e store = (.error fault, store) := by
  simp only [assign, StoreM.bind_run, StoreM.ofExcept_run, aligned, sized, full]

theorem assign_run (apart : CachesApart [e]) (store : Store α) {d : Nat}
    (aligned : FreeIndex.align target.free e.free = .ok positions)
    (sized : target.tensor.dimension = .ok d)
    (room : Size.reserve d (8 + (Scalar.width α + 7) / 8 * 8) = .ok ()) :
    ∃ scratch, target.assign e store =
      match (RowMajor.tuples target.dims).mapM
        (target.entry store.memory store.scratch.caches e positions) with
      | .error fault => (.error fault, { store with scratch })
      | .ok writes =>
        (writes.forM fun w => target.tensor.components.set w.1 w.2) { store with scratch } := by
  have ran := @evaluate_run _ _ target e positions apart store.memory store.scratch
  rcases evaluated : target.evaluate e positions store.memory store.scratch with ⟨outcome, scratch⟩
  rw [evaluated] at ran
  refine ⟨scratch, ?_⟩
  have waiting : StoreM.ofEvalM (target.evaluate e positions) store =
      (outcome, { store with scratch }) := by
    rw [StoreM.ofEvalM, evaluated]
  simp only [assign, StoreM.bind_run, StoreM.ofExcept_run, aligned, sized, room, waiting]
  simp only at ran
  rw [ran]
  cases (RowMajor.tuples target.dims).mapM
      (target.entry store.memory store.scratch.caches e positions) with
  | error fault => rfl
  | ok writes =>
      change (writes.toArray.forM fun w => target.tensor.components.set w.1 w.2) _ = _
      rw [List.forM_toArray' writes _ rfl]

end Target

end IndexNotation
