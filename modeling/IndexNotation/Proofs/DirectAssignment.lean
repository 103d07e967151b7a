import IndexNotation.Proofs.Assignment
import IndexNotation.Proofs.Expression.Reads
/-!
Assignment without a temporary. Where the expression reads none of the cells that are written, a component is
the same whether it is evaluated before the others are written or after, so that nothing is lost.
-/
namespace IndexNotation

variable {α : Type}

namespace StoreM

variable {β γ : Type}

theorem ofEvalM_bind (x : EvalM α β) (f : β → EvalM α γ) :
    ofEvalM (x >>= f) = ofEvalM x >>= fun b => ofEvalM (f b) := by
  funext store
  rw [bind_run, ofEvalM, ofEvalM, EvalM.bind_run]
  rcases x store.memory store.scratch with ⟨outcome, middle⟩
  cases outcome with
  | error fault => rfl
  | ok b => rfl

theorem ofEvalM_ofExcept (x : Except Fault β) :
    (ofEvalM (EvalM.ofExcept x) : StoreM α β) = ofExcept x := rfl

end StoreM

variable [Scalar α]

def Tensor.assignDirectly (t : Tensor α) (symbols : IndexList) (e : Expression α) : StoreM α Unit := do
  let target ← StoreM.ofExcept (t.target symbols)
  target.assignDirectly e

namespace Target

def evaluateEntry (target : Target α) (e : Expression α) (positions values : List Nat) :
    EvalM α (Nat × α) := do
  let operandValues ← EvalM.ofExcept (valuesAt values positions)
  let offset ← EvalM.ofExcept (RowMajor.offset values target.dims)
  return (offset, ← e.component operandValues)

def writeEntry (target : Target α) (e : Expression α) (positions values : List Nat) : StoreM α Unit := do
  let entry ← StoreM.ofEvalM (target.evaluateEntry e positions values)
  target.tensor.components.set entry.1 entry.2

variable {target : Target α} {e : Expression α} {positions : List Nat}

theorem evaluate_eq : target.evaluate e positions =
    (do return (← (RowMajor.tuples target.dims).mapM (target.evaluateEntry e positions)).toArray) := by
  calc
    target.evaluate e positions =
        (RowMajor.tuples target.dims).foldlM
          (fun acc values => do return acc.push (← target.evaluateEntry e positions values)) #[] := by
      rw [evaluate, EvalM.foldTuples, RowMajor.foldTuples_eq_foldlM]
      simp only [evaluateEntry, bind_assoc, pure_bind]
    _ = _ := by
      rw [foldlM_push]
      simp only [Array.empty_append]

def writeEntries (target : Target α) (e : Expression α) (positions : List Nat) (tuples : List (List Nat)) :
    StoreM α Unit :=
  tuples.foldlM (fun _ values => target.writeEntry e positions values) ()

theorem assignDirectly_eq (aligned : FreeIndex.align target.free e.free = .ok positions) :
    target.assignDirectly e = target.writeEntries e positions (RowMajor.tuples target.dims) := by
  have entry (values : List Nat) : target.writeEntry e positions values = (do
      let operandValues ← StoreM.ofExcept (valuesAt values positions)
      let offset ← StoreM.ofExcept (RowMajor.offset values target.dims)
      let x ← StoreM.ofEvalM (e.component operandValues)
      target.tensor.components.set offset x) := by
    simp only [writeEntry, evaluateEntry, StoreM.ofEvalM_bind, StoreM.ofEvalM_ofExcept, bind_assoc]
    rfl
  simp only [writeEntries, entry]
  rw [assignDirectly, aligned, ← RowMajor.foldTuples_eq_foldlM]
  rfl

theorem evaluateEntry_eq_ok {memory : Memory α} {scratch later : Scratch α} {values : List Nat}
    {entry : Nat × α}
    (evaluated : target.evaluateEntry e positions values memory scratch = (.ok entry, later)) :
    RowMajor.offset values target.dims = .ok entry.1 := by
  obtain ⟨operandValues, _, _, rest⟩ := EvalM.bind_run_eq_ok_iff.mp evaluated
  obtain ⟨offset, _, numbered, rest⟩ := EvalM.bind_run_eq_ok_iff.mp rest
  obtain ⟨x, _, _, made⟩ := EvalM.bind_run_eq_ok_iff.mp rest
  cases made
  exact congrArg Prod.fst numbered

section Lockstep

variable {caches : Caches α} {memory : Memory α}
  (avoids : e.Avoids target.tensor.components.Owns caches)

include avoids in
theorem evaluateEntry_alike {other : Memory α} (same : memory.SameOff target.tensor.components.Owns other)
    (values : List Nat) :
    EvalM.Alike caches memory other (target.evaluateEntry e positions values) := by
  apply EvalM.Alike.ofExcept_bind
  intro operandValues
  apply EvalM.Alike.ofExcept_bind
  intro offset
  exact (Expression.component_alike same avoids operandValues).bind fun x => EvalM.alike_pure _

omit [Scalar α] in
theorem set_entry {store : Store α} (writable : target.tensor.isWritable)
    (same : memory.SameOff target.tensor.components.Owns store.memory)
    (fits : target.tensor.components.Fits store.memory) {entry : Nat × α}
    (inside : entry.1 < target.tensor.components.length) :
    ∃ written, memory.SameOff target.tensor.components.Owns written ∧
      target.tensor.components.Fits written ∧ ∀ scratch,
        target.tensor.components.set entry.1 entry.2 { store with scratch } =
          (.ok (), { store with memory := written, scratch }) := by
  rcases Components.exists_locate fits writable inside with ⟨location, located, _⟩
  refine ⟨store.memory.write location entry.2, ?_, ?_, fun scratch => Components.set_run located entry.2⟩
  · intro other foreign
    have apart : location ≠ other := by
      intro equal
      exact foreign ⟨entry.1, inside, equal ▸ located⟩
    rw [Memory.read?_write_of_ne store.memory apart]
    exact same other foreign
  · exact fits.mono fun _ _ found => Memory.exists_read?_write found entry.2

include avoids in
/-- From memory in which some of the components are written already, writing the rest one by one comes to
what evaluating them all first comes to. A component that fails does so either way. -/
theorem writeEntries_run (writable : target.tensor.isWritable) {tuples : List (List Nat)}
    (placed : ∀ values ∈ tuples, ∀ offset, RowMajor.offset values target.dims = .ok offset →
      offset < target.tensor.components.length)
    {store : Store α} (same : memory.SameOff target.tensor.components.Owns store.memory)
    (fits : target.tensor.components.Fits store.memory) (since : FilledSince caches store.scratch.caches) :
    match tuples.mapM (target.evaluateEntry e positions) memory store.scratch with
    | (.ok writes, scratch) =>
      target.writeEntries e positions tuples store =
        (writes.forM fun w => target.tensor.components.set w.1 w.2) { store with scratch }
    | (.error fault, scratch) =>
      ∃ written, target.writeEntries e positions tuples store =
        (.error fault, { store with memory := written, scratch }) := by
  induction tuples generalizing store with
  | nil => rfl
  | cons values rest ih =>
      obtain ⟨alike, since'⟩ := evaluateEntry_alike avoids same values store.scratch since
      have step : target.writeEntries e positions (values :: rest) store =
          match target.evaluateEntry e positions values memory store.scratch with
          | (.ok entry, scratch) =>
            (target.tensor.components.set entry.1 entry.2 >>= fun _ =>
              target.writeEntries e positions rest) { store with scratch }
          | (.error fault, scratch) => (.error fault, { store with scratch }) := by
        rw [writeEntries, List.foldlM_cons, writeEntry, bind_assoc, StoreM.bind_run, StoreM.ofEvalM, alike]
        rcases target.evaluateEntry e positions values memory store.scratch with ⟨outcome, middle⟩
        cases outcome with
        | error fault => rfl
        | ok entry => rfl
      rw [List.mapM_cons, EvalM.bind_run, step]
      rcases evaluated : target.evaluateEntry e positions values memory store.scratch with ⟨outcome, middle⟩
      rw [evaluated] at since'
      cases outcome with
      | error fault => exact ⟨store.memory, rfl⟩
      | ok entry =>
          have inside := placed values List.mem_cons_self entry.1 (evaluateEntry_eq_ok evaluated)
          rcases set_entry writable same fits inside with ⟨written, same', fits', write⟩
          have remaining := @ih (fun later present => placed later (List.mem_cons_of_mem values present))
            { store with memory := written, scratch := middle } same' fits' since'
          dsimp only at remaining ⊢
          rw [StoreM.bind_run, write middle, EvalM.bind_run]
          rcases collected : rest.mapM (target.evaluateEntry e positions) memory middle with ⟨outcome, last⟩
          rw [collected] at remaining
          cases outcome with
          | error fault => exact remaining
          | ok writes =>
              -- the first write commutes with the evaluation of the rest
              change target.writeEntries e positions rest _ =
                (target.tensor.components.set entry.1 entry.2 >>= fun _ =>
                  writes.forM fun w => target.tensor.components.set w.1 w.2) { store with scratch := last }
              rw [StoreM.bind_run, write last]
              exact remaining

end Lockstep

theorem assign_eq {store : Store α} {d : Nat}
    (aligned : FreeIndex.align target.free e.free = .ok positions) (sized : target.tensor.dimension = .ok d)
    (room : Size.reserve d (8 + (Scalar.width α + 7) / 8 * 8) = .ok ()) :
    target.assign e store =
      match (RowMajor.tuples target.dims).mapM (target.evaluateEntry e positions) store.memory
        store.scratch with
      | (.ok writes, scratch) =>
        (writes.forM fun w => target.tensor.components.set w.1 w.2) { store with scratch }
      | (.error fault, scratch) => (.error fault, { store with scratch }) := by
  simp only [assign, StoreM.bind_run, StoreM.ofExcept_run, aligned, sized, room]
  rw [evaluate_eq, StoreM.ofEvalM, EvalM.bind_run]
  rcases (RowMajor.tuples target.dims).mapM (target.evaluateEntry e positions) store.memory
    store.scratch with ⟨outcome, scratch⟩
  cases outcome with
  | error fault => rfl
  | ok writes =>
      change (writes.toArray.forM fun w => target.tensor.components.set w.1 w.2) _ = _
      rw [List.forM_toArray' writes _ rfl]

/-- Where the expression avoids the tensor's cells, the direct assignment has the same outcome, and leaves
the same store unless a component fails. -/
theorem assignDirectly_run {store : Store α} (writable : target.tensor.isWritable)
    (checked : target.tensor.Checked store.memory)
    (avoids : e.Avoids target.tensor.components.Owns store.scratch.caches)
    (aligned : FreeIndex.align target.free e.free = .ok positions)
    (room : Size.reserve target.tensor.components.length (8 + (Scalar.width α + 7) / 8 * 8) = .ok ())
    (few : target.dims.prod ≤ target.tensor.components.length) :
    (target.assignDirectly e store).1 = (target.assign e store).1 ∧
      ((target.assign e store).1 = .ok () → target.assignDirectly e store = target.assign e store) := by
  have placed : ∀ values ∈ RowMajor.tuples target.dims, ∀ offset,
      RowMajor.offset values target.dims = .ok offset → offset < target.tensor.components.length := by
    intro values present offset numbered
    have below := RowMajor.mem_tuples.mp present
    calc offset = RowMajor.number values target.dims := (RowMajor.offset_eq_ok numbered).1
      _ < target.dims.prod := RowMajor.number_lt below
      _ ≤ target.tensor.components.length := few
  have direct := @writeEntries_run _ _ target e positions _ store.memory avoids writable _ placed store
    (fun _ _ => rfl) checked.fits fun _ filled => filled
  rw [assignDirectly_eq aligned, assign_eq aligned checked.length room]
  rcases collected : (RowMajor.tuples target.dims).mapM (target.evaluateEntry e positions) store.memory
    store.scratch with ⟨outcome, scratch⟩
  rw [collected] at direct
  cases outcome with
  | ok writes => exact ⟨congrArg Prod.fst direct, fun _ => direct⟩
  | error fault =>
      rcases direct with ⟨written, ran⟩
      constructor
      · rw [ran]
      · intro absent
        cases absent

end Target

/-- What an assignment through a temporary cannot do: its temporary is too large for memory, or there are
more slots than the order of a tensor power can count. -/
def Tensor.Overtaxed (t : Tensor α) (symbols : IndexList) : Prop :=
  Nat.pow 2 63 ≤ t.components.length * (8 + (Scalar.width α + 7) / 8 * 8) ∨ Nat.pow 2 32 ≤ symbols.length

namespace Target.Serves

variable {target : Target α} {symbols : IndexList} {factors : List Space} {e : Expression α}
  {positions : List Nat} {store : Store α}

omit [Scalar α] in
/-- There are no more tuples than components, unless the order of a tensor power is too large. -/
theorem prod_le (serves : target.Serves symbols factors e positions)
    (sized : target.tensor.space.dimension = .ok target.tensor.components.length) :
    target.dims.prod ≤ target.tensor.components.length ∨
      Nat.pow 2 32 ≤ symbols.length ∧ Size.bound < target.dims.prod := by
  rcases Space.prod_indexed sized serves.named serves.computed with whole | ⟨many, none | large⟩
  · exact Or.inl (Nat.le_of_eq whole)
  · exact Or.inl (none ▸ Nat.zero_le _)
  · exact Or.inr ⟨many, large⟩

theorem assign_cases (serves : target.Serves symbols factors e positions)
    (writable : target.tensor.isWritable) (checked : target.tensor.Checked store.memory)
    (apart : CachesApart [e]) :
    (∃ later, target.assign e store = (.ok (), later) ∧ target.dims.prod ≤ Size.bound) ∨
      ∃ fault, (target.assign e store).1 = .error fault ∧ target.tensor.Stopped symbols e store fault := by
  cases room : Size.reserve target.tensor.components.length (8 + (Scalar.width α + 7) / 8 * 8) with
  | error fault =>
      have ran := assign_run_of_capacity store serves.aligned checked.length room
      exact Or.inr ⟨fault, congrArg Prod.fst ran, Or.inl (Size.reserve_eq_error room)⟩
  | ok done =>
      obtain ⟨scratch, ran⟩ := assign_run apart store serves.aligned checked.length room
      cases collected : (RowMajor.tuples target.dims).mapM
          (target.entry store.memory store.scratch.caches e positions) with
      | error fault =>
          rw [collected] at ran
          exact Or.inr ⟨fault, congrArg Prod.fst ran, serves.stopped checked.length apart collected⟩
      | ok writes =>
          obtain ⟨later, written, _⟩ := serves.assigned writable checked apart collected scratch
          rw [collected] at ran
          exact Or.inl ⟨later, ran.trans written, (offsets_eq_range collected).2⟩

end Target.Serves

namespace Tensor

variable {t : Tensor α} {symbols : IndexList} {e : Expression α} {store : Store α} {range : ByteRange}

theorem assignDirectly_refused {d : Nat} (sized : t.space.dimension = .ok d)
    (distinct : e.freeSymbols.Nodup) (different : ¬ t.Matches symbols e) (store : Store α) :
    t.assignDirectly symbols e store = t.assign symbols e store := by
  rcases refusal_of_not_matches sized distinct different with ⟨_, _, named | ⟨target, named, apart⟩⟩
  · rw [assign, assignDirectly, StoreM.bind_run, StoreM.bind_run, StoreM.ofExcept_run, named]
  · rw [assign, assignDirectly, StoreM.bind_run, StoreM.bind_run, StoreM.ofExcept_run, named]
    dsimp only
    rw [Target.assign, Target.assignDirectly, StoreM.bind_run, StoreM.bind_run, StoreM.ofExcept_run, apart]

/-- Direct assignment is accepted exactly where assignment through a temporary is. If the expression uses no
memory of the tensor it comes to the same in the end: the same store when every component evaluates, and else
the same failure. -/
theorem assignDirectly_spec (writable : t.isWritable) (checked : t.Checked store.memory)
    (distinct : e.freeSymbols.Nodup) (apart : CachesApart [e]) (wide : 0 < Scalar.width α)
    (computed : t.components.range? store.memory = .ok (some range))
    (unused : (e.usesMemory range store.memory store.scratch).1 = .ok false) :
    (¬ t.Matches symbols e → ∃ fault, t.space.Refuses fault ∧ t.assign symbols e store = (.error fault, store) ∧
      t.assignDirectly symbols e store = (.error fault, store)) ∧
    (t.Matches symbols e →
      (∃ later, t.assign symbols e store = (.ok (), later) ∧
        t.assignDirectly symbols e store = (.ok (), later)) ∨
      (∃ fault, (t.assign symbols e store).1 = .error fault ∧
        (t.assignDirectly symbols e store).1 = .error fault ∧
        ∃ values, FreeIndex.InRange e.free values ∧
          e.outcomeAt store.memory store.scratch values = .error fault) ∨
      t.Overtaxed symbols ∧ ∃ fault, (t.assign symbols e store).1 = .error fault) := by
  have avoids := (Expression.avoids_of_usesMemory wide computed
    (Prod.ext unused rfl : e.usesMemory range store.memory store.scratch = (_, _))).2
  constructor
  · intro different
    rcases assign_refused checked.length distinct different store with ⟨fault, refuses, refused⟩
    refine ⟨fault, refuses, refused, ?_⟩
    rw [assignDirectly_refused checked.length distinct different, refused]
  · intro matching
    obtain ⟨target, factors, positions, named, rfl, serves⟩ :=
      exists_serves checked.length distinct matching
    have started : target.tensor.assign symbols e store = target.assign e store := by
      rw [assign, StoreM.bind_run, StoreM.ofExcept_run, named]
    have started' : target.tensor.assignDirectly symbols e store = target.assignDirectly e store := by
      rw [assignDirectly, StoreM.bind_run, StoreM.ofExcept_run, named]
    rw [started, started']
    cases room : Size.reserve target.tensor.components.length (8 + (Scalar.width α + 7) / 8 * 8) with
    | error fault =>
        have ran := Target.assign_run_of_capacity store serves.aligned checked.length room
        exact Or.inr (Or.inr ⟨Or.inl (Size.reserve_eq_error room).2, fault, congrArg Prod.fst ran⟩)
    | ok done =>
        rcases serves.prod_le checked.length with few | ⟨many, large⟩
        · obtain ⟨outcome, same⟩ := Target.assignDirectly_run writable checked avoids serves.aligned room few
          rcases serves.assign_cases writable checked apart with ⟨later, ran, _⟩ | ⟨fault, failed, stopped⟩
          · exact Or.inl ⟨later, ran, (same (congrArg Prod.fst ran)).trans ran⟩
          · rcases stopped with ⟨_, wide⟩ | ⟨_, many⟩ | missing
            · exact Or.inr (Or.inr ⟨Or.inl wide, fault, failed⟩)
            · exact Or.inr (Or.inr ⟨Or.inr many, fault, failed⟩)
            · exact Or.inr (Or.inl ⟨fault, failed, outcome.trans failed, missing⟩)
        · rcases serves.assign_cases writable checked apart with ⟨_, _, small⟩ | ⟨fault, failed, _⟩
          · exact absurd small (Nat.not_le_of_lt large)
          · exact Or.inr (Or.inr ⟨Or.inr many, fault, failed⟩)

theorem assignDirectly_spec_windows :
    ∃ (first second : Tensor (Bounded .signed32)) (leaf : Expression (Bounded .signed32))
      (store later : Store (Bounded .signed32)),
      Expression.index second [.letter 'i'] = .ok leaf ∧
      first.assign [.letter 'i'] (.cached leaf 0 [2]) store = (.ok (), later) ∧
      first.assignDirectly [.letter 'i'] (.cached leaf 0 [2]) store = (.ok (), later) ∧
      (store.memory.cells 0).map (·.val) = #[1, 2, 3, 4] ∧
      (later.memory.cells 0).map (·.val) = #[3, 4, 3, 4] := by
  let plane : Space := .standard 2 "V"
  let cells : Array (Bounded .signed32) :=
    #[⟨1, by decide⟩, ⟨2, by decide⟩, ⟨3, by decide⟩, ⟨4, by decide⟩]
  let store : Store (Bounded .signed32) := ⟨⟨#[⟨64, cells⟩], 80⟩, ⟨#[none], #[]⟩, 0, 0⟩
  let first : Tensor (Bounded .signed32) := ⟨plane, .window (.stored .shared 0 0 4) 0 2⟩
  let second : Tensor (Bounded .signed32) := ⟨plane, .window (.stored .shared 0 0 4) 2 2⟩
  obtain ⟨leaf, range, later, named, bytes, unused, ran, before, after⟩ : ∃ leaf range later,
      Expression.index second [.letter 'i'] = .ok leaf ∧
      first.components.range? store.memory = .ok (some range) ∧
      ((Expression.cached leaf 0 [2]).usesMemory range store.memory store.scratch).1 = .ok false ∧
      first.assign [.letter 'i'] (.cached leaf 0 [2]) store = (.ok (), later) ∧
      (store.memory.cells 0).map (·.val) = #[1, 2, 3, 4] ∧
      (later.memory.cells 0).map (·.val) = #[3, 4, 3, 4] :=
    ⟨_, _, _, rfl, rfl, rfl, rfl, by decide +kernel, by decide +kernel⟩
  have found : store.memory.blocks[0]? = some ⟨64, cells⟩ := rfl
  have whole : (Components.stored .shared 0 0 4).Fits store.memory :=
    Components.fits_stored found .shared (Nat.le_refl 4)
  have checked : first.Checked store.memory := ⟨rfl, by decide, whole⟩
  have distinct : (Expression.cached leaf 0 [2]).freeSymbols.Nodup :=
    (Expression.wellIndexed_index named).separated.free
  have apart : CachesApart [Expression.cached leaf 0 [2]] := by
    have one : [Expression.cached leaf 0 [2]].flatMap Expression.cacheNodes = [⟨leaf, 0, [2]⟩] := by
      simp [Expression.cacheNodes, Expression.cacheNodes_index named]
    intro node present other present' _
    rw [one, List.mem_singleton] at present present'
    rw [present, present']
  obtain ⟨refused, accepted⟩ := @assignDirectly_spec _ _ first [.letter 'i'] (.cached leaf 0 [2]) store range
    rfl checked distinct apart (by decide) bytes unused
  have direct : first.assignDirectly [.letter 'i'] (.cached leaf 0 [2]) store = (.ok (), later) := by
    by_cases matching : first.Matches [.letter 'i'] (.cached leaf 0 [2])
    · rcases accepted matching with ⟨last, done, same⟩ | ⟨fault, failed, _⟩ | ⟨_, fault, failed⟩
      · rw [ran] at done
        cases done
        exact same
      · rw [ran] at failed
        cases failed
      · rw [ran] at failed
        cases failed
    · rcases refused matching with ⟨fault, _, failed, _⟩
      rw [ran] at failed
      cases failed
  exact ⟨first, second, leaf, store, later, named, ran, direct, before, after⟩

end Tensor

end IndexNotation
