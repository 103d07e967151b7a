import IndexNotation.Proofs.Components
import IndexNotation.Proofs.Expression.FlatSum
import IndexNotation.Proofs.Expression.Leaf
import IndexNotation.Proofs.Temporary
/-!
Assignment by way of a temporary. All that the expression reads is read before the first cell is
written, so it may overlap what is assigned in any way.
-/
namespace IndexNotation

variable {α : Type}

namespace Tensor

def assign [Scalar α] (t : Tensor α) (symbols : IndexList) (e : Expression α) : StoreM α Unit := do
  let target ← StoreM.ofExcept (t.target symbols)
  target.assign e

/-- The expression has the given symbols as its free ones, in any order, and over the factors that they
index in the tensor. -/
def Matches (t : Tensor α) (symbols : IndexList) (e : Expression α) : Prop :=
  ∃ factors, t.space.indexedFactors symbols = .ok factors ∧
    e.free.Perm (symbols.zipWith FreeIndex.mk factors)

theorem target_eq_ok {t : Tensor α} {symbols : IndexList} {target : Target α}
    (accepted : t.target symbols = .ok target) :
    ∃ factors, t.space.indexedFactors symbols = .ok factors ∧
      target.free = symbols.zipWith FreeIndex.mk factors ∧ Space.dimensions factors = .ok target.dims ∧
      target.tensor = t := by
  unfold Tensor.target at accepted
  cases repeated : symbols.firstRepeat with
  | some s => simp [repeated] at accepted
  | none =>
      simp only [repeated] at accepted
      obtain ⟨factors, named, rest⟩ := bind_eq_ok_iff.mp accepted
      obtain ⟨dims, computed, done⟩ := bind_eq_ok_iff.mp rest
      cases done
      exact ⟨factors, named, rfl, computed, rfl⟩

theorem target_eq_error {t : Tensor α} {symbols : IndexList} {fault : Fault} {d : Nat}
    (sized : t.space.dimension = .ok d) (failed : t.target symbols = .error fault) :
    t.space.Refuses fault := by
  unfold Tensor.target at failed
  cases repeated : symbols.firstRepeat with
  | some s =>
      simp only [repeated, refuse_bind] at failed
      cases failed
      exact Or.inl ⟨_, rfl⟩
  | none =>
      simp only [repeated] at failed
      rcases bind_eq_error_iff.mp failed with here | ⟨factors, named, rest⟩
      · exact Space.indexedFactors_eq_error here
      · obtain ⟨dims, computed⟩ := Space.exists_dimensions_indexed sized named
        rw [computed] at rest
        cases rest

theorem refusal_of_not_matches {t : Tensor α} {symbols : IndexList} {e : Expression α} {d : Nat}
    (sized : t.space.dimension = .ok d) (distinct : e.freeSymbols.Nodup)
    (different : ¬ t.Matches symbols e) :
    ∃ fault, t.space.Refuses fault ∧
      (t.target symbols = .error fault ∨
        ∃ target, t.target symbols = .ok target ∧ FreeIndex.align target.free e.free = .error fault) := by
  cases named : t.target symbols with
  | error fault =>
      exact ⟨fault, target_eq_error sized named, Or.inl rfl⟩
  | ok target =>
      obtain ⟨factors, indexed, free, _⟩ := target_eq_ok named
      cases aligned : FreeIndex.align target.free e.free with
      | error fault =>
          obtain ⟨reason, rfl⟩ := FreeIndex.align_eq_error aligned
          exact ⟨_, Or.inl ⟨reason, rfl⟩, Or.inr ⟨target, rfl, aligned⟩⟩
      | ok positions =>
          have permuted := FreeIndex.perm_of_align distinct aligned
          rw [free] at permuted
          exact absurd ⟨factors, indexed, permuted⟩ different

theorem assign_refused [Scalar α] {t : Tensor α} {symbols : IndexList} {e : Expression α}
    {d : Nat} (sized : t.space.dimension = .ok d) (distinct : e.freeSymbols.Nodup)
    (different : ¬ t.Matches symbols e) (store : Store α) :
    ∃ fault, t.space.Refuses fault ∧ t.assign symbols e store = (.error fault, store) := by
  rcases refusal_of_not_matches sized distinct different with ⟨fault, refuses, named | ⟨target, named, apart⟩⟩
  · refine ⟨fault, refuses, ?_⟩
    rw [assign, StoreM.bind_run, StoreM.ofExcept_run, named]
  · refine ⟨fault, refuses, ?_⟩
    rw [assign, StoreM.bind_run, StoreM.ofExcept_run, named]
    dsimp only
    rw [Target.assign, StoreM.bind_run, StoreM.ofExcept_run, apart]

end Tensor

namespace FreeIndex

def InRange (free : List FreeIndex) (values : Symbol → Nat) : Prop :=
  ∀ index ∈ free, ∃ d, index.factor.dimension = .ok d ∧ values index.symbol < d

theorem inRange_perm {free other : List FreeIndex} (permuted : free.Perm other)
    (values : Symbol → Nat) : InRange free values ↔ InRange other values := by
  constructor
  · intro inRange index present
    exact inRange index (permuted.mem_iff.mpr present)
  · intro inRange index present
    exact inRange index (permuted.mem_iff.mp present)

theorem inRange_iff_below {free : List FreeIndex} {dims : List Nat}
    (computed : dimensions free = .ok dims) (values : Symbol → Nat) :
    InRange free values ↔ RowMajor.Below ((symbols free).map values) dims := by
  rw [dimensions, Space.dimensions_eq_ok_iff, List.forall₂_map_left_iff] at computed
  rw [RowMajor.below_iff_forall₂, symbols, List.map_map, List.forall₂_map_left_iff]
  induction computed with
  | nil => simp [InRange]
  | cons sized _ ih =>
      rw [List.forall₂_cons, ← ih, InRange, List.forall_mem_cons, sized]
      simp [InRange]

end FreeIndex

/-- The target names the slots of its tensor by the symbols, and the positions find the free indices of
the expression among them. -/
structure Target.Serves (target : Target α) (symbols : IndexList) (factors : List Space)
    (e : Expression α) (positions : List Nat) : Prop where
  distinct : symbols.Nodup
  named : target.tensor.space.indexedFactors symbols = .ok factors
  computed : Space.dimensions factors = .ok target.dims
  free : target.free = symbols.zipWith FreeIndex.mk factors
  permuted : e.free.Perm target.free
  aligned : FreeIndex.align target.free e.free = .ok positions

theorem Tensor.exists_serves {t : Tensor α} {symbols : IndexList} {e : Expression α} {d : Nat}
    (sized : t.space.dimension = .ok d) (distinct : e.freeSymbols.Nodup)
    (matching : t.Matches symbols e) :
    ∃ target factors positions, t.target symbols = .ok target ∧ target.tensor = t ∧
      target.Serves symbols factors e positions := by
  obtain ⟨factors, named, permuted⟩ := matching
  obtain ⟨positions, aligned⟩ := FreeIndex.exists_align_of_perm distinct permuted
  obtain ⟨dims, computed⟩ := Space.exists_dimensions_indexed sized named
  have apart : symbols.Nodup := by
    rw [← Space.symbols_indexedFactors named]
    exact (permuted.map FreeIndex.symbol).nodup_iff.mp distinct
  refine ⟨⟨t, symbols.zipWith FreeIndex.mk factors, dims⟩, factors, positions, ?_, rfl,
    apart, named, computed, rfl, permuted, aligned⟩
  rw [target, IndexList.firstRepeat_eq_none_iff.mpr apart, named, ok_bind, computed]
  rfl

namespace Target.Serves

variable {target : Target α} {symbols : IndexList} {factors : List Space} {e : Expression α}
  {positions : List Nat}

theorem symbols_free (serves : target.Serves symbols factors e positions) :
    FreeIndex.symbols target.free = symbols := by
  rw [serves.free]
  exact Space.symbols_indexedFactors serves.named

theorem inRange_iff (serves : target.Serves symbols factors e positions) (values : Symbol → Nat) :
    FreeIndex.InRange e.free values ↔ RowMajor.Below (symbols.map values) target.dims := by
  have counted : FreeIndex.dimensions target.free = .ok target.dims := by
    have lengths := Space.indexedFactors_length serves.named
    rw [FreeIndex.dimensions, serves.free, FreeIndex.factors_zipWith_mk lengths.symm]
    exact serves.computed
  rw [FreeIndex.inRange_perm serves.permuted, FreeIndex.inRange_iff_below counted,
    serves.symbols_free]

theorem entry_eq [Scalar α] (serves : target.Serves symbols factors e positions)
    (memory : Memory α) (caches : Caches α) (values : Symbol → Nat) :
    target.entry memory caches e positions (symbols.map values) = (do
      let offset ← RowMajor.offset (symbols.map values) target.dims
      return (offset, ← e.valueAt memory caches values)) := by
  have unfolded := entry_map serves.aligned memory caches values
  rw [serves.symbols_free] at unfolded
  exact unfolded

end Target.Serves

variable [Scalar α] {t : Tensor α} {target : Target α} {symbols : IndexList} {factors : List Space}
  {e : Expression α} {positions : List Nat} {store : Store α}

theorem Expression.outcomeAt_indexed {dims : List Nat}
    (named : t.space.indexedFactors symbols = .ok factors) (memory : Memory α)
    (scratch : Scratch α) {values : Symbol → Nat}
    (below : RowMajor.Below (symbols.map values) dims) (small : dims.prod ≤ Size.bound) :
    (t.indexed symbols factors dims).outcomeAt memory scratch values =
      t.components.value memory (RowMajor.number (symbols.map values) dims) := by
  have apart : CachesApart [t.indexed symbols factors dims] :=
    cachesApart_of_nil (by simp [Tensor.indexed, cacheNodes])
  rw [outcomeAt_eq_valueAt apart List.mem_cons_self]
  exact valueAt_indexed named below small

/-- Read by the same symbols, the tensor has the components that the expression had before, and no other
cell has changed. -/
structure Tensor.Assigned (t : Tensor α) (symbols : IndexList) (e : Expression α)
    (before later : Store α) : Prop where
  components : ∃ read, Expression.index t symbols = .ok read ∧ read.free.Perm e.free ∧
    ∀ values, FreeIndex.InRange e.free values →
      ∃ x, e.outcomeAt before.memory before.scratch values = .ok x ∧
        read.outcomeAt later.memory later.scratch values = .ok x
  others : ∀ location, ¬ t.components.Owns location →
    later.memory.read? location = before.memory.read? location

/-- What stops an assignment that is not refused: a temporary too large for memory, more slots than the
order of a tensor power can count, or a component that the expression does not have. -/
def Tensor.Stopped (t : Tensor α) (symbols : IndexList) (e : Expression α) (before : Store α)
    (fault : Fault) : Prop :=
  fault = .capacity ∧ Nat.pow 2 63 ≤ t.components.length * (8 + (Scalar.width α + 7) / 8 * 8) ∨
    fault = .overflow ∧ Nat.pow 2 32 ≤ symbols.length ∨
    ∃ values, FreeIndex.InRange e.free values ∧
      e.outcomeAt before.memory before.scratch values = .error fault

namespace Target.Serves

/-- A component that does not get into the temporary is missing from the expression, unless its offset
overflows. -/
theorem stopped (serves : target.Serves symbols factors e positions)
    (sized : target.tensor.space.dimension = .ok target.tensor.components.length)
    (apart : CachesApart [e]) {fault : Fault}
    (failed : (RowMajor.tuples target.dims).mapM
      (target.entry store.memory store.scratch.caches e positions) = .error fault) :
    target.tensor.Stopped symbols e store fault := by
  rcases mapM_eq_error failed with ⟨tuple, present, fails⟩
  have below := RowMajor.mem_tuples.mp present
  have length : tuple.length = symbols.length :=
    calc tuple.length = target.dims.length := below.length_eq
      _ = factors.length := (Space.dimensions_eq_ok_iff.mp serves.computed).length_eq.symm
      _ = symbols.length := Space.indexedFactors_length serves.named
  -- the symbols take the values of the tuple
  have values := IndexList.map_assign (fun _ => 0) serves.distinct length
  generalize IndexList.assign symbols tuple (fun _ => 0) = assigned at values
  rw [← values, serves.entry_eq, values] at fails
  rcases bind_eq_error_iff.mp fails with offset | ⟨offset, _, later⟩
  · rcases Space.prod_indexed sized serves.named serves.computed with whole | ⟨many, _⟩
    · have small : target.dims.prod ≤ Size.bound := by
        rw [whole]
        exact Nat.le_of_lt (Space.dimension_lt sized)
      rw [RowMajor.offset_eq below small] at offset
      cases offset
    · exact Or.inr (Or.inl ⟨RowMajor.offset_eq_error below.length_eq offset, many⟩)
  · rcases bind_eq_error_iff.mp later with evaluated | ⟨x, _, done⟩
    · right
      right
      refine ⟨assigned, ?_, ?_⟩
      · rw [serves.inRange_iff, values]
        exact below
      · rw [outcomeAt_eq_valueAt apart List.mem_cons_self]
        exact evaluated
    · cases done

theorem offset_lt (serves : target.Serves symbols factors e positions)
    (sized : target.tensor.space.dimension = .ok target.tensor.components.length)
    {writes : List (Nat × α)}
    (collected : (RowMajor.tuples target.dims).mapM
      (target.entry store.memory store.scratch.caches e positions) = .ok writes) :
    ∀ w ∈ writes, w.1 < target.tensor.components.length := by
  obtain ⟨offsets, small⟩ := offsets_eq_range collected
  intro w present
  have numbered : w.1 < target.dims.prod := by
    rw [← List.mem_range, ← offsets]
    exact List.mem_map_of_mem present
  exact Space.lt_of_lt_prod_indexed sized serves.named serves.computed small numbered

/-- Once the temporary is complete its components go into cells of their own, each into the one that
the tensor reads it from. -/
theorem assigned (serves : target.Serves symbols factors e positions)
    (writable : target.tensor.isWritable) (checked : target.tensor.Checked store.memory)
    (apart : CachesApart [e]) {writes : List (Nat × α)}
    (collected : (RowMajor.tuples target.dims).mapM
      (target.entry store.memory store.scratch.caches e positions) = .ok writes)
    (scratch : Scratch α) :
    ∃ later, (writes.forM fun w => target.tensor.components.set w.1 w.2) { store with scratch } =
        (.ok (), later) ∧ target.tensor.Assigned symbols e store later := by
  obtain ⟨offsets, small⟩ := offsets_eq_range collected
  have once : (writes.map Prod.fst).Nodup := by
    rw [offsets]
    exact List.nodup_range
  have inside := serves.offset_lt checked.length collected
  obtain ⟨memory, ran, written, others⟩ :=
    @Components.forM_set_run _ target.tensor.components writable writes { store with scratch }
      checked.fits inside once
  refine ⟨_, ran, ?_, ?_⟩
  · refine ⟨_, Expression.index_of_nodup serves.distinct serves.named serves.computed, ?_, ?_⟩
    · exact (serves.free ▸ serves.permuted).symm
    · intro values inRange
      have below := (serves.inRange_iff values).mp inRange
      obtain ⟨w, present, made⟩ := exists_of_mapM collected (RowMajor.mem_tuples.mpr below)
      rw [serves.entry_eq, RowMajor.offset_eq below small, ok_bind] at made
      obtain ⟨x, evaluated, pair⟩ := bind_eq_ok_iff.mp made
      cases pair
      refine ⟨x, ?_, ?_⟩
      · rw [outcomeAt_eq_valueAt apart List.mem_cons_self]
        exact evaluated
      · rw [Expression.outcomeAt_indexed serves.named _ _ below small]
        exact written _ present
  · intro location foreign
    apply others
    intro w present located
    exact foreign ⟨w.1, inside w present, located⟩

end Target.Serves

end IndexNotation
