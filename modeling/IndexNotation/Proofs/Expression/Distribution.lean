import IndexNotation.Proofs.Expression.Composition
import IndexNotation.Proofs.Expression.FlatSum
import IndexNotation.Proofs.Temporary

namespace IndexNotation

open IndexList

variable {α R : Type}

namespace Expression

variable {a b e f p q s : Expression α} {inFront isDifference : Bool}

def timesFactor (e : Expression α) (inFront : Bool) (f : Expression α) : Except Fault (Expression α) :=
  if inFront then f.mul e else e.mul f

/-- A symbol that is free in both expressions sums a factor against its dual, of a computed dimension. -/
def Contracts (e f : Expression α) : Prop :=
  ∀ index ∈ e.free, ∀ other ∈ f.free, index.symbol = other.symbol →
    index.factor.pairsWith other.factor ∧ ∃ d, index.factor.dimension = .ok d

theorem Contracts.symm (contracts : Contracts e f) : Contracts f e := by
  intro other present index present' same
  obtain ⟨pairs, d, sized⟩ := contracts index present' other present same.symm
  exact ⟨Space.pairsWith_comm.mp pairs, d, Space.dimension_eq_of_pairsWith pairs ▸ sized⟩

/-- A node is accepted for its symbols and for the factors it contracts; no other dimension is computed. -/
theorem exists_mul_iff_contracts (distinct : f.freeSymbols.Nodup) :
    (∃ p, e.mul f = .ok p) ↔ SumsApart e f ∧ Contracts e f := by
  constructor
  · rintro ⟨p, accepted⟩
    obtain ⟨disjoint, checked, _⟩ := mul_eq_ok_iff.mp accepted
    refine ⟨checkDisjoint_eq_ok_iff_sumsApart.mp disjoint, fun index present other present' same => ?_⟩
    have pairing := checked index present
    rw [checkContraction, FreeIndex.find?_symbol distinct present' same.symm] at pairing
    obtain ⟨d, sized, _⟩ := checkPairing_eq_ok pairing
    exact ⟨pairsWith_of_checkPairing pairing, d, sized⟩
  · rintro ⟨apart, contracts⟩
    have checked : ∀ index ∈ e.free, checkContraction f.free index = .ok () := by
      intro index present
      rw [checkContraction]
      cases found : f.free.find? (·.symbol = index.symbol) with
      | none => rfl
      | some other =>
          have same : other.symbol = index.symbol := by simpa using List.find?_some found
          obtain ⟨pairs, d, sized⟩ := contracts index present other (List.mem_of_find?_eq_some found) same.symm
          rcases checkPairing_cases (s := index.symbol) sized
            (Space.dimension_eq_of_pairsWith pairs ▸ sized) with ⟨_, accepted⟩ | ⟨unpaired, _⟩
          · exact accepted
          · exact absurd pairs unpaired
    obtain ⟨dims, computed⟩ : ∃ dims, FreeIndex.dimensions (shared e f) = .ok dims := by
      apply Space.exists_dimensions
      intro factor member
      obtain ⟨index, inside, rfl⟩ := List.mem_map.mp member
      obtain ⟨present, contains⟩ := List.mem_filter.mp inside
      obtain ⟨other, present', same⟩ := List.mem_map.mp (List.contains_iff_mem.mp contains)
      exact (contracts index present other present' same.symm).2
    exact ⟨_, mul_eq_ok_iff.mpr ⟨checkDisjoint_eq_ok_iff_sumsApart.mpr apart, checked, dims, computed, rfl⟩⟩

theorem exists_timesFactor_iff (distinct : e.freeSymbols.Nodup) (distinct' : f.freeSymbols.Nodup) :
    (∃ p, e.timesFactor inFront f = .ok p) ↔ SumsApart e f ∧ Contracts e f := by
  cases inFront with
  | false => exact exists_mul_iff_contracts distinct'
  | true =>
      constructor
      · intro accepted
        obtain ⟨apart, contracts⟩ := (exists_mul_iff_contracts distinct).mp accepted
        exact ⟨apart.symm, contracts.symm⟩
      · rintro ⟨apart, contracts⟩
        exact (exists_mul_iff_contracts distinct).mpr ⟨apart.symm, contracts.symm⟩

theorem exists_combine_iff (distinct : b.freeSymbols.Nodup) :
    (∃ s, a.combine b isDifference = .ok s) ↔ b.free.Perm a.free := by
  constructor
  · rintro ⟨s, accepted⟩
    obtain ⟨positions, aligned, _⟩ := combine_eq_ok_iff.mp accepted
    exact FreeIndex.perm_of_align distinct aligned
  · intro same
    obtain ⟨positions, aligned⟩ := FreeIndex.exists_align_of_perm distinct same
    exact ⟨_, combine_eq_ok_iff.mpr ⟨positions, aligned, rfl⟩⟩

theorem free_combine (summed : a.combine b isDifference = .ok s) : s.free = a.free := by
  obtain ⟨positions, _, rfl⟩ := combine_eq_ok_iff.mp summed
  rfl

theorem mem_used_combine (summed : a.combine b isDifference = .ok s) {t : Symbol} :
    t ∈ s.used ↔ t ∈ a.used ∨ t ∈ b.used := by
  obtain ⟨positions, _, rfl⟩ := combine_eq_ok_iff.mp summed
  change t ∈ a.used ++ b.used.filter (fun t => !a.used.contains t) ↔ _
  by_cases onLeft : t ∈ a.used <;> simp [onLeft]

theorem mem_free_timesFactor (accepted : e.timesFactor inFront f = .ok p) {index : FreeIndex} :
    index ∈ p.free ↔ (index ∈ e.free ∨ index ∈ f.free) ∧
      ¬ (index.symbol ∈ e.freeSymbols ∧ index.symbol ∈ f.freeSymbols) := by
  cases inFront with
  | false =>
      obtain ⟨_, _, dims, _, rfl⟩ := mul_eq_ok_iff.mp accepted
      exact mem_free_mul
  | true =>
      obtain ⟨_, _, dims, _, rfl⟩ := mul_eq_ok_iff.mp accepted
      rw [mem_free_mul, or_comm, and_comm (a := index.symbol ∈ f.freeSymbols)]

theorem mem_used_timesFactor (accepted : e.timesFactor inFront f = .ok p) {t : Symbol} :
    t ∈ p.used ↔ t ∈ e.used ∨ t ∈ f.used ∨ t ∈ e.freeSymbols ∧ t ∈ f.freeSymbols := by
  have node {left right : Expression α} (dims : List Nat) :
      t ∈ (product left right (contraction left right dims)).used ↔
        t ∈ left.used ∨ t ∈ right.used ∨ t ∈ left.freeSymbols ∧ t ∈ right.freeSymbols := by
    change t ∈ left.used ++ right.used ++ FreeIndex.symbols (shared left right) ↔ _
    rw [symbols_shared, List.mem_append, List.mem_append, or_assoc, List.mem_filter, List.contains_iff_mem]
  cases inFront with
  | false =>
      obtain ⟨_, _, dims, _, rfl⟩ := mul_eq_ok_iff.mp accepted
      exact node dims
  | true =>
      obtain ⟨_, _, dims, _, rfl⟩ := mul_eq_ok_iff.mp accepted
      rw [node dims, or_left_comm, and_comm]

theorem free_timesFactor_congr (same : a.free = b.free) (first : a.timesFactor inFront f = .ok p)
    (second : b.timesFactor inFront f = .ok q) : p.free = q.free := by
  cases inFront with
  | false =>
      obtain ⟨_, _, _, _, rfl⟩ := mul_eq_ok_iff.mp first
      obtain ⟨_, _, _, _, rfl⟩ := mul_eq_ok_iff.mp second
      simp only [free, contraction, shared, same]
  | true =>
      obtain ⟨_, _, _, _, rfl⟩ := mul_eq_ok_iff.mp first
      obtain ⟨_, _, _, _, rfl⟩ := mul_eq_ok_iff.mp second
      simp only [free, contraction, shared, freeSymbols, same]

theorem wellIndexed_timesFactor (operand : e.WellIndexed) (factor : f.WellIndexed)
    (accepted : e.timesFactor inFront f = .ok p) : p.WellIndexed := by
  cases inFront with
  | false => exact wellIndexed_mul operand factor accepted
  | true => exact wellIndexed_mul factor operand accepted

section Accepted

theorem composes_combine_iff (distinct : b.freeSymbols.Nodup) (summed : a.combine b isDifference = .ok s) :
    SumsApart s f ∧ Contracts s f ↔
      (SumsApart a f ∧ Contracts a f) ∧ SumsApart b f ∧ Contracts b f := by
  have same := (exists_combine_iff distinct).mp ⟨s, summed⟩
  have names : ∀ t, t ∈ b.freeSymbols ↔ t ∈ a.freeSymbols := fun t => (same.map FreeIndex.symbol).mem_iff
  have used : ∀ t, t ∈ s.used ↔ t ∈ a.used ∨ t ∈ b.used := fun t => mem_used_combine summed
  have symbols : ∀ t, t ∈ s.symbols ↔ t ∈ a.symbols ∨ t ∈ b.symbols := by
    intro t
    rw [mem_symbols, mem_symbols, mem_symbols, used, names, freeSymbols, free_combine summed]
    exact ⟨fun each => by tauto, fun each => by tauto⟩
  have contracts : Contracts b f ↔ Contracts a f := by
    simp only [Contracts, same.mem_iff]
  have contracts' : Contracts s f ↔ Contracts a f := by
    simp only [Contracts, free_combine summed]
  simp only [contracts, contracts', SumsApart, used, symbols]
  constructor
  · rintro ⟨⟨summedApart, factorApart⟩, composed⟩
    exact ⟨⟨⟨fun t own => summedApart t (Or.inl own), fun t own among => factorApart t own (Or.inl among)⟩, composed⟩,
      ⟨fun t own => summedApart t (Or.inr own), fun t own among => factorApart t own (Or.inr among)⟩, composed⟩
  · rintro ⟨⟨⟨first, first'⟩, composed⟩, ⟨second, second'⟩, _⟩
    exact ⟨⟨fun t own => own.elim (first t) (second t), fun t own among => among.elim (first' t own) (second' t own)⟩,
      composed⟩

/-- An index of one operand is one of the other: either both products keep it, or both contract it with the
same index of the factor. -/
theorem mem_of_products (first : a.timesFactor inFront f = .ok p) (second : b.timesFactor inFront f = .ok q)
    (contracts : Contracts a f) (contracts' : Contracts b f) (same : ∀ index, index ∈ p.free ↔ index ∈ q.free)
    {index : FreeIndex} (present : index ∈ a.free) : index ∈ b.free := by
  by_cases held : index.symbol ∈ f.freeSymbols
  · obtain ⟨other, there, names⟩ := List.mem_map.mp held
    have summed : other.symbol ∈ a.freeSymbols ∧ other.symbol ∈ f.freeSymbols :=
      names ▸ ⟨mem_freeSymbols present, held⟩
    have dropped : other ∉ q.free := by
      rw [← same, mem_free_timesFactor first]
      exact fun kept => kept.2 summed
    rw [mem_free_timesFactor second] at dropped
    have also : other.symbol ∈ b.freeSymbols := by
      by_contra absent
      exact dropped ⟨Or.inr there, fun both => absent both.1⟩
    obtain ⟨mine, inside, named⟩ := List.mem_map.mp also
    have dual := Space.pairsWith_iff.mp (contracts index present other there names.symm).1
    have dual' := Space.pairsWith_iff.mp (contracts' mine inside other there named).1
    have factor : index.factor = mine.factor := by
      rw [← Space.dual_dual index.factor, dual, ← dual', Space.dual_dual]
    have equal : index = mine := by
      cases index
      cases mine
      simp_all
    exact equal ▸ inside
  · have kept : index ∈ p.free := (mem_free_timesFactor first).mpr ⟨Or.inl present, fun both => held both.2⟩
    rcases ((mem_free_timesFactor second).mp ((same index).mp kept)).1 with inside | absent
    · exact inside
    · exact absurd (mem_freeSymbols absent) held

variable (first : a.WellIndexed) (second : b.WellIndexed) (factor : f.WellIndexed)

include first second factor

theorem exists_timesFactor_combine_iff :
    (∃ p, (do (← a.combine b isDifference).timesFactor inFront f) = .ok p) ↔
      ∃ q, (do (← a.timesFactor inFront f).combine (← b.timesFactor inFront f) isDifference) = .ok q := by
  simp only [bind_eq_ok_iff]
  constructor
  · rintro ⟨p, s, summed, multiplied⟩
    have same := (exists_combine_iff second.free).mp ⟨s, summed⟩
    have sum := wellIndexed_combine first second summed
    have composes := (exists_timesFactor_iff sum.free factor.free).mp ⟨p, multiplied⟩
    obtain ⟨onLeft, onRight⟩ := (composes_combine_iff second.free summed).mp composes
    obtain ⟨x, left⟩ := (exists_timesFactor_iff first.free factor.free).mpr onLeft
    obtain ⟨y, right⟩ : ∃ y, b.timesFactor inFront f = .ok y :=
      (exists_timesFactor_iff second.free factor.free).mpr onRight
    have again : y.free.Perm x.free := by
      have names : ∀ t, t ∈ b.freeSymbols ↔ t ∈ a.freeSymbols := fun t => (same.map FreeIndex.symbol).mem_iff
      refine (List.perm_ext_iff_of_nodup ?_ ?_).mpr fun index => ?_
      · exact .of_map _ (wellIndexed_timesFactor second factor right).free
      · exact .of_map _ (wellIndexed_timesFactor first factor left).free
      · rw [mem_free_timesFactor left, mem_free_timesFactor right, same.mem_iff, names]
    obtain ⟨q, combined⟩ :=
      (exists_combine_iff (wellIndexed_timesFactor second factor right).free).mpr again
    exact ⟨q, x, left, y, right, combined⟩
  · rintro ⟨q, x, left, y, right, combined⟩
    have onLeft := (exists_timesFactor_iff first.free factor.free).mp ⟨x, left⟩
    have onRight := (exists_timesFactor_iff second.free factor.free).mp ⟨y, right⟩
    have kept := (exists_combine_iff (wellIndexed_timesFactor second factor right).free).mp ⟨q, combined⟩
    have same : b.free.Perm a.free := by
      refine (List.perm_ext_iff_of_nodup ?_ ?_).mpr fun index => ⟨?_, ?_⟩
      · exact .of_map _ second.free
      · exact .of_map _ first.free
      · exact mem_of_products right left onRight.2 onLeft.2 fun index => kept.mem_iff
      · exact mem_of_products left right onLeft.2 onRight.2 fun index => kept.mem_iff.symm
    obtain ⟨s, summed⟩ : ∃ s, a.combine b isDifference = .ok s := (exists_combine_iff second.free).mpr same
    have composes := (composes_combine_iff second.free summed).mpr ⟨onLeft, onRight⟩
    obtain ⟨p, multiplied⟩ :=
      (exists_timesFactor_iff (wellIndexed_combine first second summed).free factor.free).mpr composes
    exact ⟨p, s, summed, multiplied⟩

end Accepted

end Expression

/-- Both outcomes stand for one element of the ring, or neither is there, unless the scalars fail. -/
def Reading.Matches [Scalar α] [CommRing R] (reading : Reading α R) : (first second : Except Fault α) → Prop
  | .ok x, .ok y => reading.val x = reading.val y
  | .ok _, .error fault | .error fault, .ok _ => RingFails α fault
  | .error _, .error _ => True

namespace Expression

section Values

variable [Scalar α] [CommRing R] (reading : Reading α R) {a b e f p q s : Expression α}
  {inFront isDifference : Bool} {memory : Memory α} {caches : Caches α} {extent base : Symbol → Nat}

def combined (isDifference : Bool) (x y : α) : Except Fault α :=
  if isDifference then Scalar.sub x y else Scalar.add x y

omit [CommRing R] reading in
theorem ringFails_of_combined {x y : α} {fault : Fault} (failed : combined isDifference x y = .error fault) :
    RingFails α fault := by
  cases isDifference with
  | false => exact ⟨x, y, Or.inl failed⟩
  | true => exact ⟨x, y, Or.inr (Or.inl failed)⟩

theorem val_combined {x y z : α} (computed : combined isDifference x y = .ok z) :
    reading.val z = if isDifference then reading.val x - reading.val y else reading.val x + reading.val y := by
  cases isDifference with
  | false => exact reading.val_add computed
  | true => exact reading.val_sub computed

omit [CommRing R] reading in
theorem valueAt_combine (summed : a.combine b isDifference = .ok s) :
    s.valueAt memory caches base =
      (do combined isDifference (← a.valueAt memory caches base) (← b.valueAt memory caches base)) := by
  obtain ⟨positions, aligned, rfl⟩ := combine_eq_ok_iff.mp summed
  change (do
    let rightValues ← valuesAt (a.freeSymbols.map base) positions
    let x ← a.value memory caches (a.freeSymbols.map base)
    let y ← b.value memory caches rightValues
    combined isDifference x y) = _
  rw [freeSymbols, FreeIndex.valuesAt_align aligned, ok_bind]
  rfl

omit [CommRing R] reading in
theorem valueAt_combine_eq_ok (summed : a.combine b isDifference = .ok s) {z : α}
    (computed : s.valueAt memory caches base = .ok z) :
    ∃ x y, a.valueAt memory caches base = .ok x ∧ b.valueAt memory caches base = .ok y ∧
      combined isDifference x y = .ok z := by
  rw [valueAt_combine summed] at computed
  obtain ⟨x, first, later⟩ := bind_eq_ok_iff.mp computed
  obtain ⟨y, second, result⟩ := bind_eq_ok_iff.mp later
  exact ⟨x, y, first, second, result⟩

omit [CommRing R] reading in
theorem valueAt_combine_eq_error (summed : a.combine b isDifference = .ok s) {fault : Fault}
    (failed : s.valueAt memory caches base = .error fault) :
    a.valueAt memory caches base = .error fault ∨ b.valueAt memory caches base = .error fault ∨
      RingFails α fault := by
  rw [valueAt_combine summed] at failed
  rcases bind_eq_error_iff.mp failed with first | ⟨x, _, later⟩
  · exact Or.inl first
  · rcases bind_eq_error_iff.mp later with second | ⟨y, _, result⟩
    · exact Or.inr (Or.inl second)
    · exact Or.inr (Or.inr (ringFails_of_combined result))

omit [Scalar α] [CommRing R] reading in
theorem contracted_perm (distinct : e.freeSymbols.Nodup) (distinct' : f.freeSymbols.Nodup) :
    (contracted f e).Perm (contracted e f) := by
  refine (List.perm_ext_iff_of_nodup (distinct'.filter _) (distinct.filter _)).mpr fun t => ?_
  exact (mem_contracted.trans and_comm).trans mem_contracted.symm

omit [Scalar α] [CommRing R] reading in
theorem exists_sized_timesFactor (operand : e.Separated) (factor : f.Separated)
    (accepted : e.timesFactor inFront f = .ok p) : ∃ extent, Sized extent [e, f] := by
  cases inFront with
  | false => exact ((isProduct_operand operand).mul (isProduct_operand factor) accepted).exists_sized
  | true =>
      obtain ⟨extent, sized⟩ := ((isProduct_operand factor).mul (isProduct_operand operand) accepted).exists_sized
      exact ⟨extent, sized.perm (.swap e f [])⟩

theorem val_timesFactor (operand : e.Separated) (factor : f.Separated)
    (sized : Sized extent [e, f]) (accepted : e.timesFactor inFront f = .ok p) {y : α}
    (computed : p.valueAt memory caches base = .ok y) :
    (∀ now, Ranges extent (contracted e f) base now →
      (∃ x, e.valueAt memory caches now = .ok x) ∧ ∃ z, f.valueAt memory caches now = .ok z) ∧
    reading.val y = sumOver extent (contracted e f)
      (fun now => reading.of (e.valueAt memory caches now) * reading.of (f.valueAt memory caches now)) base := by
  cases inFront with
  | false => exact (isProduct_operand operand).val_mul reading (isProduct_operand factor) sized accepted computed
  | true =>
      have permuted := contracted_perm operand.free factor.free
      obtain ⟨present, total⟩ := (isProduct_operand factor).val_mul reading (isProduct_operand operand)
        (sized.perm (.swap f e [])) accepted computed
      constructor
      · intro now ranges
        exact (present now (ranges.perm permuted.symm)).symm
      · rw [total, sumOver_perm permuted (factor.free.filter _)]
        apply sumOver_congr (operand.free.filter _)
        intro now _
        exact mul_comm _ _

omit [CommRing R] reading in
theorem timesFactor_eq_error (operand : e.Separated) (factor : f.Separated) (sized : Sized extent [e, f])
    (accepted : e.timesFactor inFront f = .ok p) {fault : Fault}
    (failed : p.valueAt memory caches base = .error fault) :
    (∃ now, Ranges extent (contracted e f) base now ∧
      (e.valueAt memory caches now = .error fault ∨ f.valueAt memory caches now = .error fault)) ∨
        RingFails α fault := by
  cases inFront with
  | false =>
      exact ((isProduct_operand operand).mul_eq_error (isProduct_operand factor) sized accepted failed).imp_right
        ArithmeticFails.ringFails
  | true =>
      have permuted := contracted_perm operand.free factor.free
      rcases (isProduct_operand factor).mul_eq_error (isProduct_operand operand) (sized.perm (.swap f e []))
        accepted failed with ⟨now, ranges, fails⟩ | arithmetic
      · exact Or.inl ⟨now, ranges.perm permuted, fails.symm⟩
      · exact Or.inr arithmetic.ringFails

section Distributed

variable {x y : Expression α} (first : a.WellIndexed) (second : b.WellIndexed) (factor : f.WellIndexed)
  (summed : a.combine b isDifference = .ok s) (multiplied : s.timesFactor inFront f = .ok p)
  (onLeft : a.timesFactor inFront f = .ok x) (onRight : b.timesFactor inFront f = .ok y)
  (added : x.combine y isDifference = .ok q)

omit [Scalar α] [CommRing R] reading in
include second summed in
theorem sized_combine (sized : Sized extent [s, f]) : Sized extent [a, f] ∧ Sized extent [b, f] := by
  have same := (exists_combine_iff second.free).mp ⟨s, summed⟩
  have free := free_combine summed
  have names : ∀ t, t ∈ b.freeSymbols ↔ t ∈ a.freeSymbols := fun t => (same.map FreeIndex.symbol).mem_iff
  have names' : s.freeSymbols = a.freeSymbols := congrArg FreeIndex.symbols free
  simp only [Sized, mem_sharedSymbols_pair, mem_contracted, List.forall_mem_cons, List.not_mem_nil,
    IsEmpty.forall_iff, implies_true, and_true, names, names', free, same.mem_iff] at sized ⊢
  exact ⟨sized, sized⟩

omit [Scalar α] [CommRing R] reading in
include second summed in
theorem contracted_combine :
    contracted s f = contracted a f ∧ (contracted b f).Perm (contracted a f) := by
  have same := ((exists_combine_iff second.free).mp ⟨s, summed⟩).map FreeIndex.symbol
  exact ⟨congrArg (·.filter f.freeSymbols.contains) (congrArg FreeIndex.symbols (free_combine summed)),
    same.filter _⟩

omit [Scalar α] reading in
/-- A factor in each term, taken out of the sum or difference of two sums. -/
theorem sumOver_combined (symbols : IndexList) (u v w : (Symbol → Nat) → R) :
    sumOver extent symbols (fun now => (if isDifference then u now - v now else u now + v now) * w now) base =
      if isDifference then
        sumOver extent symbols (fun now => u now * w now) base - sumOver extent symbols (fun now => v now * w now) base
      else
        sumOver extent symbols (fun now => u now * w now) base + sumOver extent symbols (fun now => v now * w now) base := by
  cases isDifference with
  | false =>
      simp only [Bool.false_eq_true, if_false]
      rw [← sumOver_add]
      exact congrArg (sumOver extent symbols · base) (funext fun now => add_mul _ _ _)
  | true =>
      simp only [if_true]
      rw [← sumOver_sub]
      exact congrArg (sumOver extent symbols · base) (funext fun now => sub_mul _ _ _)

include first second factor summed multiplied onLeft onRight added

theorem val_distributed (sized : Sized extent [s, f]) {u v : α} (whole : p.valueAt memory caches base = .ok u)
    (parts : q.valueAt memory caches base = .ok v) : reading.val u = reading.val v := by
  have separated := (wellIndexed_combine first second summed).separated
  obtain ⟨sizedLeft, sizedRight⟩ := sized_combine second summed sized
  obtain ⟨contracts, permuted⟩ := contracted_combine second summed (f := f)
  obtain ⟨present, total⟩ := val_timesFactor reading separated factor.separated sized multiplied whole
  obtain ⟨u', v', left, right, result⟩ := valueAt_combine_eq_ok added parts
  obtain ⟨_, totalLeft⟩ := val_timesFactor reading first.separated factor.separated sizedLeft onLeft left
  obtain ⟨_, totalRight⟩ := val_timesFactor reading second.separated factor.separated sizedRight onRight right
  rw [contracts] at present total
  rw [sumOver_perm permuted (second.free.filter _)] at totalRight
  have terms : ∀ now, Ranges extent (contracted a f) base now →
      reading.of (s.valueAt memory caches now) =
        if isDifference then reading.of (a.valueAt memory caches now) - reading.of (b.valueAt memory caches now)
        else reading.of (a.valueAt memory caches now) + reading.of (b.valueAt memory caches now) := by
    intro now ranges
    obtain ⟨z, there⟩ := (present now ranges).1
    obtain ⟨m, n, fromLeft, fromRight, sum⟩ := valueAt_combine_eq_ok summed there
    rw [there, fromLeft, fromRight]
    exact val_combined reading sum
  rw [val_combined reading result, totalLeft, totalRight, total, ← sumOver_combined]
  apply sumOver_congr (first.free.filter _)
  intro now ranges
  rw [terms now ranges]

include reading in
theorem ringFails_of_whole (sized : Sized extent [s, f]) {u : α} {fault : Fault}
    (whole : p.valueAt memory caches base = .ok u) (parts : q.valueAt memory caches base = .error fault) :
    RingFails α fault := by
  have separated := (wellIndexed_combine first second summed).separated
  obtain ⟨sizedLeft, sizedRight⟩ := sized_combine second summed sized
  obtain ⟨contracts, permuted⟩ := contracted_combine second summed (f := f)
  obtain ⟨present, _⟩ := val_timesFactor reading separated factor.separated sized multiplied whole
  rw [contracts] at present
  have there : ∀ now, Ranges extent (contracted a f) base now →
      (∃ m, a.valueAt memory caches now = .ok m) ∧ (∃ n, b.valueAt memory caches now = .ok n) ∧
        ∃ z, f.valueAt memory caches now = .ok z := by
    intro now ranges
    obtain ⟨⟨z, sum⟩, onFactor⟩ := present now ranges
    obtain ⟨m, n, fromLeft, fromRight, _⟩ := valueAt_combine_eq_ok summed sum
    exact ⟨⟨m, fromLeft⟩, ⟨n, fromRight⟩, onFactor⟩
  rcases valueAt_combine_eq_error added parts with left | right | fails
  · rcases timesFactor_eq_error first.separated factor.separated sizedLeft onLeft left with
      ⟨now, ranges, either⟩ | fails
    · obtain ⟨⟨m, fromLeft⟩, _, z, onFactor⟩ := there now ranges
      rw [fromLeft, onFactor] at either
      rcases either with absent | absent <;> cases absent
    · exact fails
  · rcases timesFactor_eq_error second.separated factor.separated sizedRight onRight right with
      ⟨now, ranges, either⟩ | fails
    · obtain ⟨_, ⟨n, fromRight⟩, z, onFactor⟩ := there now (ranges.perm permuted)
      rw [fromRight, onFactor] at either
      rcases either with absent | absent <;> cases absent
    · exact fails
  · exact fails

include reading in
theorem ringFails_of_parts (sized : Sized extent [s, f]) {v : α} {fault : Fault}
    (whole : p.valueAt memory caches base = .error fault) (parts : q.valueAt memory caches base = .ok v) :
    RingFails α fault := by
  have separated := (wellIndexed_combine first second summed).separated
  obtain ⟨sizedLeft, sizedRight⟩ := sized_combine second summed sized
  obtain ⟨contracts, permuted⟩ := contracted_combine second summed (f := f)
  obtain ⟨u', v', left, right, _⟩ := valueAt_combine_eq_ok added parts
  obtain ⟨presentLeft, _⟩ := val_timesFactor reading first.separated factor.separated sizedLeft onLeft left
  obtain ⟨presentRight, _⟩ := val_timesFactor reading second.separated factor.separated sizedRight onRight right
  rcases timesFactor_eq_error separated factor.separated sized multiplied whole with ⟨now, ranges, either⟩ | fails
  · rw [contracts] at ranges
    obtain ⟨⟨m, fromLeft⟩, z, onFactor⟩ := presentLeft now ranges
    obtain ⟨⟨n, fromRight⟩, _⟩ := presentRight now (ranges.perm permuted.symm)
    rcases either with sum | absent
    · rcases valueAt_combine_eq_error summed sum with absent | absent | fails
      · rw [fromLeft] at absent
        cases absent
      · rw [fromRight] at absent
        cases absent
      · exact fails
    · rw [onFactor] at absent
      cases absent
  · exact fails

theorem matches_distributed (memory : Memory α) (caches : Caches α) (base : Symbol → Nat) :
    reading.Matches (p.valueAt memory caches base) (q.valueAt memory caches base) := by
  have separated := (wellIndexed_combine first second summed).separated
  obtain ⟨extent, sized⟩ := exists_sized_timesFactor separated factor.separated multiplied
  cases whole : p.valueAt memory caches base with
  | ok u =>
      cases parts : q.valueAt memory caches base with
      | ok v =>
          exact val_distributed reading first second factor summed multiplied onLeft onRight added sized whole parts
      | error fault =>
          exact ringFails_of_whole reading first second factor summed multiplied onLeft onRight added sized whole parts
  | error fault =>
      cases parts : q.valueAt memory caches base with
      | ok v =>
          exact ringFails_of_parts reading first second factor summed multiplied onLeft onRight added sized whole parts
      | error _ => trivial

end Distributed

end Values

section Nodes

variable {a b e f p s : Expression α} {inFront isDifference : Bool}

theorem mem_cacheNodes_timesFactor (accepted : e.timesFactor inFront f = .ok p) {node : CacheNode α} :
    node ∈ p.cacheNodes ↔ node ∈ e.cacheNodes ∨ node ∈ f.cacheNodes := by
  cases inFront with
  | false =>
      obtain ⟨_, _, dims, _, rfl⟩ := mul_eq_ok_iff.mp accepted
      exact List.mem_append
  | true =>
      obtain ⟨_, _, dims, _, rfl⟩ := mul_eq_ok_iff.mp accepted
      exact List.mem_append.trans or_comm

theorem cacheNodes_combine (summed : a.combine b isDifference = .ok s) :
    s.cacheNodes = a.cacheNodes ++ b.cacheNodes := by
  obtain ⟨positions, _, rfl⟩ := combine_eq_ok_iff.mp summed
  rfl

end Nodes

/-- A product with a sum or a difference is accepted exactly when the two products can be added or subtracted, and
it has their free indices in their order, their summed symbols and their components. -/
theorem timesFactor_combine [Scalar α] [CommRing R] (reading : Reading α R) {a b c : Expression α}
    (first : a.WellIndexed) (second : b.WellIndexed) (factor : c.WellIndexed) (inFront isDifference : Bool) :
    ((∃ p, (do (← a.combine b isDifference).timesFactor inFront c) = .ok p) ↔
      ∃ q, (do (← a.timesFactor inFront c).combine (← b.timesFactor inFront c) isDifference) = .ok q) ∧
    ∀ p q, (do (← a.combine b isDifference).timesFactor inFront c) = .ok p →
      (do (← a.timesFactor inFront c).combine (← b.timesFactor inFront c) isDifference) = .ok q →
        p.free = q.free ∧ p.used.Perm q.used ∧
          (CachesApart [a, b, c] → ∀ memory scratch base,
            reading.Matches (p.outcomeAt memory scratch base) (q.outcomeAt memory scratch base)) := by
  refine ⟨exists_timesFactor_combine_iff first second factor, fun p q whole parts => ?_⟩
  obtain ⟨s, summed, multiplied⟩ := bind_eq_ok_iff.mp whole
  obtain ⟨x, onLeft, later⟩ := bind_eq_ok_iff.mp parts
  obtain ⟨y, onRight, added⟩ := bind_eq_ok_iff.mp later
  have sum := wellIndexed_combine first second summed
  have same := (exists_combine_iff second.free).mp ⟨s, summed⟩
  refine ⟨?_, ?_, fun apart memory scratch base => ?_⟩
  · rw [free_combine added]
    exact free_timesFactor_congr (free_combine summed) multiplied onLeft
  · have distinct := (wellIndexed_timesFactor sum factor multiplied).used
    have distinct' := (wellIndexed_combine (wellIndexed_timesFactor first factor onLeft)
      (wellIndexed_timesFactor second factor onRight) added).used
    refine (List.perm_ext_iff_of_nodup distinct distinct').mpr fun t => ?_
    have names : t ∈ b.freeSymbols ↔ t ∈ a.freeSymbols := (same.map FreeIndex.symbol).mem_iff
    rw [mem_used_combine added, mem_used_timesFactor multiplied, mem_used_timesFactor onLeft,
      mem_used_timesFactor onRight, mem_used_combine summed, names, freeSymbols, free_combine summed, freeSymbols]
    tauto
  · have inside : ∀ e : Expression α,
        (∀ node ∈ e.cacheNodes, node ∈ a.cacheNodes ∨ node ∈ b.cacheNodes ∨ node ∈ c.cacheNodes) →
          e.outcomeAt memory scratch base = e.valueAt memory scratch.caches base := by
      intro e nodes
      apply component_run apart
      intro node present
      simpa using nodes node present
    rw [inside p, inside q]
    · exact matches_distributed reading first second factor summed multiplied onLeft onRight added memory
        scratch.caches base
    · intro node present
      rw [cacheNodes_combine added, List.mem_append, mem_cacheNodes_timesFactor onLeft,
        mem_cacheNodes_timesFactor onRight] at present
      tauto
    · intro node present
      rw [mem_cacheNodes_timesFactor multiplied, cacheNodes_combine summed, List.mem_append] at present
      tauto

theorem timesFactor_combine_transposed :
    ∃ a b c p q : Expression (Bounded .signed32),
      a.freeSymbols = [.letter 'i', .letter 'j'] ∧ b.freeSymbols = [.letter 'j', .letter 'i'] ∧
      c.freeSymbols = [.letter 'i'] ∧
      (do c.mul (← a.sub b)) = .ok p ∧ p.outcomeAt .empty ⟨#[], #[]⟩ (fun _ => 1) = Bounded.ofInt (-6) ∧
      (do (← c.mul a).sub (← c.mul b)) = .ok q ∧ p.free = q.free ∧
      (Bounded.reading .signed32).Matches (Bounded.ofInt (-6))
        (q.outcomeAt .empty ⟨#[], #[]⟩ fun _ => 1) := by
  let plane : Space := .standard 2 "V"
  let entries (id : String) (step start : Int) (size : Nat) : Components (Bounded .signed32) :=
    .generated (.ofFunction id size fun index => Bounded.ofInt (step * index + start))
  obtain ⟨a, b, c, p, named, named', named'', row, column, factor, whole, value⟩ : ∃ a b c p,
      Expression.index ⟨.tensorProduct [plane, plane], entries "a" 1 1 4⟩ [.letter 'i', .letter 'j'] = .ok a ∧
      Expression.index ⟨.tensorProduct [plane, plane], entries "b" 2 0 4⟩ [.letter 'j', .letter 'i'] = .ok b ∧
      Expression.index ⟨plane.dual, entries "c" 1 1 2⟩ [.letter 'i'] = .ok c ∧
      a.freeSymbols = [.letter 'i', .letter 'j'] ∧ b.freeSymbols = [.letter 'j', .letter 'i'] ∧
      c.freeSymbols = [.letter 'i'] ∧ (do (← a.combine b true).timesFactor true c) = .ok p ∧
      p.outcomeAt .empty ⟨#[], #[]⟩ (fun _ => 1) = Bounded.ofInt (-6) := by
    refine ⟨_, _, _, _, rfl, rfl, rfl, rfl, rfl, rfl, rfl, ?_⟩
    decide +kernel
  have apart : CachesApart [a, b, c] := by
    apply cachesApart_of_nil
    simp [cacheNodes_index named, cacheNodes_index named', cacheNodes_index named'']
  obtain ⟨accepted, spec⟩ := timesFactor_combine (Bounded.reading .signed32) (wellIndexed_index named)
    (wellIndexed_index named') (wellIndexed_index named'') true true
  obtain ⟨q, parts⟩ := accepted.mp ⟨p, whole⟩
  obtain ⟨free, _, agrees⟩ := spec p q whole parts
  refine ⟨a, b, c, p, q, row, column, factor, whole, value, parts, free, ?_⟩
  rw [← value]
  exact agrees apart .empty ⟨#[], #[]⟩ fun _ => 1

end Expression

end IndexNotation
