import IndexNotation.Proofs.Expression.BundledContraction
import IndexNotation.Proofs.Expression.MatrixProduct
import IndexNotation.Proofs.QuadraticSum

namespace IndexNotation

variable {α : Type}

section Diagonal

variable [Scalar α] {n c : Nat} {f : Nat → Except Fault α}

def Scalar.diagonal (c k : Nat) : Except Fault α := .ok (if k = c then one else zero)

/-- Against a column of the identity matrix only the entry of that column counts. -/
theorem Reading.val_dot_diagonal {R : Type} [CommRing R] (reading : Reading α R) (inside : c < n) {y : α}
    (computed : Scalar.dot n f (Scalar.diagonal c) = .ok y) :
    ∃ x, f c = .ok x ∧ reading.val x = reading.val y := by
  obtain ⟨present, total⟩ := reading.val_dot computed
  obtain ⟨⟨x, here⟩, _⟩ := present c inside
  have entry : ∀ k, reading.of (Scalar.diagonal c k) = if k = c then 1 else 0 := by
    intro k
    rw [Scalar.diagonal, Reading.of, apply_ite reading.val, reading.val_one, reading.val_zero]
  refine ⟨x, here, ?_⟩
  calc reading.val x
      = reading.of (f c) := by rw [here, Reading.of]
    _ = ∑ k ∈ Finset.range n, if k = c then reading.of (f k) else 0 := by
        rw [Finset.sum_ite_eq', if_pos (Finset.mem_range.mpr inside)]
    _ = ∑ k ∈ Finset.range n, reading.of (f k) * reading.of (Scalar.diagonal c k) := by
        simp only [entry, mul_ite, mul_one, mul_zero]
    _ = reading.val y := total.symm

end Diagonal

theorem Generator.exists_identity [Scalar α] {n : Nat} (small : n * n < Size.bound) :
    ∃ g : Generator α, identity n = .ok g ∧ g.dimension = n * n ∧
      ∀ row < n, ∀ column < n, ∀ counts, (g.evaluate (row * n + column) counts).1 = Scalar.diagonal column row := by
  have squared : Size.mul n n = .ok (n * n) := Size.mul_eq_ok_iff.mpr ⟨rfl, small⟩
  obtain ⟨g, generated⟩ : ∃ g : Generator α, identity n = .ok g := ⟨_, by rw [identity, squared]; rfl⟩
  have parts := generated
  rw [identity, squared] at parts
  cases parts
  refine ⟨_, generated, rfl, ?_⟩
  intro row inRow column inColumn counts
  have positive : 0 < n := Nat.zero_lt_of_lt inRow
  have inside : row * n + column < n * n :=
    calc row * n + column
        < (row + 1) * n := by rw [Nat.succ_mul]; omega
      _ ≤ n * n := Nat.mul_le_mul_right n inRow
  have quotient : Size.div (row * n + column) n = .ok row := by
    rw [Size.div, if_neg positive.ne', Nat.mul_comm, Nat.mul_add_div positive, Nat.div_eq_of_lt inColumn,
      Nat.add_zero]
  have remainder : Size.mod (row * n + column) n = .ok column := by
    rw [Size.mod, if_neg positive.ne', Nat.mul_comm, Nat.mul_add_mod, Nat.mod_eq_of_lt inColumn]
  rw [evaluate_ofFunction, if_pos inside, quotient, ok_bind, remainder, ok_bind]
  rfl

namespace Tensor

variable [Scalar α] {n : Nat}

def IsIdentity (d : Tensor α) (n : Nat) : Prop :=
  ∀ memory, ∀ row < n, ∀ column < n, d.components.value memory (row * n + column) = Scalar.diagonal column row

theorem exists_identity {V : Space} (sized : V.dimension = .ok n) (small : n * n < Size.bound) :
    ∃ (g : Generator α) (d : Tensor α), Generator.identity n = .ok g ∧
      procedural (.tensorProduct [V.dual, V]) g = .ok d ∧ d.space = .tensorProduct [V.dual, V] ∧ d.IsIdentity n := by
  obtain ⟨g, generated, counted, entries⟩ := @Generator.exists_identity α _ n small
  have product : (Space.tensorProduct [V.dual, V]).dimension = .ok (n * n) := by
    have one : Size.mul 1 n = .ok n := Size.mul_eq_ok_iff.mpr ⟨Nat.one_mul n, Space.dimension_lt sized⟩
    have squared : Size.mul n n = .ok (n * n) := Size.mul_eq_ok_iff.mpr ⟨rfl, small⟩
    have factors : Space.dimensions [V.dual, V] = .ok [n, n] :=
      Space.dimensions_eq_ok_iff.mpr (.cons (V.dimension_dual ▸ sized) (.cons sized .nil))
    rw [Space.dimension, factors, ok_bind, Size.product, List.foldlM_cons, one, ok_bind, List.foldlM_cons, squared]
    rfl
  have checked : procedural (.tensorProduct [V.dual, V]) g = .ok ⟨.tensorProduct [V.dual, V], .generated g⟩ := by
    have same : (Components.generated g).length = n * n := counted
    rw [procedural, ofComponents, if_pos rfl, product, ok_bind, if_neg (not_not.mpr same)]
    rfl
  exact ⟨g, _, generated, checked, rfl, fun _ row inRow column inColumn => entries row inRow column inColumn #[]⟩

end Tensor

namespace Expression

section Pair

variable {e x : Expression α} {i j : Symbol} {V : Space} {n : Nat} (separated : e.Separated)
  (present : ⟨i, V⟩ ∈ e.free) (new : e.mentions j = false) (sized : V.dimension = .ok n)
  (free : x.free = [⟨i, V.dual⟩, ⟨j, V⟩]) (used : x.used = [])

include separated present new free

theorem contracted_pair : contracted e x = [i] := by
  have symbols : x.freeSymbols = [i, j] := by rw [freeSymbols, free]; rfl
  have absent := (not_mem_of_mentions_eq_false new).1
  have only : contracted e x = e.freeSymbols.filter (· = i) := by
    rw [contracted, symbols]
    apply List.filter_congr
    intro s isFree
    have other : s ≠ j := ne_of_mem_of_not_mem isFree absent
    simp [other]
  rw [only, List.filter_eq, List.count_eq_one_of_mem separated.free (mem_freeSymbols present)]
  rfl

theorem shared_pair : shared e x = [⟨i, V⟩] := by
  have within : shared e x ⊆ e.free := List.filter_subset_self _
  apply FreeIndex.eq_of_symbols_eq separated.free within (List.cons_subset.mpr ⟨present, List.nil_subset _⟩)
  rw [symbols_shared]
  exact contracted_pair separated present new free

include sized used

theorem mul_pair : e.mul x = .ok (.product e x (contraction e x [n])) := by
  have symbols : x.freeSymbols = [i, j] := by rw [freeSymbols, free]; rfl
  have absent := not_mem_of_mentions_eq_false new
  refine mul_eq_ok_iff.mpr ⟨checkDisjoint_eq_ok_iff.mpr ⟨?_, ?_, ?_⟩, ?_, [n], ?_, rfl⟩
  · simp [used]
  · intro s isFree
    rw [symbols] at isFree
    rcases List.mem_pair.mp isFree with rfl | rfl
    · exact separated.apart s (mem_freeSymbols present)
    · exact absent.2
  · simp [used]
  · intro index inside
    rw [checkContraction, free]
    by_cases same : index.symbol = i
    · have paired : checkPairing i V V.dual = .ok () := by
        rcases checkPairing_cases (s := i) sized ((Space.dimension_dual V).trans sized) with
          ⟨_, accepted⟩ | ⟨different, _⟩
        · exact accepted
        · exact absurd (Space.pairsWith_iff.mpr rfl) different
      have whole : index = ⟨i, V⟩ := by
        have found := FreeIndex.find?_symbol separated.free inside same
        rw [FreeIndex.find?_symbol separated.free present rfl] at found
        exact (Option.some.inj found).symm
      simpa [whole] using paired
    · have other : index.symbol ≠ j := ne_of_mem_of_not_mem (mem_freeSymbols inside) absent.1
      simp [Ne.symm same, Ne.symm other]
  · rw [shared_pair separated present new free]
    exact Space.dimensions_eq_ok_iff.mpr (.cons sized .nil)

omit sized used in
theorem free_pair : (product e x (contraction e x [n])).free =
    (e.free.filter fun index => index.symbol ≠ i) ++ [⟨j, V⟩] := by
  have differs : j ≠ i := by
    intro same
    exact (not_mem_of_mentions_eq_false new).1 (same ▸ mem_freeSymbols present)
  rw [free_product, contracted_pair separated present new free, free, List.filter_append]
  simp [differs]

end Pair

theorem exists_index_identity [Scalar α] {i j : Symbol} {V : Space} {n : Nat} (differs : i ≠ j)
    (sized : V.dimension = .ok n) (small : n * n < Size.bound) :
    ∃ (g : Generator α) (d : Tensor α) (x : Expression α), Generator.identity n = .ok g ∧
      Tensor.procedural (.tensorProduct [V.dual, V]) g = .ok d ∧ index d [i, j] = .ok x ∧
      x.free = [⟨i, V.dual⟩, ⟨j, V⟩] ∧ x.used = [] ∧
      ∀ memory caches values, values i < n → values j < n →
        x.valueAt memory caches values = Scalar.diagonal (values j) (values i) := by
  obtain ⟨g, d, generated, made, space, entries⟩ := @Tensor.exists_identity α _ n V sized small
  have slots : d.Slots [i, j] [V.dual, V] [n, n] := by
    refine ⟨by simp [differs], by rw [space]; rfl, ?_, ?_⟩
    · exact Space.dimensions_eq_ok_iff.mpr (.cons (V.dimension_dual ▸ sized) (.cons sized .nil))
    · simpa using small.le
  refine ⟨g, d, _, generated, made, slots.index, rfl, rfl, ?_⟩
  intro memory caches values row column
  rw [slots.valueAt memory caches ⟨row, column, trivial⟩]
  simpa [RowMajor.number] using entries memory (values i) row (values j) column

/-- Contracting an index with the identity matrix over its factor renames the index and moves it behind the others.
The product lacks a component only where the expression lacks one along the index, or the scalars fail. -/
theorem mul_identity [Scalar α] {R : Type} [CommRing R] (reading : Reading α R) {e : Expression α} {i j : Symbol}
    {V : Space} {n : Nat} (separated : e.Separated) (present : ⟨i, V⟩ ∈ e.free) (new : e.mentions j = false)
    (sized : V.dimension = .ok n) (small : n * n < Size.bound) :
    ∃ (g : Generator α) (d : Tensor α) (x p : Expression α), Generator.identity n = .ok g ∧
      Tensor.procedural (.tensorProduct [V.dual, V]) g = .ok d ∧ index d [i, j] = .ok x ∧ e.mul x = .ok p ∧
      p.free = (e.free.filter fun index => index.symbol ≠ i) ++ [⟨j, V⟩] ∧
      (CachesApart [e] → ∀ memory scratch base, base j < n →
        (∀ y, p.outcomeAt memory scratch base = .ok y →
          ∃ x, e.outcomeAt memory scratch (Function.update base i (base j)) = .ok x ∧
            reading.val x = reading.val y) ∧
        ∀ fault, p.outcomeAt memory scratch base = .error fault →
          (∃ k < n, e.outcomeAt memory scratch (Function.update base i k) = .error fault) ∨
            ArithmeticFails α fault) := by
  have differs : i ≠ j := ne_of_mem_of_not_mem (mem_freeSymbols present) (not_mem_of_mentions_eq_false new).1
  obtain ⟨g, d, x, generated, made, indexed, free, used, entries⟩ :=
    @exists_index_identity α _ i j V n differs sized small
  have multiplied := mul_pair separated present new sized free used
  refine ⟨g, d, x, _, generated, made, indexed, multiplied, free_pair separated present new free, ?_⟩
  intro caches memory scratch base inside
  have apart : CachesApart [e, x] := by
    have none := cacheNodes_index indexed
    simpa [CachesApart, none] using caches
  have column : ∀ k < n, x.valueAt memory scratch.caches (Function.update base i k) = Scalar.diagonal (base j) k := by
    intro k row
    have atRow : Function.update base i k i = k := Function.update_self i k base
    have atColumn : Function.update base i k j = base j := Function.update_of_ne differs.symm k base
    rw [entries memory scratch.caches _ (by rwa [atRow]) (by rwa [atColumn]), atRow, atColumn]
  have total : (product e x (contraction e x [n])).outcomeAt memory scratch base =
      Scalar.dot n (fun k => e.outcomeAt memory scratch (Function.update base i k)) (Scalar.diagonal (base j)) := by
    rw [outcomeAt_mul apart multiplied rfl rfl,
      valueAt_mul_single separated.free (contracted_pair separated present new free)]
    exact Scalar.dot_congr (fun k _ => (outcomeAt_eq_valueAt caches List.mem_cons_self _ _ _).symm) column
  rw [total]
  refine ⟨fun y computed => reading.val_dot_diagonal inside computed, fun fault failed => ?_⟩
  rcases Scalar.exists_of_dot_eq_error failed with ⟨k, row, missing | impossible⟩ | arithmetic
  · exact Or.inl ⟨k, row, missing⟩
  · cases impossible
  · exact Or.inr arithmetic

theorem mul_identity_middle :
    ∃ (e x p : Expression (Bounded .signed32)) (g : Generator (Bounded .signed32)) (d : Tensor (Bounded .signed32)),
      index ⟨.tensorProduct [.standard 2 "U", .symmetricPower 2 (.standard 2 "V"), .standard 2 "W"],
        .generated (.ofFunction "entries" 12 fun index => Bounded.ofInt (3 * index + 1))⟩
        [.letter 'a', .letter 'i', .letter 'b'] = .ok e ∧
      Generator.identity 3 = .ok g ∧
      Tensor.procedural (.tensorProduct [(Space.symmetricPower 2 (.standard 2 "V")).dual,
        .symmetricPower 2 (.standard 2 "V")]) g = .ok d ∧
      index d [.letter 'i', .letter 'j'] = .ok x ∧ e.mul x = .ok p ∧
      p.free = [⟨.letter 'a', .standard 2 "U"⟩, ⟨.letter 'b', .standard 2 "W"⟩,
        ⟨.letter 'j', .symmetricPower 2 (.standard 2 "V")⟩] ∧
      ∃ y, p.outcomeAt .empty ⟨#[], #[]⟩ (IndexList.assign [.letter 'a', .letter 'j'] [1, 2] fun _ => 0) = .ok y ∧
        y.val = 31 := by
  obtain ⟨e, x, p, g, d, named, generated, made, indexed, multiplied, free, mentions, ⟨y, computed⟩,
    entry⟩ :
      ∃ (e x p : Expression (Bounded .signed32)) (g : Generator (Bounded .signed32)) (d : Tensor (Bounded .signed32)),
      index ⟨.tensorProduct [.standard 2 "U", .symmetricPower 2 (.standard 2 "V"), .standard 2 "W"],
        .generated (.ofFunction "entries" 12 fun index => Bounded.ofInt (3 * index + 1))⟩
        [.letter 'a', .letter 'i', .letter 'b'] = .ok e ∧
      Generator.identity 3 = .ok g ∧
      Tensor.procedural (.tensorProduct [(Space.symmetricPower 2 (.standard 2 "V")).dual,
        .symmetricPower 2 (.standard 2 "V")]) g = .ok d ∧
      index d [.letter 'i', .letter 'j'] = .ok x ∧ e.mul x = .ok p ∧
      e.free = [⟨.letter 'a', .standard 2 "U"⟩, ⟨.letter 'i', .symmetricPower 2 (.standard 2 "V")⟩,
        ⟨.letter 'b', .standard 2 "W"⟩] ∧
      e.mentions (.letter 'j') = false ∧
      (∃ y, p.outcomeAt .empty ⟨#[], #[]⟩ (IndexList.assign [.letter 'a', .letter 'j'] [1, 2] fun _ => 0) = .ok y) ∧
      e.outcomeAt .empty ⟨#[], #[]⟩ (Function.update
        (IndexList.assign [.letter 'a', .letter 'j'] [1, 2] fun _ => 0) (.letter 'i') 2) = .ok ⟨31, by decide⟩ :=
    ⟨_, _, _, _, _, rfl, rfl, rfl, rfl, rfl, rfl, rfl, ⟨_, rfl⟩, by decide +kernel⟩
  have present : ⟨.letter 'i', .symmetricPower 2 (.standard 2 "V")⟩ ∈ e.free := by
    rw [free]
    exact List.mem_cons_of_mem _ List.mem_cons_self
  have sized : (Space.symmetricPower 2 (.standard 2 "V")).dimension = .ok 3 := rfl
  obtain ⟨g', d', x', p', generated', made', indexed', multiplied', renamed, agrees⟩ :=
    mul_identity (Bounded.reading .signed32) (wellIndexed_index named).separated present mentions sized (by decide)
  obtain rfl := Except.ok.inj (generated.symm.trans generated')
  obtain rfl := Except.ok.inj (made.symm.trans made')
  obtain rfl := Except.ok.inj (indexed.symm.trans indexed')
  obtain rfl := Except.ok.inj (multiplied.symm.trans multiplied')
  refine ⟨e, x, p, g, d, named, generated, made, indexed, multiplied, ?_, y, computed, ?_⟩
  · rw [renamed, free]
    rfl
  · have apart : CachesApart [e] := by
      apply cachesApart_of_nil
      simp [cacheNodes_index named]
    obtain ⟨same, _⟩ := agrees apart .empty ⟨#[], #[]⟩
      (IndexList.assign [.letter 'a', .letter 'j'] [1, 2] fun _ => 0) (by decide)
    obtain ⟨z, found, equal⟩ := same y computed
    have value : (⟨31, by decide⟩ : Bounded .signed32) = z := Except.ok.inj (entry.symm.trans found)
    rw [← value] at equal
    exact equal.symm

end Expression

end IndexNotation
