import IndexNotation.Expression.Build
import IndexNotation.Proofs.Outcome
import Mathlib.Data.List.Nodup
import Mathlib.Data.List.Perm.Subperm

namespace IndexNotation.FreeIndex

theorem eq_of_symbol_eq {free : List FreeIndex} (distinct : (symbols free).Nodup) {index other : FreeIndex}
    (present : index ∈ free) (also : other ∈ free) (same : index.symbol = other.symbol) :
    index = other :=
  List.inj_on_of_nodup_map distinct present also same

theorem getElem?_of_findIdx?_symbol {free : List FreeIndex} {s : Symbol} {position : Nat}
    (found : free.findIdx? (·.symbol = s) = some position) :
    ∃ index, free[position]? = some index ∧ index.symbol = s := by
  obtain ⟨inside, holds, _⟩ := List.findIdx?_eq_some_iff_getElem.mp found
  exact ⟨free[position], List.getElem?_eq_getElem inside, by simpa using holds⟩

theorem exists_findIdx?_symbol {free : List FreeIndex} {index : FreeIndex} (present : index ∈ free) :
    ∃ position, free.findIdx? (·.symbol = index.symbol) = some position := by
  apply Option.isSome_iff_exists.mp
  rw [List.findIdx?_isSome, List.any_eq_true]
  exact ⟨index, present, by simp⟩

theorem align_eq_ok_iff {reference other : List FreeIndex} {positions : List Nat} :
    align reference other = .ok positions ↔
      reference.length = other.length ∧
        List.Forall₂ (fun index position =>
          reference.findIdx? (·.symbol = index.symbol) = some position ∧
            reference[position]? = some index) other positions := by
  unfold align
  by_cases same : reference.length = other.length
  · simp only [same, ne_eq, not_true, if_false, true_and, mapM_eq_ok_iff]
    apply iff_of_eq
    congr 1
    funext index position
    apply propext
    cases found : reference.findIdx? (·.symbol = index.symbol) with
    | none => simp
    | some first =>
        obtain ⟨reached, there, named⟩ := getElem?_of_findIdx?_symbol found
        simp only [there, Option.some.injEq]
        constructor
        · intro matched
          split at matched
          · rename_i factors
            cases matched
            refine ⟨rfl, ?_⟩
            rw [there]
            cases reached
            cases index
            simp_all
          · cases matched
        · intro both
          obtain ⟨rfl, holds⟩ := both
          have equal : reached = index := by simpa [there] using holds
          simp [equal]
  · simp [same]

theorem align_eq_error {reference other : List FreeIndex} {fault : Fault}
    (failed : align reference other = .error fault) : ∃ reason, fault = .refused reason := by
  unfold align at failed
  split at failed
  · cases failed
    exact ⟨_, rfl⟩
  · obtain ⟨index, _, fails⟩ := mapM_eq_error failed
    split at fails
    · cases fails
      exact ⟨_, rfl⟩
    · split at fails
      · cases fails
        exact ⟨_, rfl⟩
      · split at fails
        · cases fails
        · cases fails
          exact ⟨_, rfl⟩

theorem mem_of_align {reference other : List FreeIndex} {positions : List Nat}
    (aligned : align reference other = .ok positions) {index : FreeIndex} (present : index ∈ other) :
    index ∈ reference := by
  obtain ⟨_, matched⟩ := align_eq_ok_iff.mp aligned
  obtain ⟨place, inside, rfl⟩ := List.getElem_of_mem present
  have bound : place < positions.length := by
    rw [← matched.length_eq]
    exact inside
  exact List.mem_of_getElem? (matched.get inside bound).2

theorem perm_of_align {reference other : List FreeIndex} {positions : List Nat}
    (distinct : (symbols other).Nodup) (aligned : align reference other = .ok positions) :
    other.Perm reference := by
  have inside : other ⊆ reference := fun index present => mem_of_align aligned present
  have apart : other.Nodup := List.Nodup.of_map _ distinct
  have lengths := (align_eq_ok_iff.mp aligned).1
  exact (List.subperm_of_subset apart inside).perm_of_length_le (by omega)

theorem exists_align_of_perm {reference other : List FreeIndex} (distinct : (symbols other).Nodup)
    (same : other.Perm reference) : ∃ positions, align reference other = .ok positions := by
  have apart : (symbols reference).Nodup := (same.map symbol).nodup_iff.mp distinct
  unfold align
  simp only [same.length_eq, ne_eq, not_true, if_false]
  apply exists_mapM_eq_ok
  intro index present
  have there : index ∈ reference := same.mem_iff.mp present
  obtain ⟨position, found⟩ := exists_findIdx?_symbol there
  obtain ⟨reached, holds, named⟩ := getElem?_of_findIdx?_symbol found
  have equal : reached = index := eq_of_symbol_eq apart (List.mem_of_getElem? holds) there named
  exact ⟨position, by simp [found, holds, equal]⟩

end IndexNotation.FreeIndex
