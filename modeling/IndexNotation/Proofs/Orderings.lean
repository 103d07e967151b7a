import IndexNotation.Proofs.Binomial
import IndexNotation.Proofs.RowMajor
import Mathlib.Algebra.BigOperators.Ring.Finset
import Mathlib.Algebra.Order.BigOperators.Ring.Finset
import Mathlib.Data.Nat.Choose.Basic
import Mathlib.Data.Set.Card
import Mathlib.Tactic.Ring
/-!
The orderings of a tuple. Both the product that counts them run by run and the tuples in range that are one
of them come to the multinomial coefficient of the multiplicities: times the factorials of these, either gives
the factorial of the length.
-/
namespace IndexNotation.Counting

/-- In how many ways equal values can change places among themselves. -/
def fixing (n : Nat) (parts : List Nat) : Nat := ∏ value ∈ Finset.range n, (parts.count value).factorial

theorem lt_sum_succ (parts : List Nat) : ∀ value ∈ parts, value < parts.sum + 1 :=
  fun _ present => Nat.lt_succ_of_le (List.le_sum_of_mem present)

theorem fixing_pos (n : Nat) (parts : List Nat) : 0 < fixing n parts :=
  Finset.prod_pos fun _ _ => Nat.factorial_pos _

theorem fixing_perm {parts others : List Nat} (permuted : parts.Perm others) (n : Nat) :
    fixing n parts = fixing n others :=
  Finset.prod_congr rfl fun value _ => congrArg Nat.factorial (permuted.count_eq value)

theorem fixing_cons {n value : Nat} (small : value < n) (parts : List Nat) :
    fixing n (value :: parts) = (parts.count value + 1) * fixing n parts := by
  have others : ∏ other ∈ (Finset.range n).erase value, ((value :: parts).count other).factorial =
      ∏ other ∈ (Finset.range n).erase value, (parts.count other).factorial := by
    apply Finset.prod_congr rfl
    intro other member
    rw [List.count_cons_of_ne (Finset.ne_of_mem_erase member).symm]
  have member := Finset.mem_range.mpr small
  rw [fixing, fixing, ← Finset.mul_prod_erase _ _ member, ← Finset.mul_prod_erase _ _ member, others,
    List.count_cons_self, Nat.factorial_succ, Nat.mul_assoc]

section Runs

theorem insertAscending_perm (x : Nat) (sorted : List Nat) : (insertAscending x sorted).Perm (x :: sorted) := by
  induction sorted with
  | nil => exact .refl _
  | cons y rest ih =>
      rw [insertAscending]
      split
      · exact .refl _
      · exact (ih.cons y).trans (.swap x y rest)

theorem sortAscending_perm (parts : List Nat) : (sortAscending parts).Perm parts := by
  induction parts with
  | nil => exact .refl _
  | cons x rest ih => exact (insertAscending_perm x _).trans (ih.cons x)

theorem insertAscending_pairwise {x : Nat} {sorted : List Nat} (ascending : sorted.Pairwise (· ≤ ·)) :
    (insertAscending x sorted).Pairwise (· ≤ ·) := by
  induction sorted with
  | nil => exact List.pairwise_singleton _ x
  | cons y rest ih =>
      rcases List.pairwise_cons.mp ascending with ⟨head, tail⟩
      rw [insertAscending]
      split
      · rename_i smaller
        refine List.pairwise_cons.mpr ⟨?_, ascending⟩
        exact List.forall_mem_cons.mpr ⟨smaller, fun z present => Nat.le_trans smaller (head z present)⟩
      · rename_i larger
        refine List.pairwise_cons.mpr ⟨?_, ih tail⟩
        intro z present
        rcases List.mem_cons.mp ((insertAscending_perm x rest).mem_iff.mp present) with rfl | later
        · exact Nat.le_of_not_le larger
        · exact head z later

theorem sortAscending_pairwise (parts : List Nat) : (sortAscending parts).Pairwise (· ≤ ·) := by
  induction parts with
  | nil => exact .nil
  | cons x rest ih => exact insertAscending_pairwise ih

theorem sortAscending_congr {first second : List Nat} (permuted : first.Perm second) :
    sortAscending first = sortAscending second := by
  have sorted : (sortAscending first).Perm (sortAscending second) :=
    ((sortAscending_perm first).trans permuted).trans (sortAscending_perm second).symm
  exact sorted.eq_of_pairwise (fun _ _ _ _ small large => Nat.le_antisymm small large)
    (sortAscending_pairwise first) (sortAscending_pairwise second)

theorem runLengths_cons {x y run : Nat} {rest runs : List Nat} (found : runLengths (y :: rest) = run :: runs) :
    runLengths (x :: y :: rest) = if x = y then (run + 1) :: runs else 1 :: run :: runs := by
  conv_lhs => unfold runLengths
  rw [found]

theorem exists_runLengths (x : Nat) (rest : List Nat) : ∃ run runs, runLengths (x :: rest) = run :: runs := by
  induction rest generalizing x with
  | nil => exact ⟨1, [], rfl⟩
  | cons y rest ih =>
      rcases ih y with ⟨run, runs, found⟩
      rw [runLengths_cons found]
      split
      · exact ⟨_, _, rfl⟩
      · exact ⟨_, _, rfl⟩

theorem sum_runLengths (parts : List Nat) : (runLengths parts).sum = parts.length := by
  match parts with
  | [] | [_] => rfl
  | x :: y :: rest =>
      have shorter := sum_runLengths (y :: rest)
      rcases exists_runLengths y rest with ⟨run, runs, found⟩
      rw [found, List.sum_cons] at shorter
      rw [runLengths_cons found, List.length_cons, ← shorter]
      split
      · rw [List.sum_cons]
        omega
      · rw [List.sum_cons, List.sum_cons, Nat.add_comm]

/-- The first run of an ascending list has all that are equal to its first value, and the runs are as long as
the values are often. -/
theorem runLengths_spec {n value : Nat} {rest : List Nat} (ascending : (value :: rest).Pairwise (· ≤ ·))
    (small : ∀ other ∈ value :: rest, other < n) :
    ∃ runs, runLengths (value :: rest) = (value :: rest).count value :: runs ∧
      ((runLengths (value :: rest)).map Nat.factorial).prod = fixing n (value :: rest) := by
  induction rest generalizing value with
  | nil =>
      refine ⟨[], by simp [runLengths], ?_⟩
      have none : fixing n [] = 1 := Finset.prod_eq_one fun _ _ => rfl
      rw [fixing_cons (small value List.mem_cons_self), none]
      rfl
  | cons next rest ih =>
      rcases List.pairwise_cons.mp ascending with ⟨head, tail⟩
      rcases List.forall_mem_cons.mp small with ⟨first, others⟩
      rcases ih tail others with ⟨runs, found, product⟩
      rw [found, List.map_cons, List.prod_cons] at product
      rw [fixing_cons first, ← product]
      by_cases same : value = next
      · subst same
        refine ⟨runs, ?_, ?_⟩
        · rw [runLengths_cons found, if_pos rfl, ← List.count_cons_self]
        · rw [runLengths_cons found, if_pos rfl, List.map_cons, List.prod_cons, Nat.factorial_succ, Nat.mul_assoc]
      · have absent : (next :: rest).count value = 0 := by
          apply List.count_eq_zero_of_not_mem
          intro present
          have above := head next List.mem_cons_self
          rcases List.mem_cons.mp present with equal | later
          · exact same equal
          · exact same (Nat.le_antisymm above ((List.pairwise_cons.mp tail).1 value later))
        refine ⟨(next :: rest).count next :: runs, ?_, ?_⟩
        · have once : (value :: next :: rest).count value = 1 := by rw [List.count_cons_self, absent]
          rw [runLengths_cons found, if_neg same, once]
        · rw [runLengths_cons found, if_neg same, absent, List.map_cons, List.prod_cons, List.map_cons,
            List.prod_cons]
          rfl

/-- The runs placed so far have as many orderings as the factorials say. -/
theorem foldlM_placeRun {runs : List Nat} {state last : Nat × Nat} {factorials : Nat}
    (placed : runs.foldlM placeRun state = .ok last) (start : state.2 * factorials = state.1.factorial) :
    last.2 * (factorials * (runs.map Nat.factorial).prod) = (state.1 + runs.sum).factorial := by
  induction runs generalizing state factorials with
  | nil =>
      cases placed
      simpa using start
  | cons run runs ih =>
      rw [List.foldlM_cons] at placed
      rcases bind_eq_ok_iff.mp placed with ⟨next, step, rest⟩
      rcases bind_eq_ok_iff.mp step with ⟨coefficient, computed, later⟩
      rcases bind_eq_ok_iff.mp later with ⟨count, product, made⟩
      cases made
      rcases binomial_eq_ok_iff.mp computed with ⟨_, rfl⟩
      rcases Size.mul_eq_ok_iff.mp product with ⟨rfl, _⟩
      have more : state.2 * (state.1 + run).choose run * (factorials * run.factorial) =
          (state.1 + run).factorial :=
        calc state.2 * (state.1 + run).choose run * (factorials * run.factorial)
            = (state.1 + run).choose run * (state.2 * factorials) * run.factorial := by ring
          _ = (state.1 + run).choose run * state.1.factorial * run.factorial := by rw [start]
          _ = (state.1 + run).factorial := Nat.add_choose_mul_factorial_mul_factorial state.1 run
      have whole := ih rest more
      rw [List.map_cons, List.prod_cons, List.sum_cons, ← Nat.mul_assoc factorials, ← Nat.add_assoc]
      exact whole

theorem orderings_mul_fixing {n count : Nat} {parts : List Nat} (counted : orderings parts = .ok count)
    (small : ∀ value ∈ parts, value < n) : count * fixing n parts = parts.length.factorial := by
  rcases bind_eq_ok_iff.mp counted with ⟨last, placed, made⟩
  cases made
  have permuted := sortAscending_perm parts
  have product : ((runLengths (sortAscending parts)).map Nat.factorial).prod = fixing n parts := by
    rw [← fixing_perm permuted]
    cases sorted : sortAscending parts with
    | nil => exact (Finset.prod_eq_one fun _ _ => rfl).symm
    | cons value rest =>
        have ascending := sortAscending_pairwise parts
        rw [sorted] at ascending permuted
        have within : ∀ other ∈ value :: rest, other < n :=
          fun other present => small other (permuted.mem_iff.mp present)
        exact (runLengths_spec ascending within).choose_spec.2
  have whole := foldlM_placeRun placed (Nat.one_mul 1)
  rw [Nat.one_mul, Nat.zero_add, product, sum_runLengths, permuted.length_eq] at whole
  exact whole

theorem orderings_pos {count : Nat} {parts : List Nat} (counted : orderings parts = .ok count) : 0 < count := by
  have whole := orderings_mul_fixing counted (lt_sum_succ parts)
  rcases Nat.eq_zero_or_pos count with none | positive
  · rw [none, Nat.zero_mul] at whole
    exact absurd whole.symm (Nat.factorial_ne_zero _)
  · exact positive

theorem orderings_eq_error {parts : List Nat} {fault : Fault} (failed : orderings parts = .error fault) :
    fault = .overflow := by
  rcases bind_eq_error_iff.mp failed with placing | ⟨_, _, done⟩
  · rcases foldlM_eq_error placing with ⟨state, run, _, fails⟩
    rcases bind_eq_error_iff.mp fails with choosing | ⟨coefficient, _, rest⟩
    · exact (binomial_eq_error_iff.mp choosing).1
    rcases bind_eq_error_iff.mp rest with multiplying | ⟨_, _, made⟩
    · exact Size.checked_eq_error multiplying
    · cases made
  · cases done

end Runs

section Arrangements

def arrangements (n : Nat) (parts : List Nat) : Nat :=
  (RowMajor.tuples (List.replicate parts.length n)).countP fun tuple => tuple.Perm parts

/-- Any value that occurs may stand first. -/
theorem arrangements_eq_sum {n length : Nat} {parts : List Nat} (long : parts.length = length + 1) :
    arrangements n parts =
      ∑ value ∈ Finset.range n, if value ∈ parts then arrangements n (parts.erase value) else 0 := by
  rw [arrangements, long, List.replicate_succ, RowMajor.tuples, List.countP_flatMap]
  apply congrArg List.sum
  apply List.map_congr_left
  intro value _
  rw [Function.comp_apply, List.countP_map]
  split
  · rename_i present
    have shorter : (parts.erase value).length = length := by
      rw [List.length_erase_of_mem present, long, Nat.add_sub_cancel]
    rw [arrangements, shorter]
    apply List.countP_congr
    intro tuple _
    simp [List.cons_perm_iff_perm_erase, present]
  · rename_i absent
    rw [List.countP_eq_zero]
    intro tuple _
    simp [List.cons_perm_iff_perm_erase, absent]

theorem arrangements_mul_fixing {n : Nat} {parts : List Nat} (small : ∀ value ∈ parts, value < n) :
    arrangements n parts * fixing n parts = parts.length.factorial := by
  induction long : parts.length generalizing parts with
  | zero =>
      rw [List.length_eq_zero_iff.mp long]
      have none : fixing n [] = 1 := Finset.prod_eq_one fun _ _ => rfl
      rw [none]
      rfl
  | succ length ih =>
      have each : ∀ value ∈ Finset.range n,
          (if value ∈ parts then arrangements n (parts.erase value) else 0) * fixing n parts =
            parts.count value * length.factorial := by
        intro value member
        split
        · rename_i present
          have permuted := List.perm_cons_erase present
          have shorter : (parts.erase value).length = length := by
            rw [List.length_erase_of_mem present, long, Nat.add_sub_cancel]
          have rest := ih (fun other inside => small other (List.mem_of_mem_erase inside)) shorter
          rw [fixing_perm permuted, fixing_cons (Finset.mem_range.mp member), permuted.count_eq,
            List.count_cons_self, ← rest]
          ring
        · rename_i absent
          rw [List.count_eq_zero_of_not_mem absent, Nat.zero_mul, Nat.zero_mul]
      have total : ∑ value ∈ Finset.range n, parts.count value = length + 1 := by
        rw [← long]
        have within : ∀ value ∈ (parts : Multiset Nat), value ∈ Finset.range n :=
          fun value present => Finset.mem_range.mpr (small value present)
        have counts := Multiset.sum_count_eq_card within
        simp only [Multiset.coe_count, Multiset.coe_card] at counts
        exact counts
      calc arrangements n parts * fixing n parts
          = ∑ value ∈ Finset.range n, parts.count value * length.factorial := by
            rw [arrangements_eq_sum long, Finset.sum_mul]
            exact Finset.sum_congr rfl each
        _ = (length + 1).factorial := by rw [← Finset.sum_mul, total, Nat.factorial_succ]

theorem orderings_eq_arrangements {n count : Nat} {parts : List Nat} (counted : orderings parts = .ok count)
    (small : ∀ value ∈ parts, value < n) : count = arrangements n parts := by
  apply Nat.eq_of_mul_eq_mul_right (fixing_pos n parts)
  rw [orderings_mul_fixing counted small, arrangements_mul_fixing small]

theorem ncard_orderings {n : Nat} {parts : List Nat} (small : ∀ value ∈ parts, value < n) :
    {ordering : List Nat | ordering.Perm parts}.ncard = arrangements n parts := by
  let found := (RowMajor.tuples (List.replicate parts.length n)).filter fun tuple => tuple.Perm parts
  have listed : {ordering : List Nat | ordering.Perm parts} = ↑found.toFinset := by
    ext ordering
    rw [Finset.mem_coe, List.mem_toFinset, List.mem_filter, RowMajor.mem_tuples, RowMajor.below_replicate_iff,
      decide_eq_true_iff]
    constructor
    · intro permuted
      exact ⟨⟨permuted.length_eq, fun value present => small value (permuted.mem_iff.mp present)⟩, permuted⟩
    · exact fun ⟨_, permuted⟩ => permuted
  rw [listed, Set.ncard_coe_finset, List.toFinset_card_of_nodup ((RowMajor.nodup_tuples _).filter _), arrangements,
    List.countP_eq_length_filter]

/-- The product of binomials over the runs of equal values is the number of different lists with those values, in
whatever order they are given, unless it overflows. -/
theorem orderings_eq_ncard (parts : List Nat) :
    (orderings parts = .ok {ordering : List Nat | ordering.Perm parts}.ncard ∨
      orderings parts = .error .overflow) ∧
    ∀ others, others.Perm parts → orderings others = orderings parts := by
  constructor
  · have small := lt_sum_succ parts
    cases counted : orderings parts with
    | ok count =>
        left
        rw [ncard_orderings small, ← orderings_eq_arrangements counted small]
    | error fault =>
        right
        rw [orderings_eq_error counted]
  · intro others permuted
    rw [orderings, orderings, sortAscending_congr permuted]

theorem orderings_eq_ncard_repeated :
    {ordering : List Nat | ordering.Perm [2, 0, 2, 1, 2]}.ncard = 20 ∧ orderings [0, 1, 2, 2, 2] = .ok 20 := by
  have counted : orderings [2, 0, 2, 1, 2] = .ok 20 := rfl
  obtain ⟨number, reordered⟩ := orderings_eq_ncard [2, 0, 2, 1, 2]
  rw [counted] at number reordered
  constructor
  · rcases number with same | overflows
    · exact (Except.ok.inj same).symm
    · cases overflows
  · exact reordered _ (by decide)

end Arrangements

end IndexNotation.Counting
