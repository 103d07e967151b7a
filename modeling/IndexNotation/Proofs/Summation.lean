import IndexNotation.Symbol
import IndexNotation.Proofs.RowMajor
import Mathlib.Algebra.BigOperators.Group.Finset.Sigma
import Mathlib.Algebra.BigOperators.Ring.Finset
import Mathlib.Logic.Function.DependsOn

namespace IndexNotation.IndexList

def assign : (symbols : IndexList) → (values : List Nat) → (Symbol → Nat) → Symbol → Nat
  | s :: symbols, value :: values, base => assign symbols values (Function.update base s value)
  | _, _, base => base

theorem assign_of_notMem {symbols : IndexList} {values : List Nat} {base : Symbol → Nat}
    {s : Symbol} (absent : s ∉ symbols) : assign symbols values base s = base s := by
  induction symbols generalizing values base with
  | nil => rfl
  | cons t symbols ih =>
      simp only [List.mem_cons, not_or] at absent
      cases values with
      | nil => rfl
      | cons value values =>
          rw [assign, ih absent.2, Function.update_of_ne absent.1]

theorem assign_eq {symbols : IndexList} {values : List Nat} {base base' : Symbol → Nat} {s : Symbol}
    (same : base s = base' s) : assign symbols values base s = assign symbols values base' s := by
  induction symbols generalizing values base base' with
  | nil => exact same
  | cons t symbols ih =>
      cases values with
      | nil => exact same
      | cons value values =>
          apply ih
          by_cases here : s = t
          · rw [here, Function.update_self, Function.update_self]
          · rw [Function.update_of_ne here, Function.update_of_ne here, same]

theorem map_assign {symbols : IndexList} {values : List Nat} (base : Symbol → Nat)
    (distinct : symbols.Nodup) (same : values.length = symbols.length) :
    symbols.map (assign symbols values base) = values := by
  induction symbols generalizing values base with
  | nil => exact (List.length_eq_zero_iff.mp same).symm
  | cons s symbols ih =>
      obtain ⟨absent, distinct⟩ := List.nodup_cons.mp distinct
      cases values with
      | nil => cases same
      | cons value values =>
          rw [List.map_cons, assign, assign_of_notMem absent, Function.update_self,
            ih _ distinct (Nat.succ.inj same)]

theorem assign_getElem? {symbols : IndexList} {values : List Nat} {s : Symbol} {position : Nat}
    (base : Symbol → Nat) (distinct : symbols.Nodup)
    (same : values.length = symbols.length) (stands : symbols[position]? = some s) :
    values[position]? = some (assign symbols values base s) := by
  have mapped := congrArg (·[position]?) (map_assign base distinct same)
  simpa [stands] using mapped.symm

/-- `now` differs from `before` at most at the symbols, where it stays below their extents. -/
def Ranges (extent : Symbol → Nat) (symbols : IndexList) (before now : Symbol → Nat) : Prop :=
  (∀ s, s ∉ symbols → now s = before s) ∧ ∀ s ∈ symbols, now s < extent s

theorem Ranges.perm {extent : Symbol → Nat} {first second : IndexList} {before now : Symbol → Nat}
    (ranges : Ranges extent first before now) (permuted : first.Perm second) :
    Ranges extent second before now :=
  ⟨fun s absent => ranges.1 s (mt permuted.mem_iff.mp absent),
    fun s present => ranges.2 s (permuted.mem_iff.mpr present)⟩

theorem ranges_assign {extent : Symbol → Nat} {symbols : IndexList} {values : List Nat}
    (base : Symbol → Nat) (distinct : symbols.Nodup)
    (below : RowMajor.Below values (symbols.map extent)) :
    Ranges extent symbols base (assign symbols values base) := by
  refine ⟨fun s absent => assign_of_notMem absent, ?_⟩
  intro s present
  have length : values.length = symbols.length := by
    rw [below.length_eq, List.length_map]
  rw [RowMajor.below_iff_forall₂, ← map_assign base distinct length,
    List.forall₂_map_left_iff, List.forall₂_map_right_iff, List.forall₂_same] at below
  exact below s present

def moved (symbols : IndexList) (now before : Symbol → Nat) (s : Symbol) : Nat :=
  if s ∈ symbols then now s else before s

theorem ranges_moved {extent : Symbol → Nat} {symbols : IndexList} {now : Symbol → Nat}
    (before : Symbol → Nat) (below : ∀ s ∈ symbols, now s < extent s) :
    Ranges extent symbols before (moved symbols now before) := by
  constructor
  · intro s absent
    rw [moved, if_neg absent]
  · intro s present
    rw [moved, if_pos present]
    exact below s present

theorem eq_assign_of_ranges {extent : Symbol → Nat} {symbols : IndexList} {before now : Symbol → Nat}
    (distinct : symbols.Nodup) (ranges : Ranges extent symbols before now) :
    now = assign symbols (symbols.map now) before ∧
      RowMajor.Below (symbols.map now) (symbols.map extent) := by
  constructor
  · funext s
    by_cases present : s ∈ symbols
    · have mapped := map_assign before distinct (List.length_map now)
      exact (List.map_inj_left.mp mapped s present).symm
    · rw [assign_of_notMem present, ranges.1 s present]
  · rw [RowMajor.below_iff_forall₂, List.forall₂_map_left_iff, List.forall₂_map_right_iff,
      List.forall₂_same]
    exact ranges.2

section Sum

variable {R : Type} [CommRing R] {extent : Symbol → Nat}

/-- The sum of `f` over all values below their extents that the symbols can take, the others keeping
the values they have. -/
def sumOver (extent : Symbol → Nat) (symbols : IndexList) (f : (Symbol → Nat) → R)
    (base : Symbol → Nat) : R :=
  ((RowMajor.tuples (symbols.map extent)).map fun values => f (assign symbols values base)).sum

theorem sumOver_nil (f : (Symbol → Nat) → R) (base : Symbol → Nat) :
    sumOver extent [] f base = f base := by
  simp [sumOver, RowMajor.tuples, assign]

theorem sumOver_cons (s : Symbol) (symbols : IndexList) (f : (Symbol → Nat) → R)
    (base : Symbol → Nat) :
    sumOver extent (s :: symbols) f base =
      ∑ value ∈ Finset.range (extent s),
        sumOver extent symbols f (Function.update base s value) := by
  rw [sumOver, List.map_cons, RowMajor.sum_map_tuples]
  rfl

theorem sumOver_append (first second : IndexList) (f : (Symbol → Nat) → R)
    (base : Symbol → Nat) :
    sumOver extent (first ++ second) f base =
      sumOver extent first (sumOver extent second f) base := by
  induction first generalizing base with
  | nil => rw [List.nil_append, sumOver_nil]
  | cons s first ih =>
      rw [List.cons_append, sumOver_cons, sumOver_cons]
      exact Finset.sum_congr rfl fun value _ => ih (Function.update base s value)

theorem sumOver_congr {symbols : IndexList} {f g : (Symbol → Nat) → R} {base : Symbol → Nat}
    (distinct : symbols.Nodup) (same : ∀ now, Ranges extent symbols base now → f now = g now) :
    sumOver extent symbols f base = sumOver extent symbols g base := by
  apply congrArg List.sum
  apply List.map_congr_left
  intro values present
  exact same _ (ranges_assign base distinct (RowMajor.mem_tuples.mp present))

theorem sumOver_add (symbols : IndexList) (f g : (Symbol → Nat) → R) (base : Symbol → Nat) :
    sumOver extent symbols (fun now => f now + g now) base =
      sumOver extent symbols f base + sumOver extent symbols g base := List.sum_map_add

theorem sumOver_sub (symbols : IndexList) (f g : (Symbol → Nat) → R) (base : Symbol → Nat) :
    sumOver extent symbols (fun now => f now - g now) base =
      sumOver extent symbols f base - sumOver extent symbols g base := by
  rw [eq_sub_iff_add_eq, ← sumOver_add]
  simp only [sub_add_cancel]

theorem sumOver_perm {first second : IndexList} (permuted : first.Perm second)
    (distinct : first.Nodup) (f : (Symbol → Nat) → R) (base : Symbol → Nat) :
    sumOver extent first f base = sumOver extent second f base := by
  induction permuted generalizing base with
  | nil => rfl
  | cons s _ ih =>
      rw [sumOver_cons, sumOver_cons]
      exact Finset.sum_congr rfl fun value _ => ih (List.nodup_cons.mp distinct).2 _
  | swap s t symbols =>
      have apart : s ≠ t := by
        intro same
        exact (List.nodup_cons.mp distinct).1 (same ▸ List.mem_cons_self)
      simp only [sumOver_cons]
      rw [Finset.sum_comm]
      apply Finset.sum_congr rfl
      intro value _
      apply Finset.sum_congr rfl
      intro other _
      rw [Function.update_comm apart]
  | trans permuted _ ih ih' => rw [ih distinct, ih' (permuted.nodup_iff.mp distinct)]

theorem dependsOn_sumOver {f : (Symbol → Nat) → R} {support : Set Symbol}
    (depends : DependsOn f support) (symbols : IndexList) :
    DependsOn (sumOver extent symbols f) support := by
  intro base base' same
  apply congrArg List.sum
  apply List.map_congr_left
  intro values _
  exact depends fun s present => assign_eq (same s present)

theorem sumOver_mul_right {symbols : IndexList} {f g : (Symbol → Nat) → R} {support : Set Symbol}
    (depends : DependsOn g support) (apart : ∀ s ∈ symbols, s ∉ support) (base : Symbol → Nat) :
    sumOver extent symbols (fun now => f now * g now) base =
      sumOver extent symbols f base * g base := by
  rw [sumOver, sumOver, ← List.sum_map_mul_right]
  apply congrArg List.sum
  apply List.map_congr_left
  intro values _
  have unchanged : g (assign symbols values base) = g base := by
    apply depends
    intro s present
    apply assign_of_notMem
    intro among
    exact apart s among present
  rw [unchanged]

/-- A product of two sums that do not reach each other is one sum over both lists of symbols. -/
theorem sumOver_mul_sumOver {first second : IndexList} {f g : (Symbol → Nat) → R}
    {supportFirst supportSecond : Set Symbol} (dependsFirst : DependsOn f supportFirst)
    (dependsSecond : DependsOn g supportSecond) (apartFirst : ∀ s ∈ first, s ∉ supportSecond)
    (apartSecond : ∀ s ∈ second, s ∉ supportFirst) (base : Symbol → Nat) :
    sumOver extent first f base * sumOver extent second g base =
      sumOver extent (first ++ second) (fun now => f now * g now) base := by
  rw [sumOver_append, ← sumOver_mul_right (dependsOn_sumOver dependsSecond second) apartFirst]
  apply congrArg (sumOver extent first · base)
  funext now
  rw [mul_comm, ← sumOver_mul_right dependsFirst apartSecond]
  refine congrArg (sumOver extent second · now) (funext fun later => mul_comm _ _)

end Sum

end IndexNotation.IndexList
