import IndexNotation.Packed
import IndexNotation.Proofs.Binomial
import IndexNotation.Proofs.Numbering
import Mathlib.Data.List.Sort
/-!
The packed numberings. Strictly decreasing tuples are numbered by the combinatorial number system;
non-increasing ones become strictly decreasing when each value is raised by the number of places that
follow it.
-/
namespace IndexNotation.Packed

section Sorting

theorem insertDescending_perm (x : Nat) (sign : Sign) (sorted : List Nat) :
    (insertDescending x sign sorted).1.Perm (x :: sorted) := by
  induction sorted generalizing sign with
  | nil => exact .refl _
  | cons y rest ih =>
      rw [insertDescending]
      split
      · exact ((ih sign.flip).cons y).trans (.swap x y rest)
      · exact .refl _

theorem insertDescending_pairwise {x : Nat} {sign : Sign} {sorted : List Nat}
    (descending : sorted.Pairwise (· ≥ ·)) :
    (insertDescending x sign sorted).1.Pairwise (· ≥ ·) := by
  induction sorted generalizing sign with
  | nil => exact List.pairwise_singleton _ x
  | cons y rest ih =>
      obtain ⟨head, tail⟩ := List.pairwise_cons.mp descending
      rw [insertDescending]
      split
      · rename_i smaller
        refine List.pairwise_cons.mpr ⟨?_, ih tail⟩
        intro z present
        rcases List.mem_cons.mp ((insertDescending_perm x sign.flip rest).mem_iff.mp present) with
          same | later
        · rw [same]
          exact Nat.le_of_lt smaller
        · exact head z later
      · rename_i larger
        refine List.pairwise_cons.mpr ⟨?_, descending⟩
        intro z present
        rcases List.mem_cons.mp present with same | later
        · rw [same]
          exact Nat.le_of_not_lt larger
        · exact Nat.le_trans (head z later) (Nat.le_of_not_lt larger)

theorem sortDescending_perm (parts : List Nat) : (sortDescending parts).1.Perm parts := by
  induction parts with
  | nil => exact .refl _
  | cons x rest ih => exact (insertDescending_perm x _ _).trans (ih.cons x)

theorem sortDescending_pairwise (parts : List Nat) :
    (sortDescending parts).1.Pairwise (· ≥ ·) := by
  induction parts with
  | nil => exact .nil
  | cons x rest ih => exact insertDescending_pairwise ih

theorem sortDescending_eq_mergeSort (parts : List Nat) :
    (sortDescending parts).1 = parts.mergeSort (· ≥ ·) := by
  have permuted : (sortDescending parts).1.Perm (parts.mergeSort (· ≥ ·)) :=
    (sortDescending_perm parts).trans (List.mergeSort_perm parts (· ≥ ·)).symm
  exact permuted.eq_of_pairwise (fun _ _ _ _ large small => Nat.le_antisymm small large)
    (sortDescending_pairwise parts) (List.pairwise_mergeSort' (· ≥ ·) parts)

theorem sortDescending_of_pairwise {parts : List Nat} (descending : parts.Pairwise (· ≥ ·)) :
    sortDescending parts = (parts, .positive) := by
  induction parts with
  | nil => rfl
  | cons x rest ih =>
      obtain ⟨head, tail⟩ := List.pairwise_cons.mp descending
      rw [sortDescending, ih tail]
      cases rest with
      | nil => rfl
      | cons y rest => exact if_neg (Nat.not_lt.mpr (head y List.mem_cons_self))

theorem pairwise_gt_iff {parts : List Nat} :
    parts.Pairwise (· > ·) ↔ parts.Pairwise (· ≥ ·) ∧ parts.Nodup := by
  rw [List.Nodup, ← List.pairwise_and_iff]
  constructor
  · intro decreasing
    exact decreasing.imp fun larger => ⟨Nat.le_of_lt larger, Nat.ne_of_gt larger⟩
  · intro both
    exact both.imp fun ⟨larger, differ⟩ => Nat.lt_of_le_of_ne larger differ.symm

theorem hasEqualNeighbours_iff {sorted : List Nat} (descending : sorted.Pairwise (· ≥ ·)) :
    hasEqualNeighbours sorted = true ↔ ¬ sorted.Nodup := by
  induction sorted with
  | nil => simp [hasEqualNeighbours]
  | cons x rest ih =>
      obtain ⟨head, tail⟩ := List.pairwise_cons.mp descending
      cases rest with
      | nil => simp [hasEqualNeighbours]
      | cons y rest =>
          have repeats : ¬ (x :: y :: rest).Nodup ↔ x ∈ y :: rest ∨ ¬ (y :: rest).Nodup := by
            rw [List.nodup_cons, not_and_or, not_not]
          rw [hasEqualNeighbours, Bool.or_eq_true, ih tail, beq_iff_eq, repeats]
          -- an equal value further on is squeezed against the neighbour
          have squeezed : x ∈ y :: rest → x = y := by
            intro present
            have below := head y List.mem_cons_self
            rcases List.mem_cons.mp present with same | later
            · exact same
            · exact Nat.le_antisymm (List.rel_of_pairwise_cons tail later) below
          constructor
          · intro either
            rcases either with same | repeated
            · rw [same]
              exact Or.inl List.mem_cons_self
            · exact Or.inr repeated
          · intro either
            rcases either with present | repeated
            · exact Or.inl (squeezed present)
            · exact Or.inr repeated

end Sorting

section Rank

/-- The number of a strictly decreasing tuple: a value with `r` places from it to the end counts the
decreasing tuples of length `r` over the smaller values. -/
def rank : List Nat → Nat
  | [] => 0
  | value :: rest => value.choose (rest.length + 1) + rank rest

def Decreasing (n order : Nat) : Set (List Nat) :=
  {parts | parts.length = order ∧ (∀ value ∈ parts, value < n) ∧ parts.Pairwise (· > ·)}

theorem mem_decreasing_cons {n order value : Nat} {rest : List Nat} :
    value :: rest ∈ Decreasing n (order + 1) ↔ value < n ∧ rest ∈ Decreasing value order := by
  simp only [Decreasing, Set.mem_ofPred_eq, List.length_cons, Nat.add_right_cancel_iff,
    List.forall_mem_cons, List.pairwise_cons]
  constructor
  · intro ⟨length, ⟨small, _⟩, head, tail⟩
    exact ⟨small, length, head, tail⟩
  · intro ⟨small, length, head, tail⟩
    refine ⟨length, ⟨small, ?_⟩, head, tail⟩
    intro later present
    exact Nat.lt_trans (head later present) small

theorem order_le_of_mem_decreasing {n order : Nat} {parts : List Nat}
    (member : parts ∈ Decreasing n order) : order ≤ n := by
  induction order generalizing n parts with
  | zero => exact Nat.zero_le n
  | succ order ih =>
      cases parts with
      | nil => cases member.1
      | cons value rest =>
          obtain ⟨small, tail⟩ := mem_decreasing_cons.mp member
          have shorter := ih tail
          omega

theorem rank_lt {n order : Nat} {parts : List Nat} (member : parts ∈ Decreasing n order) :
    rank parts < n.choose order := by
  induction order generalizing n parts with
  | zero =>
      cases parts with
      | nil => exact Nat.choose_pos (Nat.zero_le n)
      | cons value rest => cases member.1
  | succ order ih =>
      cases parts with
      | nil => cases member.1
      | cons value rest =>
          obtain ⟨small, tail⟩ := mem_decreasing_cons.mp member
          have smaller := ih tail
          rw [rank, tail.1]
          calc value.choose (order + 1) + rank rest
              < value.choose (order + 1) + value.choose order := Nat.add_lt_add_left smaller _
            _ = (value + 1).choose (order + 1) := by
              rw [Nat.choose_succ_succ, Nat.add_comm]
            _ ≤ n.choose (order + 1) := Nat.choose_le_choose (order + 1) small

theorem rank_strictMonoOn (n order : Nat) : StrictMonoOn rank (Decreasing n order) := by
  intro first memberFirst second memberSecond ordered
  induction order generalizing n first second with
  | zero =>
      obtain rfl := List.length_eq_zero_iff.mp memberFirst.1
      obtain rfl := List.length_eq_zero_iff.mp memberSecond.1
      exact absurd ordered (lt_irrefl _)
  | succ order ih =>
      cases ordered with
      | nil => cases memberFirst.1
      | cons tail =>
          have restFirst := (mem_decreasing_cons.mp memberFirst).2
          have restSecond := (mem_decreasing_cons.mp memberSecond).2
          rw [rank, rank, restFirst.1, restSecond.1]
          exact Nat.add_lt_add_left (ih _ restFirst restSecond tail) _
      | rel smaller =>
          rename_i value rest value' rest'
          have restFirst := (mem_decreasing_cons.mp memberFirst).2
          have restSecond := (mem_decreasing_cons.mp memberSecond).2
          -- everything below the larger first value is numbered before it
          have below : value :: rest ∈ Decreasing value' (order + 1) :=
            mem_decreasing_cons.mpr ⟨smaller, restFirst⟩
          calc rank (value :: rest) < value'.choose (order + 1) := rank_lt below
            _ = value'.choose (rest'.length + 1) := by rw [restSecond.1]
            _ ≤ rank (value' :: rest') := Nat.le_add_right _ _

end Rank

section Search

/-- The search upwards from `top` without a limit: it stops at the first number above which the
binomial coefficient over `r` is more than `flat`. Every size on the way is computed. -/
inductive Search (flat r : Nat) : (top last : Nat) → Prop where
  | stop {top above coefficient : Nat} : Size.add top 1 = .ok above →
      Counting.binomial above r = .ok coefficient → flat < coefficient → Search flat r top top
  | step {top above coefficient last : Nat} : Size.add top 1 = .ok above →
      Counting.binomial above r = .ok coefficient → coefficient ≤ flat →
      Search flat r above last → Search flat r top last

inductive Unpacks : (flat order : Nat) → (tops : List Nat) → Prop where
  | nil {flat : Nat} : Unpacks flat 0 []
  | cons {flat order top coefficient left : Nat} {tops : List Nat} :
      Search flat (order + 1) order top → Counting.binomial top (order + 1) = .ok coefficient →
      Size.sub flat coefficient = .ok left → Unpacks left order tops →
      Unpacks flat (order + 1) (top :: tops)

theorem Search.le {flat r top last : Nat} (search : Search flat r top last) : top ≤ last := by
  induction search with
  | stop => exact Nat.le_refl _
  | step added _ _ _ ih =>
      obtain ⟨rfl, _⟩ := Size.add_eq_ok_iff.mp added
      omega

theorem Search.lastFitting {flat r top last fuel : Nat} (search : Search flat r top last)
    (enough : last ≤ top + fuel) : lastFitting flat r fuel top = .ok last := by
  induction search generalizing fuel with
  | stop added computed larger =>
      obtain ⟨rfl, _⟩ := Size.add_eq_ok_iff.mp added
      cases fuel with
      | zero => rfl
      | succ fuel => rw [Packed.lastFitting, computed, ok_bind, if_neg (Nat.not_le.mpr larger)]
  | step added computed fits search ih =>
      obtain ⟨rfl, _⟩ := Size.add_eq_ok_iff.mp added
      have upwards := search.le
      cases fuel with
      | zero => omega
      | succ fuel => rw [Packed.lastFitting, computed, ok_bind, if_pos fits, ih (by omega)]

theorem exists_search {n flat r top : Nat} (fits : Counting.Fits n r) (size : n < Size.bound)
    (small : flat < n.choose r) (start : top.choose r ≤ flat) :
    ∃ last < n, Search flat r top last ∧ last.choose r ≤ flat ∧ flat < (last + 1).choose r := by
  have room : top < n := by
    apply Nat.lt_of_not_le
    intro above
    have larger := Nat.choose_le_choose r above
    omega
  induction length : n - top generalizing top with
  | zero => omega
  | succ length ih =>
      have added : Size.add top 1 = .ok (top + 1) := Size.add_eq_ok_iff.mpr ⟨rfl, by omega⟩
      have computed : Counting.binomial (top + 1) r = .ok ((top + 1).choose r) :=
        Counting.binomial_eq_ok_iff.mpr ⟨fits.mono (Nat.le_refl r) (by omega), rfl⟩
      by_cases larger : flat < (top + 1).choose r
      · exact ⟨top, room, .stop added computed larger, start, larger⟩
      · have fitting := Nat.le_of_not_lt larger
        have room' : top + 1 < n := by
          apply Nat.lt_of_le_of_ne room
          intro same
          rw [← same] at small
          exact larger small
        obtain ⟨last, below, search, bounds⟩ := ih fitting room' (by omega)
        exact ⟨last, below, .step added computed fitting search, bounds⟩

/-- The coefficients over `order + 1` grow by at least one from `order` on. -/
theorem le_choose (order j : Nat) : j ≤ (order + j).choose (order + 1) := by
  induction j with
  | zero => exact Nat.zero_le _
  | succ j ih =>
      have positive : 0 < (order + j).choose order := Nat.choose_pos (Nat.le_add_right order j)
      rw [← Nat.add_assoc, Nat.choose_succ_succ']
      omega

theorem takeOff_eq_ok {flat order top coefficient left : Nat}
    (search : Search flat (order + 1) order top)
    (computed : Counting.binomial top (order + 1) = .ok coefficient)
    (taken : Size.sub flat coefficient = .ok left) :
    takeOff flat (order + 1) = .ok (top, left) := by
  obtain ⟨_, same⟩ := Counting.binomial_eq_ok_iff.mp computed
  obtain ⟨fitting, rest⟩ := Size.sub_eq_ok_iff.mp taken
  have grown := le_choose order (top - order)
  rw [Nat.add_sub_cancel' search.le, same] at grown
  have enough : top ≤ order + (flat + 1) := by omega
  have found := search.lastFitting enough
  rw [takeOff, Nat.add_sub_cancel, found, ok_bind, computed, ok_bind, rest]
  rfl

theorem Unpacks.exteriorValues {flat order : Nat} {tops : List Nat}
    (unpacks : Unpacks flat order tops) : exteriorValues flat order = .ok tops := by
  induction unpacks with
  | nil => rfl
  | cons search computed taken _ ih =>
      simp only [Packed.exteriorValues, takeOff_eq_ok search computed taken, ok_bind, ih]
      rfl

theorem reserve_sizes_iff {order : Nat} : Size.reserve order 8 = .ok () ↔ order < Nat.pow 2 60 := by
  have whole : Nat.pow 2 63 = Nat.pow 2 60 * 8 := rfl
  rw [Size.reserve_eq_ok_iff, whole]
  exact Nat.mul_lt_mul_right (by decide)

theorem exteriorParts_eq {order : Nat} (room : Size.reserve order 8 = .ok ()) (flat : Nat) :
    exteriorParts flat order = exteriorValues flat order := by
  rw [exteriorParts, room, ok_bind]

theorem exteriorParts_eq_ok {flat order : Nat} {parts : List Nat}
    (found : exteriorParts flat order = .ok parts) : exteriorValues flat order = .ok parts := by
  obtain ⟨_, _, values⟩ := bind_eq_ok_iff.mp found
  exact values

theorem exists_unpacks {n order flat : Nat} (fits : Counting.Fits n order)
    (size : n < Size.bound) (small : flat < n.choose order) :
    ∃ tops ∈ Decreasing n order, Unpacks flat order tops ∧ rank tops = flat := by
  induction order generalizing n flat with
  | zero =>
      rw [Nat.choose_zero_right] at small
      refine ⟨[], ⟨rfl, by simp, .nil⟩, .nil, ?_⟩
      rw [rank]
      omega
  | succ order ih =>
      have start : order.choose (order + 1) ≤ flat := by simp
      obtain ⟨top, below, search, fitting, next⟩ := exists_search fits size small start
      have computed : Counting.binomial top (order + 1) = .ok (top.choose (order + 1)) :=
        Counting.binomial_eq_ok_iff.mpr ⟨fits.mono (Nat.le_refl _) (by omega), rfl⟩
      have taken : Size.sub flat (top.choose (order + 1)) = .ok (flat - top.choose (order + 1)) :=
        Size.sub_eq_ok_iff.mpr ⟨fitting, rfl⟩
      have left : flat - top.choose (order + 1) < top.choose order := by
        rw [Nat.choose_succ_succ'] at next
        omega
      obtain ⟨tops, member, unpacks, ranked⟩ :=
        ih (fits.mono (Nat.le_succ order) (by omega)) (by omega) left
      refine ⟨top :: tops, mem_decreasing_cons.mpr ⟨below, member⟩,
        .cons search computed taken unpacks, ?_⟩
      rw [rank, member.1, ranked]
      omega

end Search

section Exterior

theorem exteriorNumber_eq {n order acc : Nat} {parts : List Nat} (fits : Counting.Fits n order)
    (member : parts ∈ Decreasing n order) (small : acc + rank parts < Size.bound) :
    exteriorNumber parts acc = .ok (acc + rank parts) := by
  induction parts generalizing n order acc with
  | nil => rfl
  | cons value rest ih =>
      obtain rfl : rest.length + 1 = order := member.1
      obtain ⟨below, tail⟩ := mem_decreasing_cons.mp member
      have computed : Counting.binomial value (rest.length + 1) =
          .ok (value.choose (rest.length + 1)) :=
        Counting.binomial_eq_ok_iff.mpr ⟨fits.mono (Nat.le_refl _) (by omega), rfl⟩
      rw [rank, ← Nat.add_assoc] at small ⊢
      have added : Size.add acc (value.choose (rest.length + 1)) =
          .ok (acc + value.choose (rest.length + 1)) := Size.add_eq_ok_iff.mpr ⟨rfl, by omega⟩
      rw [exteriorNumber, computed, ok_bind, added, ok_bind]
      exact ih (fits.mono (Nat.le_succ _) (by omega)) tail small

section Numbered

variable {n order flat : Nat} (fits : Counting.Fits n order) (size : order ≤ n → n < Size.bound)

include fits size

theorem exists_parts (small : flat < n.choose order) :
    ∃ tops ∈ Decreasing n order, Unpacks flat order tops ∧ rank tops = flat := by
  have within : order ≤ n := by
    apply Nat.le_of_not_lt
    intro short
    rw [Nat.choose_eq_zero_of_lt short] at small
    exact Nat.not_lt_zero flat small
  exact exists_unpacks fits (size within) small

theorem unpacks_of_exteriorParts {parts : List Nat} (small : flat < n.choose order)
    (found : exteriorParts flat order = .ok parts) : Unpacks flat order parts := by
  obtain ⟨tops, _, unpacks, _⟩ := exists_parts fits size small
  have same := Except.ok.inj ((exteriorParts_eq_ok found).symm.trans unpacks.exteriorValues)
  rw [same]
  exact unpacks

theorem exterior_numbering (room : Size.reserve order 8 = .ok ()) :
    Numbering (n.choose order) (Decreasing n order) rank (fun flat => exteriorParts flat order) where
  increasing := rank_strictMonoOn n order
  below := fun _ member => rank_lt member
  splits := by
    intro flat small
    obtain ⟨tops, member, unpacks, ranked⟩ := exists_parts fits size small
    exact ⟨tops, member, (exteriorParts_eq room flat).trans unpacks.exteriorValues, ranked⟩

end Numbered

theorem exteriorFlat_eq_none_iff {parts : List Nat} :
    exteriorFlat parts = .ok none ↔ ¬ parts.Nodup := by
  have repeats := hasEqualNeighbours_iff (sortDescending_pairwise parts)
  rw [(sortDescending_perm parts).nodup_iff] at repeats
  rw [← repeats]
  simp only [exteriorFlat]
  split
  · rename_i equal
    exact iff_of_true rfl equal
  · rename_i different
    refine iff_of_false ?_ different
    intro vanished
    obtain ⟨_, _, numbered⟩ := bind_eq_ok_iff.mp vanished
    cases numbered

theorem sign_of_exteriorFlat {parts : List Nat} {flat : Nat} {sign : Sign}
    (numbered : exteriorFlat parts = .ok (some (flat, sign))) : sign = (sortDescending parts).2 := by
  simp only [exteriorFlat] at numbered
  split at numbered
  · cases numbered
  · obtain ⟨_, _, same⟩ := bind_eq_ok_iff.mp numbered
    cases same
    rfl

theorem sorted_mem_decreasing {n order : Nat} {parts : List Nat} (length : parts.length = order)
    (below : ∀ value ∈ parts, value < n) (distinct : parts.Nodup) :
    (sortDescending parts).1 ∈ Decreasing n order := by
  have permuted := sortDescending_perm parts
  refine ⟨permuted.length_eq.trans length, ?_, ?_⟩
  · intro value present
    exact below value (permuted.mem_iff.mp present)
  · exact pairwise_gt_iff.mpr ⟨sortDescending_pairwise parts, permuted.nodup_iff.mpr distinct⟩

theorem exteriorFlat_of_nodup {parts : List Nat} (distinct : parts.Nodup) :
    exteriorFlat parts =
      (do return some (← exteriorNumber (sortDescending parts).1 0, (sortDescending parts).2)) := by
  have different : ¬ hasEqualNeighbours (sortDescending parts).1 = true := by
    rw [hasEqualNeighbours_iff (sortDescending_pairwise parts), not_not]
    exact (sortDescending_perm parts).nodup_iff.mpr distinct
  exact if_neg different

theorem exteriorFlat_eq {n order : Nat} {parts : List Nat} (fits : Counting.Fits n order)
    (size : n.choose order ≤ Size.bound) (length : parts.length = order)
    (below : ∀ value ∈ parts, value < n) (distinct : parts.Nodup) :
    exteriorFlat parts =
      .ok (some (rank (sortDescending parts).1, (sortDescending parts).2)) := by
  have member := sorted_mem_decreasing length below distinct
  have room : 0 + rank (sortDescending parts).1 < Size.bound := by
    have small := rank_lt member
    omega
  rw [exteriorFlat_of_nodup distinct, exteriorNumber_eq fits member room, Nat.zero_add]
  rfl

end Exterior

section Symmetric

/-- Each value raised by the number of places that follow it. -/
def raise : List Nat → List Nat
  | [] => []
  | value :: rest => (value + rest.length) :: raise rest

def lower : List Nat → List Nat
  | [] => []
  | top :: rest => (top - rest.length) :: lower rest

def NonIncreasing (n order : Nat) : Set (List Nat) :=
  {parts | parts.length = order ∧ (∀ value ∈ parts, value < n) ∧ parts.Pairwise (· ≥ ·)}

@[simp] theorem length_raise (parts : List Nat) : (raise parts).length = parts.length := by
  induction parts with
  | nil => rfl
  | cons value rest ih => exact congrArg (· + 1) ih

@[simp] theorem length_lower (tops : List Nat) : (lower tops).length = tops.length := by
  induction tops with
  | nil => rfl
  | cons top rest ih => exact congrArg (· + 1) ih

theorem raise_lower {n order : Nat} {tops : List Nat} (member : tops ∈ Decreasing n order) :
    raise (lower tops) = tops := by
  induction tops generalizing n order with
  | nil => rfl
  | cons top rest ih =>
      obtain rfl := member.1
      have tail := (mem_decreasing_cons.mp member).2
      have enough := order_le_of_mem_decreasing tail
      rw [lower, raise, length_lower, Nat.sub_add_cancel enough, ih tail]

theorem raise_pairwise_iff {parts : List Nat} :
    (raise parts).Pairwise (· > ·) ↔ parts.Pairwise (· ≥ ·) := by
  rw [← List.isChain_iff_pairwise, ← List.isChain_iff_pairwise]
  induction parts with
  | nil => simp [raise]
  | cons value rest ih =>
      cases rest with
      | nil => simp [raise]
      | cons next rest =>
          have heads : value + (rest.length + 1) > next + rest.length ↔ value ≥ next := by omega
          rw [raise, raise, List.isChain_cons_cons, List.isChain_cons_cons, List.length_cons, heads]
          exact and_congr_right fun _ => ih

theorem raise_mem {n order : Nat} {parts : List Nat} (member : parts ∈ NonIncreasing n order) :
    raise parts ∈ Decreasing (n + order - 1) order := by
  obtain ⟨rfl, below, ordered⟩ := member
  refine ⟨length_raise parts, ?_, raise_pairwise_iff.mpr ordered⟩
  clear ordered
  induction parts with
  | nil => simp [raise]
  | cons value rest ih =>
      intro top present
      have head := below value List.mem_cons_self
      rw [List.length_cons]
      rcases List.mem_cons.mp present with same | later
      · omega
      · have small := ih (fun later present => below later (List.mem_cons_of_mem value present)) top
          later
        omega

theorem lower_mem {n order : Nat} {tops : List Nat}
    (member : tops ∈ Decreasing (n + order - 1) order) : lower tops ∈ NonIncreasing n order := by
  have ordered : (lower tops).Pairwise (· ≥ ·) := by
    rw [← raise_pairwise_iff, raise_lower member]
    exact member.2.2
  refine ⟨(length_lower tops).trans member.1, ?_, ordered⟩
  intro value present
  cases tops with
  | nil => cases present
  | cons top rest =>
      obtain rfl := member.1
      obtain ⟨below, tail⟩ := mem_decreasing_cons.mp member
      have enough := order_le_of_mem_decreasing tail
      have head : top - rest.length < n := by
        rw [List.length_cons] at below
        omega
      rcases List.mem_cons.mp present with same | later
      · omega
      · exact Nat.lt_of_le_of_lt (List.rel_of_pairwise_cons ordered later) head

theorem raise_lt {first second : List Nat} (ordered : first < second)
    (same : first.length = second.length) : raise first < raise second := by
  induction ordered with
  | nil => cases same
  | cons _ ih =>
      rw [raise, raise, Nat.succ.inj same]
      exact .cons (ih (Nat.succ.inj same))
  | rel smaller =>
      rw [raise, raise, Nat.succ.inj same]
      exact .rel (Nat.add_lt_add_right smaller _)

theorem symmetricValues_eq {flat order : Nat} {tops : List Nat}
    (found : exteriorValues flat order = .ok tops) :
    tops.length = order ∧ symmetricValues flat order = .ok (lower tops) := by
  induction order generalizing flat tops with
  | zero =>
      cases found
      exact ⟨rfl, rfl⟩
  | succ order ih =>
      rw [exteriorValues] at found
      obtain ⟨⟨top, left⟩, taken, later⟩ := bind_eq_ok_iff.mp found
      obtain ⟨rest, next, same⟩ := bind_eq_ok_iff.mp later
      cases same
      obtain ⟨length, lowered⟩ := ih next
      refine ⟨congrArg (· + 1) length, ?_⟩
      simp only [symmetricValues, taken, ok_bind, lowered, lower, length]
      rfl

theorem symmetricParts_eq {order : Nat} (room : Size.reserve order 8 = .ok ()) (flat : Nat) :
    symmetricParts flat order = symmetricValues flat order := by
  rw [symmetricParts, room, ok_bind]

theorem symmetricParts_eq_ok {flat order : Nat} {parts : List Nat}
    (found : symmetricParts flat order = .ok parts) : symmetricValues flat order = .ok parts := by
  obtain ⟨_, _, values⟩ := bind_eq_ok_iff.mp found
  exact values

section Numbered

variable {n order flat : Nat} (fits : Counting.Fits (n + order - 1) order)
  (size : order ≤ n + order - 1 → n + order - 1 < Size.bound)

include fits size

theorem unpacks_of_symmetricParts {parts : List Nat} (small : flat < (n + order - 1).choose order)
    (found : symmetricParts flat order = .ok parts) : Unpacks flat order (raise parts) := by
  obtain ⟨tops, member, unpacks, _⟩ := exists_parts fits size small
  have lowered := (symmetricValues_eq unpacks.exteriorValues).2
  have same := Except.ok.inj ((symmetricParts_eq_ok found).symm.trans lowered)
  rw [same, raise_lower member]
  exact unpacks

theorem symmetric_numbering (room : Size.reserve order 8 = .ok ()) :
    Numbering ((n + order - 1).choose order) (NonIncreasing n order)
      (fun parts => rank (raise parts)) (fun flat => symmetricParts flat order) where
  increasing := by
    intro first memberFirst second memberSecond ordered
    have lengths := memberFirst.1.trans memberSecond.1.symm
    exact rank_strictMonoOn _ _ (raise_mem memberFirst) (raise_mem memberSecond)
      (raise_lt ordered lengths)
  below := fun _ member => rank_lt (raise_mem member)
  splits := by
    intro flat small
    obtain ⟨tops, member, unpacks, ranked⟩ := exists_parts fits size small
    have lowered := (symmetricValues_eq unpacks.exteriorValues).2
    refine ⟨lower tops, lower_mem member, (symmetricParts_eq room flat).trans lowered, ?_⟩
    rw [raise_lower member]
    exact ranked

end Numbered

theorem symmetricNumber_eq {order acc : Nat} {parts : List Nat}
    (room : ∀ value ∈ parts, value + order < Size.bound) :
    symmetricNumber order parts acc = exteriorNumber (raise parts) acc := by
  induction parts generalizing acc with
  | nil => rfl
  | cons value rest ih =>
      have added : Size.add value order = .ok (value + order) :=
        Size.add_eq_ok_iff.mpr ⟨rfl, room value List.mem_cons_self⟩
      have next : ∀ acc, symmetricNumber order rest acc = exteriorNumber (raise rest) acc :=
        fun acc => ih fun later present => room later (List.mem_cons_of_mem value present)
      rw [symmetricNumber, raise, exteriorNumber, added, length_raise]
      simp only [ok_bind, next]
      rfl

theorem sorted_mem_nonIncreasing {n order : Nat} {parts : List Nat} (length : parts.length = order)
    (below : ∀ value ∈ parts, value < n) : (sortDescending parts).1 ∈ NonIncreasing n order := by
  have permuted := sortDescending_perm parts
  refine ⟨permuted.length_eq.trans length, ?_, sortDescending_pairwise parts⟩
  intro value present
  exact below value (permuted.mem_iff.mp present)

theorem symmetricFlat_eq {n order : Nat} {parts : List Nat}
    (fits : Counting.Fits (n + order - 1) order) (size : (n + order - 1).choose order ≤ Size.bound)
    (room : n = 0 ∨ n + order < Size.bound) (length : parts.length = order)
    (below : ∀ value ∈ parts, value < n) :
    symmetricFlat parts = .ok (rank (raise (sortDescending parts).1)) := by
  have member := sorted_mem_nonIncreasing length below
  have raised := raise_mem member
  have bounded : 0 + rank (raise (sortDescending parts).1) < Size.bound := by
    have small := rank_lt raised
    omega
  have numbered := exteriorNumber_eq fits raised bounded
  have added : ∀ value ∈ (sortDescending parts).1, value + order < Size.bound := by
    intro value present
    have small := member.2.1 value present
    omega
  rw [symmetricFlat, length, symmetricNumber_eq added, numbered, Nat.zero_add]

end Symmetric

end IndexNotation.Packed
