import IndexNotation.Fault
import Mathlib.Data.List.Lex
import Mathlib.Data.Set.Function
import Mathlib.Order.Interval.Set.Defs

namespace IndexNotation

/-- `rank` numbers the lists in `canonical` from zero to `d` in lexicographic order, and `split` finds
the list with a given number. -/
structure Numbering (d : Nat) (canonical : Set (List Nat)) (rank : List Nat → Nat)
    (split : Nat → Except Fault (List Nat)) : Prop where
  increasing : StrictMonoOn rank canonical
  below : ∀ parts ∈ canonical, rank parts < d
  splits : ∀ flat < d, ∃ parts ∈ canonical, split flat = .ok parts ∧ rank parts = flat

namespace Numbering

variable {d : Nat} {canonical : Set (List Nat)} {rank : List Nat → Nat}
  {split : Nat → Except Fault (List Nat)} {parts : Nat → List Nat}

theorem split_rank (numbering : Numbering d canonical rank split) {values : List Nat}
    (member : values ∈ canonical) : split (rank values) = .ok values := by
  obtain ⟨found, canonical_found, splits, same⟩ :=
    numbering.splits (rank values) (numbering.below values member)
  rw [splits, numbering.increasing.injOn canonical_found member same]

variable (numbering : Numbering d canonical rank split)
  (found : ∀ flat < d, split flat = .ok (parts flat))

include numbering found

theorem mem_canonical {flat : Nat} (small : flat < d) : parts flat ∈ canonical := by
  obtain ⟨values, member, splits, _⟩ := numbering.splits flat small
  have same := Except.ok.inj ((found flat small).symm.trans splits)
  rw [same]
  exact member

theorem rank_parts {flat : Nat} (small : flat < d) : rank (parts flat) = flat := by
  obtain ⟨values, _, splits, ranked⟩ := numbering.splits flat small
  have same := Except.ok.inj ((found flat small).symm.trans splits)
  rw [same]
  exact ranked

theorem parts_rank {values : List Nat} (member : values ∈ canonical) :
    parts (rank values) = values := by
  have splits := found (rank values) (numbering.below values member)
  exact Except.ok.inj (splits.symm.trans (numbering.split_rank member))

theorem strictMonoOn : StrictMonoOn parts (Set.Iio d) := by
  intro first smallFirst second smallSecond ordered
  rw [← numbering.increasing.lt_iff_lt (numbering.mem_canonical found smallFirst)
    (numbering.mem_canonical found smallSecond)]
  rw [numbering.rank_parts found smallFirst, numbering.rank_parts found smallSecond]
  exact ordered

theorem bijOn : Set.BijOn parts (Set.Iio d) canonical := by
  refine ⟨?_, (numbering.strictMonoOn found).injOn, ?_⟩
  · intro flat small
    exact numbering.mem_canonical found small
  · intro values member
    exact ⟨rank values, numbering.below values member, numbering.parts_rank found member⟩

end Numbering

end IndexNotation
