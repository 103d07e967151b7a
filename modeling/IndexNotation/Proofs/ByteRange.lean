import IndexNotation.Memory
import IndexNotation.Proofs.Outcome
/-!
Byte ranges that are narrowed, again and again. What is left of one can be told from the offsets and the counts alone.
As long as no narrowing begins past the end of what it narrows, the bounds are in order and an overlap is a shared byte;
one that does turns the bounds round, for good, and overlaps are found where there is no byte to share.
-/
namespace IndexNotation.ByteRange

variable {r s : ByteRange} {offset count size : Nat} {parts : List (Nat × Nat)}

instance : Membership Nat ByteRange := ⟨fun r byte => r.start ≤ byte ∧ byte < r.stop⟩

theorem mem_iff {byte : Nat} : byte ∈ r ↔ r.start ≤ byte ∧ byte < r.stop := Iff.rfl

section Narrowing

def narrowAll (r : ByteRange) (parts : List (Nat × Nat)) : Except Fault ByteRange :=
  parts.foldlM (fun r (offset, count) => r.narrow offset count) r

/-- How many of `size` bytes the parts leave, when none of them begins past the end of what those before it leave. -/
def left (size : Nat) (parts : List (Nat × Nat)) : Option Nat :=
  parts.foldlM (fun size (offset, count) => if offset ≤ size then some (min count (size - offset)) else none) size

/-- The range has so many bytes, or its bounds are the wrong way round. -/
def Leaves (r : ByteRange) : Option Nat → Prop
  | some size => r.stop = r.start + size
  | none => r.stop < r.start

def Within (s r : ByteRange) : Prop := r.start ≤ s.start ∧ s.stop ≤ r.stop

/-- Narrowing fails only where the end asked for has no address. -/
theorem narrow_eq_ok_iff : r.narrow offset count = .ok s ↔
    ⟨r.start + offset, min (r.start + offset + count) r.stop⟩ = s ∧ r.start + offset + count < Size.bound := by
  simp only [narrow, bind_eq_ok_iff, Size.add_eq_ok_iff, pure_eq_ok_iff]
  constructor
  · rintro ⟨_, ⟨rfl, _⟩, _, ⟨rfl, small⟩, made⟩
    exact ⟨made, small⟩
  · rintro ⟨made, small⟩
    exact ⟨_, ⟨rfl, by omega⟩, _, ⟨rfl, small⟩, made⟩

theorem Leaves.start_le (leaves : r.Leaves (some size)) : r.start ≤ r.stop := by
  rw [leaves]
  exact Nat.le_add_right _ _

theorem Leaves.size_eq (leaves : r.Leaves (some size)) : r.size = .ok size := by
  rw [ByteRange.size, Size.sub_eq_ok_iff]
  exact ⟨leaves.start_le, by rw [leaves, Nat.add_sub_cancel_left]⟩

theorem leaves_of_size (sized : r.size = .ok size) : r.Leaves (some size) := by
  obtain ⟨ordered, rfl⟩ := Size.sub_eq_ok_iff.mp sized
  exact (Nat.add_sub_of_le ordered).symm

theorem Leaves.size_eq_error (leaves : r.Leaves none) : r.size = .error .overflow :=
  if_neg (Nat.not_le.mpr leaves)

theorem leaves_range {α : Type} (memory : Memory α) (block offset length width : Nat) :
    (memory.range block offset length width).Leaves (some (length * width)) := rfl

theorem Within.mem {byte : Nat} (within : s.Within r) (inside : byte ∈ s) : byte ∈ r :=
  ⟨Nat.le_trans within.1 inside.1, Nat.lt_of_lt_of_le inside.2 within.2⟩

theorem within_narrow (taken : r.narrow offset count = .ok s) : s.Within r := by
  obtain ⟨rfl, _⟩ := narrow_eq_ok_iff.mp taken
  exact ⟨Nat.le_add_right _ _, Nat.min_le_right _ _⟩

theorem within_narrowAll (taken : r.narrowAll parts = .ok s) : s.Within r := by
  induction parts generalizing r with
  | nil =>
      cases taken
      exact ⟨Nat.le_refl _, Nat.le_refl _⟩
  | cons part parts ih =>
      obtain ⟨next, narrowed, rest⟩ := bind_eq_ok_iff.mp taken
      obtain ⟨begun, ended⟩ := within_narrow narrowed
      obtain ⟨later, sooner⟩ := ih rest
      exact ⟨Nat.le_trans begun later, Nat.le_trans sooner ended⟩

theorem leaves_narrow (leaves : r.Leaves (some size)) (taken : r.narrow offset count = .ok s) :
    s.Leaves (if offset ≤ size then some (min count (size - offset)) else none) := by
  obtain ⟨rfl, _⟩ := narrow_eq_ok_iff.mp taken
  rw [Leaves] at leaves
  split
  · change min (r.start + offset + count) r.stop = r.start + offset + min count (size - offset)
    omega
  · change min (r.start + offset + count) r.stop < r.start + offset
    omega

theorem leaves_narrowAll (leaves : r.Leaves (some size)) (taken : r.narrowAll parts = .ok s) :
    s.Leaves (left size parts) := by
  induction parts generalizing r size with
  | nil =>
      cases taken
      exact leaves
  | cons part parts ih =>
      obtain ⟨offset, count⟩ := part
      obtain ⟨next, narrowed, rest⟩ := bind_eq_ok_iff.mp taken
      have step := leaves_narrow leaves narrowed
      rw [left, List.foldlM_cons]
      dsimp only
      split at step
      · rename_i inside
        rw [if_pos inside]
        exact ih step rest
      · rename_i past
        rw [if_neg past]
        -- no later narrowing moves the bounds past each other again
        obtain ⟨later, sooner⟩ := within_narrowAll rest
        exact Nat.lt_of_le_of_lt sooner (Nat.lt_of_lt_of_le step later)

end Narrowing

section Overlap

/-- A range reaches over the bounds of another whose bounds are the wrong way round. -/
def Straddles (s r : ByteRange) : Prop := s.start < r.stop ∧ r.stop < r.start ∧ r.start < s.stop

theorem overlaps_iff :
    r.overlaps s = true ↔ r.start ≠ r.stop ∧ s.start ≠ s.stop ∧ r.start < s.stop ∧ s.start < r.stop := by
  simp [overlaps, isEmpty, and_assoc]

theorem overlaps_eq_false (apart : r.stop ≤ s.start ∨ s.stop ≤ r.start) : r.overlaps s = false := by
  rw [Bool.eq_false_iff, Ne, overlaps_iff]
  omega

theorem overlaps_iff_straddles :
    r.overlaps s = true ↔ (∃ byte, byte ∈ r ∧ byte ∈ s) ∨ s.Straddles r ∨ r.Straddles s := by
  rw [overlaps_iff]
  constructor
  · rintro ⟨some, some', before, after⟩
    by_cases turned : r.stop < r.start
    · exact Or.inr (Or.inl ⟨after, turned, before⟩)
    by_cases turned' : s.stop < s.start
    · exact Or.inr (Or.inr ⟨before, turned', after⟩)
    -- both in order: the later of the two starts is in both
    have shared : max r.start s.start ∈ r ∧ max r.start s.start ∈ s := by
      rw [mem_iff, mem_iff]
      omega
    exact Or.inl ⟨_, shared⟩
  · rintro (⟨byte, inside, inside'⟩ | ⟨before, turned, after⟩ | ⟨before, turned, after⟩)
    · rw [mem_iff] at inside inside'
      omega
    · omega
    · omega

/-- Between ranges whose bounds are in order an overlap is a shared byte. -/
theorem overlaps_iff_of_le (ordered : r.start ≤ r.stop) (ordered' : s.start ≤ s.stop) :
    r.overlaps s = true ↔ ∃ byte, byte ∈ r ∧ byte ∈ s := by
  have straight : ¬ s.Straddles r := fun across => Nat.not_lt.mpr ordered across.2.1
  have straight' : ¬ r.Straddles s := fun across => Nat.not_lt.mpr ordered' across.2.1
  simp [overlaps_iff_straddles, straight, straight']

end Overlap

section Sequences

variable {α : Type} {memory : Memory α} {block length width : Nat}

/-- The bytes of neighbouring cells, narrowed to one part after the other. As long as no part begins past the end of what
it is taken from, the bounds are in order and the size is what the parts leave; the first that does turns the bounds round
for good, and the size overflows. A part can be taken wherever the end asked for has an address. It does not reach outside
of what it is taken from, and has as many of the bytes asked for as are there. Ranges in order overlap just when they
share a byte; a range that is not overlaps, without having any byte, with those that reach over its bounds. -/
theorem narrowAll_spec (narrowed : (memory.range block offset length width).narrowAll parts = .ok r) :
    (∀ size, left (length * width) parts = some size → r.start ≤ r.stop ∧ r.size = .ok size) ∧
    (left (length * width) parts = none → r.stop < r.start ∧ r.size = .error .overflow) ∧
    (∀ skipped count, r.start + skipped + count < Size.bound → ∃ s, r.narrow skipped count = .ok s) ∧
    (∀ skipped count s, r.narrow skipped count = .ok s → s.Within r ∧ (∀ byte ∈ s, byte ∈ r) ∧
      ∀ size, r.size = .ok size → skipped ≤ size →
        s.start ≤ s.stop ∧ s.size = .ok (min count (size - skipped))) ∧
    ∀ s, (r.start ≤ r.stop → s.start ≤ s.stop → (r.overlaps s = true ↔ ∃ byte, byte ∈ r ∧ byte ∈ s)) ∧
      (r.overlaps s = true ↔ (∃ byte, byte ∈ r ∧ byte ∈ s) ∨ s.Straddles r ∨ r.Straddles s) := by
  have leaves := leaves_narrowAll (leaves_range memory block offset length width) narrowed
  refine ⟨?_, ?_, ?_, ?_, ?_⟩
  · intro size some
    rw [some] at leaves
    exact ⟨leaves.start_le, leaves.size_eq⟩
  · intro none
    rw [none] at leaves
    exact ⟨leaves, leaves.size_eq_error⟩
  · exact fun skipped count small => ⟨_, narrow_eq_ok_iff.mpr ⟨rfl, small⟩⟩
  · intro skipped count s taken
    have within := within_narrow taken
    refine ⟨within, fun byte inside => within.mem inside, fun size sized inside => ?_⟩
    have rest := leaves_narrow (leaves_of_size sized) taken
    rw [if_pos inside] at rest
    exact ⟨rest.start_le, rest.size_eq⟩
  · exact fun s => ⟨overlaps_iff_of_le, overlaps_iff_straddles⟩

/-- Six of eight bytes, and of these all but the first two, although more are asked for. The first four of the eight
share a byte with them. -/
theorem narrowAll_spec_clipped :
    let memory : Memory Unit := ⟨#[⟨64, Array.replicate 8 ()⟩], 88⟩
    ∃ r s, (memory.range 0 0 8 1).narrowAll [(1, 6), (2, 9)] = .ok r ∧ r.size = .ok 4 ∧
      (memory.range 0 0 8 1).narrowAll [(0, 4)] = .ok s ∧ r.overlaps s = true ∧ ∃ byte, byte ∈ r ∧ byte ∈ s := by
  intro memory
  obtain ⟨r, narrowed⟩ : ∃ r, (memory.range 0 0 8 1).narrowAll [(1, 6), (2, 9)] = .ok r := ⟨_, rfl⟩
  obtain ⟨s, narrowed'⟩ : ∃ s, (memory.range 0 0 8 1).narrowAll [(0, 4)] = .ok s := ⟨_, rfl⟩
  obtain ⟨sized, _, _, _, overlap⟩ := narrowAll_spec narrowed
  obtain ⟨sized', _, _, _, _⟩ := narrowAll_spec narrowed'
  obtain ⟨ordered, whole⟩ := sized 4 rfl
  obtain ⟨ordered', _⟩ := sized' 4 rfl
  have shared : r.overlaps s = true := by
    cases narrowed
    cases narrowed'
    rfl
  exact ⟨r, s, narrowed, whole, narrowed', shared, ((overlap s).1 ordered ordered').mp shared⟩

/-- Narrowed past its end to no byte at all, the first half of four bytes ends before it starts: its size overflows, and
it overlaps with the four bytes without having any of them. -/
theorem narrow_past_end :
    let memory : Memory Unit := ⟨#[⟨64, Array.replicate 4 ()⟩], 84⟩
    ∃ r, (memory.range 0 0 2 1).narrow 3 0 = .ok r ∧ r.stop < r.start ∧ r.size = .error .overflow ∧
      r.overlaps (memory.range 0 0 4 1) = true ∧ ∀ byte, byte ∉ r := by
  intro memory
  refine ⟨⟨67, 66⟩, rfl, by decide, rfl, rfl, ?_⟩
  rintro byte ⟨after, before⟩
  dsimp only at after before
  omega

end Sequences

end IndexNotation.ByteRange
