import IndexNotation.Size
/-!
Row-major numbering: tuples of values below a list of dimensions, the last position varying fastest,
and their flat offsets. `tuples` lists them in order; `foldTuples` runs over them without listing.
-/
namespace IndexNotation.RowMajor

/-- The flat offset of `values`; the value range is the caller's concern, the lengths are not. -/
def offset (values dims : List Nat) : Except Fault Nat :=
  if values.length = dims.length then
    (values.zip dims).foldlM (fun acc (value, dim) => do Size.add (← Size.mul acc dim) value) 0
  else .error .termsBroken

/-- Divide `flat` by the dimensions from the last to the first, leaving the remainders in the places of
`buffer` and returning the last quotient. A zero dimension divides nothing and leaves its place as it
was. -/
def distribute (flat : Nat) : (dims buffer : List Nat) → List Nat × Nat
  | dim :: dims, old :: buffer =>
    let (values, quotient) := distribute flat dims buffer
    if dim = 0 then (old :: values, quotient) else (quotient % dim :: values, quotient / dim)
  | _, _ => ([], flat)

def split (flat : Nat) (dims : List Nat) : List Nat :=
  (distribute flat dims (List.replicate dims.length 0)).1

def splitInto (flat : Nat) (dims buffer : List Nat) : Except Fault (List Nat) :=
  if buffer.length = dims.length then .ok (distribute flat dims buffer).1
  else .error .termsBroken

def tuples : List Nat → List (List Nat)
  | [] => [[]]
  | dim :: dims => (List.range dim).flatMap fun value => (tuples dims).map (value :: ·)

def Below : (values dims : List Nat) → Prop
  | [], [] => True
  | value :: values, dim :: dims => value < dim ∧ Below values dims
  | _, _ => False

section Fold

variable {m : Type → Type} [Monad m] {β : Type}

@[specialize] def foldFrom (step : Nat → β → m β) : (count start : Nat) → β → m β
  | 0, _, acc => pure acc
  | count + 1, start, acc => do foldFrom step count (start + 1) (← step start acc)

/-- `foldTuples` for dimensions of which none is zero. -/
@[specialize] def foldPositive (step : List Nat → β → m β) : List Nat → β → m β
  | [], acc => step [] acc
  | dim :: dims, acc =>
    foldFrom (fun value acc => foldPositive (fun rest acc => step (value :: rest) acc) dims acc)
      dim 0 acc

@[specialize] def foldTuples (step : List Nat → β → m β) (dims : List Nat) (acc : β) : m β :=
  if 0 ∈ dims then pure acc else foldPositive step dims acc

end Fold

section Lemmas

theorem length_distribute (flat : Nat) {dims buffer : List Nat}
    (same : buffer.length = dims.length) : (distribute flat dims buffer).1.length = dims.length := by
  induction dims generalizing buffer with
  | nil => simp [distribute]
  | cons dim dims ih =>
    cases buffer with
    | nil => simp at same
    | cons old buffer =>
      have rest := @ih buffer (by simpa using same)
      simp only [distribute]
      split <;> simp [rest]

@[simp] theorem length_split (flat : Nat) (dims : List Nat) :
    (split flat dims).length = dims.length := length_distribute flat (by simp)

theorem tuples_eq_nil_iff {dims : List Nat} : tuples dims = [] ↔ 0 ∈ dims := by
  induction dims with
  | nil => simp [tuples]
  | cons dim dims ih =>
    cases dim with
    | zero => simp [tuples]
    | succ dim =>
      simp only [tuples, List.flatMap_eq_nil_iff, List.mem_range, List.map_eq_nil_iff,
        List.mem_cons, ih]
      constructor
      · intro every
        exact Or.inr (every 0 (by omega))
      · rintro (impossible | zero)
        · omega
        · exact fun _ _ => zero

theorem mem_tuples {dims values : List Nat} : values ∈ tuples dims ↔ Below values dims := by
  induction dims generalizing values with
  | nil => cases values <;> simp [tuples, Below]
  | cons dim dims ih =>
    cases values with
    | nil => simp [tuples, Below]
    | cons value values =>
      simp only [tuples, List.mem_flatMap, List.mem_range, List.mem_map, ih, Below]
      constructor
      · rintro ⟨_, small, _, below, same⟩
        obtain ⟨rfl, rfl⟩ := List.cons.inj same
        exact ⟨small, below⟩
      · rintro ⟨small, below⟩
        exact ⟨value, small, values, below, rfl⟩

variable {m : Type → Type} [Monad m] {β : Type}

theorem foldFrom_eq_foldlM (step : Nat → β → m β) (count start : Nat) (acc : β) :
    foldFrom step count start acc =
      (List.range' start count).foldlM (fun acc value => step value acc) acc := by
  induction count generalizing start acc with
  | zero => simp [foldFrom]
  | succ count ih => simp [foldFrom, List.range'_succ, ih]

variable [LawfulMonad m]

theorem foldlM_flatMap {α γ : Type} (list : List α) (expand : α → List γ) (step : β → γ → m β)
    (acc : β) :
    (list.flatMap expand).foldlM step acc =
      list.foldlM (fun acc a => (expand a).foldlM step acc) acc := by
  induction list generalizing acc with
  | nil => simp
  | cons a list ih => simp [List.foldlM_append, ih]

theorem foldPositive_eq_foldlM (step : List Nat → β → m β) (dims : List Nat) (acc : β) :
    foldPositive step dims acc = (tuples dims).foldlM (fun acc values => step values acc) acc := by
  induction dims generalizing step acc with
  | nil => simp [foldPositive, tuples]
  | cons dim dims ih =>
    simp only [foldPositive, foldFrom_eq_foldlM, tuples, foldlM_flatMap, ih, List.foldlM_map,
      List.range_eq_range']

theorem foldTuples_eq_foldlM (step : List Nat → β → m β) (dims : List Nat) (acc : β) :
    foldTuples step dims acc = (tuples dims).foldlM (fun acc values => step values acc) acc := by
  unfold foldTuples
  split
  · rename_i zero
    simp [tuples_eq_nil_iff.mpr zero]
  · exact foldPositive_eq_foldlM step dims acc

end Lemmas

end IndexNotation.RowMajor
