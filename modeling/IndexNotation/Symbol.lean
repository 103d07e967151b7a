namespace IndexNotation

/-- A slot name: a letter chosen by the caller, or a serial number handed out by the library. -/
inductive Symbol where
  | letter (c : Char)
  | fresh (serial : Nat)
deriving DecidableEq

abbrev IndexList := List Symbol

namespace Symbol

def isFresh : Symbol → Bool
  | letter _ => false
  | fresh _ => true

def letter? : Symbol → Option Char
  | letter c => some c
  | fresh _ => none

def text : Symbol → String
  | letter c => String.singleton c
  | fresh serial => "#" ++ toString serial

def quoted (s : Symbol) : String := "'" ++ s.text ++ "'"

def rank : Symbol → Nat
  | letter c => c.toNat
  | fresh serial => 0x110000 + serial

theorem rank_injective {s t : Symbol} (same : s.rank = t.rank) : s = t := by
  have below (c : Char) : c.toNat < 0x110000 := by
    have := c.valid
    simp only [UInt32.isValidChar, Nat.isValidChar] at this
    simp only [Char.toNat]
    omega
  cases s with
  | letter c =>
    cases t with
    | letter d =>
      simp only [rank] at same
      rw [Char.ext (UInt32.toNat_inj.mp same)]
    | fresh m =>
      have := below c
      simp only [rank] at same
      omega
  | fresh n =>
    cases t with
    | letter d =>
      have := below d
      simp only [rank] at same
      omega
    | fresh m =>
      simp only [rank] at same
      rw [Nat.add_left_cancel same]

end Symbol

namespace IndexList

def firstRepeatAfter (seen : IndexList) : IndexList → Option Symbol
  | [] => none
  | s :: rest => if s ∈ seen then some s else firstRepeatAfter (s :: seen) rest

def firstRepeat (symbols : IndexList) : Option Symbol := firstRepeatAfter [] symbols

def text (symbols : IndexList) : String := "|".intercalate (symbols.map Symbol.text)

def quoted (symbols : IndexList) : String :=
  "[" ++ ", ".intercalate (symbols.map Symbol.quoted) ++ "]"

def sorted (symbols : IndexList) : IndexList := symbols.mergeSort fun s t => s.rank ≤ t.rank

def substitute (source target : IndexList) (s : Symbol) : Symbol :=
  ((source.zip target).lookup s).getD s

theorem firstRepeatAfter_eq_none_iff {seen symbols : IndexList} :
    firstRepeatAfter seen symbols = none ↔ symbols.Nodup ∧ ∀ s ∈ symbols, s ∉ seen := by
  induction symbols generalizing seen with
  | nil => simp [firstRepeatAfter]
  | cons s rest ih =>
    by_cases known : s ∈ seen
    · simp [firstRepeatAfter, known]
    · simp only [firstRepeatAfter, known, if_false, ih, List.nodup_cons, List.mem_cons, not_or]
      grind

theorem firstRepeat_eq_none_iff {symbols : IndexList} :
    symbols.firstRepeat = none ↔ symbols.Nodup := by
  simp [firstRepeat, firstRepeatAfter_eq_none_iff]

end IndexList

end IndexNotation
