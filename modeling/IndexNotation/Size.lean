import IndexNotation.Fault
/-!
Sizes: dimensions, offsets and counts, natural numbers below `2 ^ 64`. Each operation gives the exact
number or overflows; none wraps.
-/
namespace IndexNotation.Size

def bound : Nat := Nat.pow 2 64

def checked (n : Nat) : Except Fault Nat := if n < bound then .ok n else .error .overflow

def add (a b : Nat) : Except Fault Nat := checked (a + b)

def sub (a b : Nat) : Except Fault Nat := if b ≤ a then .ok (a - b) else .error .overflow

def mul (a b : Nat) : Except Fault Nat := checked (a * b)

/-- A power whose exponent may be so large that the number cannot be written down. -/
def pow (base exponent : Nat) : Except Fault Nat :=
  if base ≤ 1 then .ok (if exponent = 0 then 1 else base)
  else if 64 ≤ exponent then .error .overflow
  else checked (Nat.pow base exponent)

def div (a b : Nat) : Except Fault Nat := if b = 0 then .error .divisionByZero else .ok (a / b)

def mod (a b : Nat) : Except Fault Nat := if b = 0 then .error .divisionByZero else .ok (a % b)

def sum (sizes : List Nat) : Except Fault Nat := sizes.foldlM add 0

/-- Left to right, from one: a product may overflow before it meets a zero. -/
def product (sizes : List Nat) : Except Fault Nat := sizes.foldlM mul 1

/-- Whether `count` cells of `width` bytes can be asked for at all: fewer than `2 ^ 63` bytes. -/
def reserve (count width : Nat) : Except Fault Unit :=
  if count * width < Nat.pow 2 63 then .ok () else .error .capacity

theorem checked_eq_ok_iff {n m : Nat} : checked n = .ok m ↔ n = m ∧ m < bound := by
  unfold checked
  split
  · constructor
    · intro same
      cases same
      exact ⟨rfl, ‹_›⟩
    · rintro ⟨rfl, _⟩
      rfl
  · constructor
    · intro same
      cases same
    · rintro ⟨rfl, small⟩
      contradiction

theorem checked_eq_error {n : Nat} {fault : Fault} (failed : checked n = .error fault) :
    fault = .overflow := by
  unfold checked at failed
  split at failed
  · cases failed
  · cases failed
    rfl

theorem reserve_eq_ok_iff {count width : Nat} {done : Unit} :
    reserve count width = .ok done ↔ count * width < Nat.pow 2 63 := by
  unfold reserve
  split <;> simp [*]

theorem reserve_eq_error {count width : Nat} {fault : Fault}
    (failed : reserve count width = .error fault) :
    fault = .capacity ∧ Nat.pow 2 63 ≤ count * width := by
  unfold reserve at failed
  split at failed
  · cases failed
  · cases failed
    exact ⟨rfl, Nat.le_of_not_lt ‹_›⟩

theorem reserve_of_le {count wide narrow : Nat} (le : narrow ≤ wide)
    (room : reserve count wide = .ok ()) : reserve count narrow = .ok () := by
  rw [reserve_eq_ok_iff] at room ⊢
  exact Nat.lt_of_le_of_lt (Nat.mul_le_mul_left count le) room

theorem add_eq_ok_iff {a b n : Nat} : add a b = .ok n ↔ a + b = n ∧ n < bound := checked_eq_ok_iff

theorem mul_eq_ok_iff {a b n : Nat} : mul a b = .ok n ↔ a * b = n ∧ n < bound := checked_eq_ok_iff

theorem sub_eq_ok_iff {a b n : Nat} : sub a b = .ok n ↔ b ≤ a ∧ a - b = n := by
  unfold sub
  split <;> simp [*]

theorem pow_eq_ok_iff {a n m : Nat} : pow a n = .ok m ↔ Nat.pow a n = m ∧ m < bound := by
  have two_le {a : Nat} (h : ¬ a ≤ 1) (large : 64 ≤ n) : bound ≤ Nat.pow a n :=
    Nat.le_trans (Nat.pow_le_pow_right (by omega) large) (Nat.pow_le_pow_left (by omega) n)
  unfold pow
  split
  · rename_i small
    have cases : a = 0 ∨ a = 1 := by omega
    rcases cases with rfl | rfl
    · cases n with
      | zero => simp [bound]; omega
      | succ n => simp [bound]; omega
    · simp [bound]; omega
  · split
    · rename_i h large
      simp only [reduceCtorEq, false_iff, not_and]
      intro same
      have := two_le h large
      omega
    · exact checked_eq_ok_iff

end IndexNotation.Size
