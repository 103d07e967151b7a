import IndexNotation.Decimal.Shortest
import Mathlib
/-!
The shortest decimal reads back. Seventeen digits are fine enough to meet the rounding interval of every number of a
format, so the decimal that is found lies inside; and the intervals of two numbers have no decimal in common.
-/
namespace IndexNotation.Decimal

def DecimalNumber.value (d : DecimalNumber) : ℚ := d.digits * 10 ^ d.exponent

theorem DecimalNumber.value_trimmed (fuel : Nat) (d : DecimalNumber) : (trimmed fuel d).value = d.value := by
  induction fuel generalizing d with
  | zero => rfl
  | succ fuel ih =>
      rw [trimmed]
      split
      · rename_i zero
        have digits : d.digits = d.digits / 10 * 10 := (Nat.div_mul_cancel (Nat.dvd_of_mod_eq_zero zero.2)).symm
        rw [ih, value, value, zpow_add_one₀ (by norm_num)]
        conv_rhs => rw [digits]
        push_cast
        ring
      · rfl

namespace RoundingInterval

/-- The number rounds to the one that the interval is about. -/
def Contains (r : RoundingInterval) (x : ℚ) : Prop :=
  if r.closed then r.low * 2 ^ r.unit ≤ x ∧ x ≤ r.high * 2 ^ r.unit
  else r.low * 2 ^ r.unit < x ∧ x < r.high * 2 ^ r.unit

variable {r : RoundingInterval} {exponent : Int}

section Scales

theorem scales_pos (r : RoundingInterval) (exponent : Int) :
    0 < (r.scales exponent).1 ∧ 0 < (r.scales exponent).2 :=
  ⟨Nat.mul_pos (Nat.pow_pos (by decide)) (Nat.pow_pos (by decide)),
    Nat.mul_pos (Nat.pow_pos (by decide)) (Nat.pow_pos (by decide))⟩

theorem zpow_mul_pow_toNat {b : ℚ} (positive : 0 < b) (n : Int) : b ^ n * b ^ (-n).toNat = b ^ n.toNat := by
  rw [← zpow_natCast, ← zpow_natCast, ← zpow_add₀ positive.ne']
  congr 1
  omega

theorem scales_ratio (r : RoundingInterval) (exponent : Int) :
    (2 : ℚ) ^ r.unit * (r.scales exponent).2 = 10 ^ exponent * (r.scales exponent).1 := by
  have twos := zpow_mul_pow_toNat (b := 2) (by norm_num) r.unit
  have tens := zpow_mul_pow_toNat (b := 10) (by norm_num) exponent
  simp only [scales, Nat.pow_eq]
  push_cast
  calc
    _ = (2 : ℚ) ^ r.unit * 2 ^ (-r.unit).toNat * 10 ^ exponent.toNat := by ring
    _ = 2 ^ r.unit.toNat * (10 ^ exponent * 10 ^ (-exponent).toNat) := by rw [twos, tens]
    _ = _ := by ring

/-- Units of the interval against steps of the grid, in whole numbers and in fractions. -/
theorem scaled_eq (r : RoundingInterval) (exponent : Int) (n : Nat) :
    (n * (r.scales exponent).1 : ℚ) * 10 ^ exponent = n * 2 ^ r.unit * (r.scales exponent).2 := by
  linear_combination (-(n : ℚ)) * scales_ratio r exponent

theorem scaled_le_iff (r : RoundingInterval) (exponent : Int) (n k : Nat) :
    n * (r.scales exponent).1 ≤ k * (r.scales exponent).2 ↔ (n : ℚ) * 2 ^ r.unit ≤ k * 10 ^ exponent := by
  have step : (0 : ℚ) < 10 ^ exponent := by positivity
  have weight : (0 : ℚ) < (r.scales exponent).2 := by exact_mod_cast (scales_pos r exponent).2
  rw [← Nat.cast_le (α := ℚ), ← mul_le_mul_iff_of_pos_right step]
  push_cast
  rw [scaled_eq, mul_right_comm (k : ℚ), mul_le_mul_iff_of_pos_right weight]

theorem le_scaled_iff (r : RoundingInterval) (exponent : Int) (n k : Nat) :
    k * (r.scales exponent).2 ≤ n * (r.scales exponent).1 ↔ (k : ℚ) * 10 ^ exponent ≤ n * 2 ^ r.unit := by
  have step : (0 : ℚ) < 10 ^ exponent := by positivity
  have weight : (0 : ℚ) < (r.scales exponent).2 := by exact_mod_cast (scales_pos r exponent).2
  rw [← Nat.cast_le (α := ℚ), ← mul_le_mul_iff_of_pos_right step]
  push_cast
  rw [scaled_eq, mul_right_comm (k : ℚ), mul_le_mul_iff_of_pos_right weight]

theorem holds_iff (r : RoundingInterval) (d : DecimalNumber) : r.holds d = true ↔ r.Contains d.value := by
  have fromLow := scaled_le_iff r d.exponent r.low d.digits
  have toHigh := le_scaled_iff r d.exponent r.high d.digits
  have aboveLow := le_scaled_iff r d.exponent r.low d.digits
  have belowHigh := scaled_le_iff r d.exponent r.high d.digits
  rw [holds, Contains]
  dsimp only
  split
  · rw [Bool.and_eq_true, decide_eq_true_eq, decide_eq_true_eq, fromLow, toHigh]
    rfl
  · rw [Bool.and_eq_true, decide_eq_true_eq, decide_eq_true_eq, ← Nat.not_le, ← Nat.not_le, aboveLow, belowHigh,
      not_le, not_le]
    rfl

theorem floor_le (r : RoundingInterval) (exponent : Int) :
    (r.floor exponent : ℚ) * 10 ^ exponent ≤ r.value * 2 ^ r.unit := by
  rw [← le_scaled_iff]
  exact Nat.div_mul_le_self _ _

theorem lt_floor_succ (r : RoundingInterval) (exponent : Int) :
    (r.value : ℚ) * 2 ^ r.unit < (r.floor exponent + 1 : Nat) * 10 ^ exponent := by
  rw [← not_le, ← le_scaled_iff, Nat.not_le]
  have divided := Nat.lt_div_mul_add (a := r.value * (r.scales exponent).1) (scales_pos r exponent).2
  rw [Nat.add_mul, Nat.one_mul]
  exact divided

end Scales

section Search

theorem holds_of_onGrid {d : DecimalNumber} (found : r.onGrid exponent = some d) : r.holds d = true := by
  rw [onGrid] at found
  dsimp only at found
  split at found
  · rename_i nearer
    cases found
    rw [Bool.and_eq_true] at nearer
    exact nearer.1
  · split at found
    · rename_i above
      cases found
      exact above
    · cases found

/-- A grid that is finer than the interval is wide meets it next to the number. -/
theorem exists_onGrid (below : r.low < r.value) (above : r.value < r.high)
    (fine : (10 : ℚ) ^ exponent < (r.high - r.low) * 2 ^ r.unit) : ∃ d, r.onGrid exponent = some d := by
  cases missed : r.onGrid exponent with
  | some d => exact ⟨d, rfl⟩
  | none =>
      exfalso
      have neither : r.holds ⟨r.floor exponent, exponent⟩ = false ∧
          r.holds ⟨r.floor exponent + 1, exponent⟩ = false := by
        simp only [onGrid] at missed
        split at missed
        · cases missed
        · split at missed
          · cases missed
          · simp_all
      have left := floor_le r exponent
      have right := lt_floor_succ r exponent
      have unit : (0 : ℚ) < 2 ^ r.unit := by positivity
      have lower : (r.low : ℚ) * 2 ^ r.unit < r.value * 2 ^ r.unit := by gcongr
      have upper : (r.value : ℚ) * 2 ^ r.unit < r.high * 2 ^ r.unit := by gcongr
      rw [← Bool.not_eq_true, holds_iff, ← Bool.not_eq_true, holds_iff] at neither
      simp only [Contains, DecimalNumber.value] at neither
      have apart : (r.floor exponent : ℚ) * 10 ^ exponent ≤ r.low * 2 ^ r.unit ∧
          (r.high : ℚ) * 2 ^ r.unit ≤ (r.floor exponent + 1 : Nat) * 10 ^ exponent := by
        rcases neither with ⟨first, second⟩
        constructor
        · by_contra inside
          rw [not_le] at inside
          apply first
          split
          · exact ⟨inside.le, (left.trans_lt upper).le⟩
          · exact ⟨inside, left.trans_lt upper⟩
        · by_contra inside
          rw [not_le] at inside
          apply second
          split
          · exact ⟨(lower.trans right).le, inside.le⟩
          · exact ⟨lower.trans right, inside⟩
      push_cast at apart
      linarith

theorem holds_of_search {fuel k : Nat} {exponent : Int} (within : k < fuel)
    (met : ∃ d, r.onGrid (exponent - k) = some d) : r.holds (r.search fuel exponent) = true := by
  induction fuel generalizing k exponent with
  | zero => exact absurd within (Nat.not_lt_zero k)
  | succ fuel ih =>
      rw [search]
      cases here : r.onGrid exponent with
      | some d => exact holds_of_onGrid here
      | none =>
          obtain ⟨d, met⟩ := met
          cases k with
          | zero =>
              rw [Nat.cast_zero, sub_zero, here] at met
              cases met
          | succ k =>
              have later : exponent - 1 - (k : Int) = exponent - (k + 1 : Nat) := by
                push_cast
                ring
              exact ih (Nat.lt_of_succ_lt_succ within) ⟨d, later ▸ met⟩

end Search

section Magnitude

/-- Counting up from a power of ten that is not above the number never passes the last one. -/
theorem zpow_magnitudeFrom_le {fuel : Nat} {start : Int} (low : (10 : ℚ) ^ start ≤ r.value * 2 ^ r.unit) :
    (10 : ℚ) ^ r.magnitudeFrom fuel start ≤ r.value * 2 ^ r.unit := by
  induction fuel generalizing start with
  | zero => exact low
  | succ fuel ih =>
      rw [magnitudeFrom]
      split
      · exact low
      · rename_i reached
        apply ih
        have whole : (1 : ℚ) ≤ r.floor (start + 1) := by exact_mod_cast Nat.one_le_iff_ne_zero.mpr reached
        calc
          (10 : ℚ) ^ (start + 1) ≤ r.floor (start + 1) * 10 ^ (start + 1) := le_mul_of_one_le_left (by positivity) whole
          _ ≤ _ := floor_le r _

theorem cast_pow_le {a b m n : Nat} (small : Nat.pow a m ≤ Nat.pow b n) : (a : ℚ) ^ m ≤ (b : ℚ) ^ n := by
  exact_mod_cast small

/-- `1233 / 4096` is a little less than the decimal logarithm of two. -/
theorem zpow_estimate_le {k : Int} (near : -8192 ≤ k) : (10 : ℚ) ^ (k * 1233 / 4096 - 2) ≤ 2 ^ k := by
  have quotient : k * 1233 / 4096 * 4096 ≤ k * 1233 := Int.ediv_mul_le _ (by decide)
  generalize k * 1233 / 4096 = q at quotient ⊢
  have below : ((10 : Nat) : ℚ) ^ 1233 ≤ (2 : Nat) ^ 4096 := cast_pow_le (by decide +kernel)
  have above : ((2 : Nat) : ℚ) ^ 4096 ≤ (10 : Nat) ^ 1234 := cast_pow_le (by decide +kernel)
  rw [Nat.cast_ofNat, Nat.cast_ofNat] at below above
  rw [← pow_le_pow_iff_left₀ (by positivity) (by positivity) (by decide : 4096 ≠ 0), ← zpow_natCast, ← zpow_natCast,
    ← zpow_mul, ← zpow_mul]
  rcases le_or_gt 0 k with positive | negative
  · obtain ⟨n, rfl⟩ := Int.eq_ofNat_of_zero_le positive
    calc
      (10 : ℚ) ^ ((q - 2) * (4096 : Nat)) ≤ 10 ^ ((1233 : Nat) * (n : Int)) :=
        zpow_le_zpow_right₀ (by norm_num) (by push_cast; omega)
      _ = (10 ^ 1233) ^ n := by rw [zpow_mul, zpow_natCast, zpow_natCast]
      _ ≤ (2 ^ 4096) ^ n := pow_le_pow_left₀ (by positivity) below n
      _ = 2 ^ ((n : Int) * (4096 : Nat)) := by rw [mul_comm, zpow_mul, zpow_natCast, zpow_natCast]
  · obtain ⟨n, rfl⟩ : ∃ n : Nat, k = -n := ⟨k.natAbs, by omega⟩
    calc
      (10 : ℚ) ^ ((q - 2) * (4096 : Nat)) ≤ 10 ^ (-((1234 : Nat) * (n : Int))) :=
        zpow_le_zpow_right₀ (by norm_num) (by push_cast; omega)
      _ = ((10 ^ 1234) ^ n)⁻¹ := by rw [zpow_neg, zpow_mul, zpow_natCast, zpow_natCast]
      _ ≤ ((2 ^ 4096) ^ n)⁻¹ := inv_anti₀ (by positivity) (pow_le_pow_left₀ (by positivity) above n)
      _ = 2 ^ (-(n : Int) * (4096 : Nat)) := by
        rw [neg_mul, zpow_neg, mul_comm (n : Int), zpow_mul, zpow_natCast, zpow_natCast]

theorem zpow_magnitude_le (some : r.value ≠ 0) (near : -8192 ≤ r.unit) :
    (10 : ℚ) ^ r.magnitude ≤ r.value * 2 ^ r.unit := by
  have power : (2 : ℚ) ^ (Nat.log2 r.value : Int) ≤ r.value := by
    rw [zpow_natCast]
    exact_mod_cast Nat.log2_self_le some
  apply zpow_magnitudeFrom_le
  calc
    _ ≤ (2 : ℚ) ^ ((Nat.log2 r.value : Int) + r.unit) := zpow_estimate_le (by omega)
    _ = 2 ^ (Nat.log2 r.value : Int) * 2 ^ r.unit := zpow_add₀ (by norm_num) _ _
    _ ≤ _ := by gcongr

end Magnitude

section Ends

variable {x : ℚ}

theorem Contains.low_le (inside : r.Contains x) : r.low * 2 ^ r.unit ≤ x := by
  rw [Contains] at inside
  split at inside
  · exact inside.1
  · exact inside.1.le

theorem Contains.le_high (inside : r.Contains x) : x ≤ r.high * 2 ^ r.unit := by
  rw [Contains] at inside
  split at inside
  · exact inside.2
  · exact inside.2.le

theorem Contains.closed (inside : r.Contains x) (atEnd : x = r.low * 2 ^ r.unit ∨ x = r.high * 2 ^ r.unit) :
    r.closed = true := by
  rw [Contains] at inside
  split at inside
  · assumption
  · rcases atEnd with low | high
    · exact absurd low inside.1.ne'
    · exact absurd high inside.2.ne

end Ends

end RoundingInterval

namespace BinaryFormat

open RoundingInterval

/-- The numbers that words of the format stand for: all above the smallest exponent have their first bit. -/
structure Represents (f : BinaryFormat) (significand : Nat) (exponent : Int) (firstOfBinade : Bool) : Prop where
  least : f.leastExponent ≤ exponent
  small : significand < 2 * Nat.pow 2 f.fractionBits
  normal : f.leastExponent < exponent → Nat.pow 2 f.fractionBits ≤ significand
  first : firstOfBinade = true ↔ f.leastExponent < exponent ∧ significand = Nat.pow 2 f.fractionBits

/-- Seventeen digits tell the numbers of the format apart. -/
structure Legible (f : BinaryFormat) : Prop where
  fraction : f.fractionBits ≤ 52
  exponents : -8000 ≤ f.leastExponent

theorem legible_single : single.Legible := ⟨by decide, by decide⟩

theorem legible_double : double.Legible := ⟨by decide, by decide⟩

variable {f : BinaryFormat} {m m' : Nat} {e e' : Int} {first first' : Bool}

theorem represents_of_ofBits {word : Nat} {negative : Bool}
    (read : BinaryValue.ofBits f word = .finite negative m e first) : f.Represents m e first := by
  have part : word % Nat.pow 2 f.fractionBits < Nat.pow 2 f.fractionBits := Nat.mod_lt _ (Nat.pow_pos (by decide))
  rw [BinaryValue.ofBits] at read
  split at read
  · split at read <;> cases read
  · split at read
    · cases read
      exact ⟨le_refl _, by omega, fun above => absurd above (lt_irrefl _), by simp⟩
    · rename_i _ some
      generalize word / Nat.pow 2 f.fractionBits % Nat.pow 2 f.exponentBits = biased at read some
      cases read
      refine ⟨by omega, by omega, fun _ => by omega, ?_⟩
      rw [Bool.and_eq_true, decide_eq_true_eq, decide_eq_true_eq]
      omega

/-- The shortest decimal rounds to its number. -/
theorem Represents.holds_shortest (represents : f.Represents m e first) (legible : f.Legible) (positive : 0 < m) :
    (around m e first).holds (shortest m e first) = true := by
  rw [shortest, holds_iff, DecimalNumber.value_trimmed, ← holds_iff]
  have fraction : Nat.pow 2 f.fractionBits ≤ 4503599627370496 := Nat.pow_le_pow_right (by decide) legible.fraction
  have small := represents.small
  have widest : 4 * m < (2 + if first then 1 else 2) * 10000000000000000 := by
    split
    · rename_i starts
      have lowest := (represents.first.mp starts).2
      omega
    · omega
  apply holds_of_search (k := 16) (by decide)
  apply exists_onGrid
  · change 4 * m - _ < 4 * m
    split <;> omega
  · exact Nat.lt_add_of_pos_right (by decide)
  · have near : -8192 ≤ (around m e first).unit := by
      have least := represents.least
      have exponents := legible.exponents
      change -8192 ≤ e - 2
      omega
    have some : (around m e first).value ≠ 0 := by
      change 4 * m ≠ 0
      omega
    have magnitude := zpow_magnitude_le some near
    generalize (around m e first).magnitude = top at magnitude ⊢
    change (10 : ℚ) ^ top ≤ (4 * m : Nat) * 2 ^ (e - 2) at magnitude
    change (10 : ℚ) ^ (top - (16 : Nat)) <
      ((4 * m + 2 : Nat) - (4 * m - if first then 1 else 2 : Nat)) * 2 ^ (e - 2)
    have width :
        ((4 * m + 2 : Nat) - (4 * m - if first then 1 else 2 : Nat) : ℚ) = (2 + if first then 1 else 2 : Nat) := by
      rw [Nat.cast_sub (by split <;> omega)]
      push_cast
      ring
    have unit : (0 : ℚ) < 2 ^ (e - 2) := by positivity
    rw [width, zpow_sub₀ (by norm_num), div_lt_iff₀ (by positivity)]
    calc
      (10 : ℚ) ^ top ≤ (4 * m : Nat) * 2 ^ (e - 2) := magnitude
      _ < ((2 + if first then 1 else 2) * 10000000000000000 : Nat) * 2 ^ (e - 2) := by gcongr
      _ = _ := by
        push_cast
        ring

section Apart

variable (lower : f.Represents m e first) (upper : f.Represents m' e' first')

include lower upper

theorem exponent_le (less : (m : ℚ) * 2 ^ e < m' * 2 ^ e') : e ≤ e' := by
  by_contra above
  rw [not_le] at above
  have bottom := lower.normal (lt_of_le_of_lt upper.least above)
  have top := upper.small
  have doubled : (m' : ℚ) ≤ m * 2 := by exact_mod_cast (by omega : m' ≤ m * 2)
  have order : (m' : ℚ) * 2 ^ e' ≤ m * 2 ^ e := by
    calc
      (m' : ℚ) * 2 ^ e' ≤ m * 2 * 2 ^ e' := by gcongr
      _ = m * 2 ^ (e' + 1) := by rw [zpow_add_one₀ (by norm_num)]; ring
      _ ≤ m * 2 ^ e := by
        gcongr
        · norm_num
        · omega
  exact absurd less (not_lt.mpr order)

/-- In units of the smaller number's interval, that ends before the larger one's begins, or where it does; then one of
the two significands is odd. -/
theorem high_le_low {k : Nat} (shift : e' = e + k) (less : m < m' * 2 ^ k) :
    4 * m + 2 ≤ (4 * m' - if first' then 1 else 2) * 2 ^ k ∧
      (4 * m + 2 = (4 * m' - if first' then 1 else 2) * 2 ^ k → m % 2 = 1 ∨ m' % 2 = 1) := by
  have small := lower.small
  have hidden : 0 < Nat.pow 2 f.fractionBits := Nat.pow_pos (by decide)
  have least := lower.least
  cases k with
  | zero =>
      rw [pow_zero, mul_one] at less ⊢
      split <;> omega
  | succ k =>
      have normal := upper.normal (by omega)
      have starts := upper.first
      have bottom : first' = false → Nat.pow 2 f.fractionBits + 1 ≤ m' := by
        intro inside
        have other : m' ≠ Nat.pow 2 f.fractionBits := by
          intro same
          have absurdity := starts.mpr ⟨by omega, same⟩
          rw [inside] at absurdity
          cases absurdity
        omega
      have grows : 1 ≤ 2 ^ k := Nat.one_le_two_pow
      generalize Nat.pow 2 f.fractionBits = hidden' at *
      rw [pow_succ]
      generalize 2 ^ k = power at *
      cases first' with
      | true =>
          rw [if_pos rfl]
          have least : (4 * m' - 1) * 2 ≤ (4 * m' - 1) * (power * 2) := Nat.mul_le_mul_left _ (by omega)
          omega
      | false =>
          have above := bottom rfl
          rw [if_neg Bool.false_ne_true]
          have least : (4 * m' - 2) * 2 ≤ (4 * m' - 2) * (power * 2) := Nat.mul_le_mul_left _ (by omega)
          omega

/-- No decimal rounds to two numbers. -/
theorem not_contains {x : ℚ} (less : (m : ℚ) * 2 ^ e < m' * 2 ^ e') (inside : (around m e first).Contains x) :
    ¬ (around m' e' first').Contains x := by
  intro inside'
  obtain ⟨k, shift⟩ : ∃ k : Nat, e' = e + k := by
    have order := exponent_le lower upper less
    exact ⟨(e' - e).toNat, by omega⟩
  have unit : (0 : ℚ) < 2 ^ (e - 2) := by positivity
  have scaled (n : Nat) : (n : ℚ) * 2 ^ (e' - 2) = (n * 2 ^ k : Nat) * 2 ^ (e - 2) := by
    rw [shift, add_sub_right_comm, zpow_add₀ (by norm_num), zpow_natCast]
    push_cast
    ring
  have small : m < m' * 2 ^ k := by
    have wide : (0 : ℚ) < 2 ^ e := by positivity
    rw [shift, zpow_add₀ (by norm_num), zpow_natCast, mul_left_comm, mul_comm (m : ℚ), mul_lt_mul_iff_of_pos_left wide]
      at less
    exact_mod_cast less
  obtain ⟨apart, odd⟩ := high_le_low lower upper shift small
  have high : x ≤ (4 * m + 2 : Nat) * 2 ^ (e - 2) := inside.le_high
  have low : ((4 * m' - if first' then 1 else 2 : Nat) : ℚ) * 2 ^ (e' - 2) ≤ x := inside'.low_le
  rw [scaled] at low
  have ends : 4 * m + 2 = (4 * m' - if first' then 1 else 2) * 2 ^ k := by
    refine le_antisymm apart ?_
    have both := low.trans high
    rw [mul_le_mul_iff_of_pos_right unit] at both
    exact_mod_cast both
  rw [← ends] at low
  have even : m % 2 = 0 := of_decide_eq_true (inside.closed (Or.inr (le_antisymm high low)))
  have even' : m' % 2 = 0 := by
    refine of_decide_eq_true (inside'.closed (Or.inl ?_))
    change x = ((4 * m' - if first' then 1 else 2 : Nat) : ℚ) * 2 ^ (e' - 2)
    rw [scaled, ← ends]
    exact le_antisymm high low
  have parity := odd ends
  omega

/-- A number of the format has one significand and one exponent. -/
theorem eq_of_value_eq (same : (m : ℚ) * 2 ^ e = m' * 2 ^ e') (order : e ≤ e') : m = m' ∧ e = e' := by
  obtain ⟨k, rfl⟩ : ∃ k : Nat, e' = e + k := ⟨(e' - e).toNat, by omega⟩
  have wide : (2 : ℚ) ^ e ≠ 0 := by positivity
  rw [zpow_add₀ (by norm_num), zpow_natCast, mul_left_comm, mul_comm (m : ℚ), mul_right_inj' wide] at same
  have equal : m = m' * 2 ^ k := by exact_mod_cast same
  cases k with
  | zero => exact ⟨by omega, by simp⟩
  | succ k =>
      have normal := upper.normal (by have least := lower.least; omega)
      have small := lower.small
      have grows : 1 ≤ 2 ^ k := Nat.one_le_two_pow
      have least : m' * 2 ≤ m' * (2 ^ k * 2) := Nat.mul_le_mul_left _ (by omega)
      rw [pow_succ] at equal
      omega

/-- The decimal in both rounding intervals tells that the numbers are one. -/
theorem eq_of_contains {x : ℚ} (inside : (around m e first).Contains x) (inside' : (around m' e' first').Contains x) :
    m = m' ∧ e = e' ∧ first = first' := by
  have same : m = m' ∧ e = e' := by
    rcases lt_trichotomy ((m : ℚ) * 2 ^ e) (m' * 2 ^ e') with less | equal | more
    · exact absurd inside' (not_contains lower upper less inside)
    · rcases le_total e e' with order | order
      · exact eq_of_value_eq lower upper equal order
      · obtain ⟨rfl, rfl⟩ := eq_of_value_eq upper lower equal.symm order
        exact ⟨rfl, rfl⟩
    · exact absurd inside (not_contains upper lower more inside')
  obtain ⟨rfl, rfl⟩ := same
  exact ⟨rfl, rfl, Bool.eq_iff_iff.mpr (lower.first.trans upper.first.symm)⟩

end Apart

theorem Represents.contains_zero (represents : f.Represents 0 e first) : (around 0 e first).Contains 0 := by
  have below : first = false := by
    rw [← Bool.not_eq_true, represents.first]
    exact fun starts => (Nat.pow_pos (n := f.fractionBits) (by decide : 0 < 2)).ne starts.2
  subst below
  have closed : (around 0 e false).closed = true := rfl
  rw [Contains, if_pos closed]
  change ((0 : Nat) : ℚ) * 2 ^ (e - 2) ≤ 0 ∧ 0 ≤ ((2 : Nat) : ℚ) * 2 ^ (e - 2)
  exact ⟨by rw [Nat.cast_zero, zero_mul], by positivity⟩

end BinaryFormat

end IndexNotation.Decimal
