import IndexNotation.Decimal.Layout
import IndexNotation.Proofs.Decimal.Shortest
/-!
Written numbers read back. The digits on both sides of the point and the exponent behind them tell the decimal that was
written, and so the binary number whose shortest decimal it is.
-/
namespace IndexNotation.Decimal

/-- Digits, with a point among them or not, and the number that they write. -/
inductive Mantissa : List Char → ℚ → Prop
  | whole {front : List Char} (some : front ≠ []) (digits : ∀ c ∈ front, c.isDigit) :
      Mantissa front (Nat.ofDigitChars 10 front 0)
  | pointed {front back : List Char} (some : front ≠ []) (digits : ∀ c ∈ front ++ back, c.isDigit) :
      Mantissa (front ++ '.' :: back) (Nat.ofDigitChars 10 (front ++ back) 0 * 10 ^ (-(back.length : Int)))

/-- The text behind the mantissa, and the exponent that it writes. -/
inductive Exponent : List Char → Int → Prop
  | none : Exponent [] 0
  | some (e : Int) : Exponent ('e' :: e.repr.toList) e

/-- The text of a number without a sign. -/
def Writes (text : List Char) (x : ℚ) : Prop :=
  ∃ mantissa exponent m e, text = mantissa ++ exponent ∧ Mantissa mantissa m ∧ Exponent exponent e ∧ x = m * 10 ^ e

section Digits

theorem isDigit_of_mem_repr {n : Nat} : ∀ c ∈ n.repr.toList, c.isDigit := by
  intro c present
  rw [Nat.toList_repr] at present
  exact Nat.isDigit_of_mem_toDigits (by decide) (le_refl 10) present

theorem isDigit_zeros (count : Nat) : ∀ c ∈ List.replicate count '0', c.isDigit := by
  intro c present
  rw [List.eq_of_mem_replicate present]
  rfl

theorem ofDigitChars_repr (n : Nat) : Nat.ofDigitChars 10 n.repr.toList 0 = n := by
  rw [Nat.toList_repr]
  exact Nat.ofDigitChars_toDigits (by decide) (le_refl 10)

theorem repr_ne_nil (n : Nat) : n.repr.toList ≠ [] := by
  rw [Nat.toList_repr]
  exact Nat.toDigits_ne_nil

theorem not_mem_of_isDigit {digits : List Char} (all : ∀ c ∈ digits, c.isDigit) {c : Char} (other : c.isDigit = false) :
    c ∉ digits := by
  intro present
  rw [all c present] at other
  cases other

theorem not_mem_repr {c : Char} (other : c.isDigit = false) (n : Nat) : c ∉ n.repr.toList :=
  not_mem_of_isDigit isDigit_of_mem_repr other

theorem not_mem_intRepr {c : Char} (other : c.isDigit = false) (sign : c ≠ '-') (e : Int) : c ∉ e.repr.toList := by
  cases e with
  | ofNat n => exact not_mem_repr other n
  | negSucc n =>
      rw [Int.repr, String.toList_append, List.mem_append, not_or]
      exact ⟨fun present => sign (List.mem_singleton.mp present), not_mem_repr other _⟩

end Digits

section Reading

variable {text text' : List Char} {m m' x x' : ℚ} {e e' : Int}

theorem Mantissa.isDigit_or_point (mantissa : Mantissa text m) : ∀ c ∈ text, c.isDigit ∨ c = '.' := by
  intro c present
  cases mantissa with
  | whole _ digits => exact Or.inl (digits c present)
  | pointed _ digits =>
      rcases List.mem_append.mp present with front | back
      · exact Or.inl (digits c (List.mem_append_left _ front))
      · rcases List.mem_cons.mp back with point | back
        · exact Or.inr point
        · exact Or.inl (digits c (List.mem_append_right _ back))

theorem Mantissa.unique (mantissa : Mantissa text m) (mantissa' : Mantissa text m') : m = m' := by
  have point : Char.isDigit '.' = false := rfl
  cases mantissa with
  | whole _ digits =>
      generalize same : text = other at mantissa'
      cases mantissa' with
      | whole => rfl
      | pointed =>
          subst same
          exact absurd (List.mem_append_right _ List.mem_cons_self) (not_mem_of_isDigit digits point)
  | @pointed front back _ digits =>
      generalize same : front ++ '.' :: back = other at mantissa'
      cases mantissa' with
      | whole _ digits' =>
          subst same
          exact absurd (List.mem_append_right _ List.mem_cons_self) (not_mem_of_isDigit digits' point)
      | @pointed front' back' _ digits' =>
          have none := not_mem_of_isDigit digits point
          rw [List.mem_append, not_or] at none
          obtain ⟨rfl, _, rfl⟩ := (List.append_cons_inj_of_notMem none.1 none.2).mp same
          rfl

theorem Writes.unique (writes : Writes text x) (writes' : Writes text x') : x = x' := by
  obtain ⟨front, back, m, e, rfl, mantissa, exponent, rfl⟩ := writes
  obtain ⟨front', back', m', e', same, mantissa', exponent', rfl⟩ := writes'
  have letter {text : List Char} {m : ℚ} (mantissa : Mantissa text m) : 'e' ∉ text := by
    intro present
    rcases mantissa.isDigit_or_point 'e' present with digit | point
    · cases digit
    · cases point
  have parts : front = front' ∧ e = e' := by
    cases exponent with
    | none =>
        rw [List.append_nil] at same
        cases exponent' with
        | none => exact ⟨same.trans (List.append_nil _), rfl⟩
        | some =>
            subst same
            exact absurd (List.mem_append_right _ List.mem_cons_self) (letter mantissa)
    | some =>
        cases exponent' with
        | none =>
            rw [List.append_nil] at same
            subst same
            exact absurd (List.mem_append_right _ List.mem_cons_self) (letter mantissa')
        | some e' =>
            have none := not_mem_intRepr (c := 'e') rfl (by decide) e
            obtain ⟨fronts, _, reprs⟩ := (List.append_cons_inj_of_notMem (letter mantissa) none).mp same
            exact ⟨fronts, Int.repr_inj.mp (String.toList_inj.mp reprs)⟩
  obtain ⟨rfl, rfl⟩ := parts
  rw [mantissa.unique mantissa']

end Reading

theorem Mantissa.writes {text : List Char} {m : ℚ} (mantissa : Mantissa text m) : Writes text m :=
  ⟨text, [], m, 0, (List.append_nil text).symm, mantissa, .none, by simp⟩

section Layouts

variable {d : DecimalNumber} {front : List Char} (shown : d.digits.repr.toList = front)

include shown

theorem front_spec : (∀ c ∈ front, c.isDigit) ∧ Nat.ofDigitChars 10 front 0 = d.digits ∧ 0 < front.length := by
  subst shown
  exact ⟨isDigit_of_mem_repr, ofDigitChars_repr d.digits, List.length_pos_iff.mpr (repr_ne_nil d.digits)⟩

theorem writes_whole {k : Nat} (exponent : d.exponent = k) :
    Writes (d.digits.repr ++ Layout.zeros k ++ ".0").toList d.value := by
  obtain ⟨digits, number, some⟩ := front_spec shown
  have all : ∀ c ∈ (front ++ List.replicate k '0') ++ ['0'], c.isDigit := by
    rw [List.forall_mem_append, List.forall_mem_append]
    exact ⟨⟨digits, isDigit_zeros k⟩, isDigit_zeros 1⟩
  have mantissa := Mantissa.pointed (List.append_ne_nil_of_left_ne_nil (List.length_pos_iff.mp some) _) all
  have value : (Nat.ofDigitChars 10 ((front ++ List.replicate k '0') ++ ['0']) 0 : ℚ) * 10 ^ (-(['0'].length : Int)) =
      d.value := by
    rw [Nat.ofDigitChars_append, Nat.ofDigitChars_append, number, Nat.ofDigitChars_replicate_zero,
      DecimalNumber.value, exponent]
    simp [Nat.ofDigitChars]
    ring
  have text : (d.digits.repr ++ Layout.zeros k ++ ".0").toList = (front ++ List.replicate k '0') ++ '.' :: ['0'] := by
    simp [Layout.zeros, shown]
  rw [text, ← value]
  exact mantissa.writes

/-- The point after the first `k` digits. -/
theorem mantissa_cut {k : Nat} (first : 0 < k) :
    Mantissa (front.take k ++ '.' :: front.drop k) (d.digits * 10 ^ (-((front.length - k : Nat) : Int))) := by
  obtain ⟨digits, number, some⟩ := front_spec shown
  have all : ∀ c ∈ front.take k ++ front.drop k, c.isDigit := by
    rw [List.take_append_drop]
    exact digits
  have before : front.take k ≠ [] := by
    rw [← List.length_pos_iff, List.length_take]
    omega
  have mantissa := Mantissa.pointed before all
  rwa [List.take_append_drop, number, List.length_drop] at mantissa

theorem writes_cut {k : Nat} (first : 0 < k) (point : front.length + d.exponent = k) (fraction : d.exponent < 0) :
    Writes ((d.digits.repr.take k).toString ++ "." ++ (d.digits.repr.drop k).toString).toList d.value := by
  have mantissa := mantissa_cut shown first
  have places : -((front.length - k : Nat) : Int) = d.exponent := by omega
  rw [places] at mantissa
  have text : ((d.digits.repr.take k).toString ++ "." ++ (d.digits.repr.drop k).toString).toList =
      front.take k ++ '.' :: front.drop k := by
    simp [shown]
  rw [text]
  exact mantissa.writes

theorem writes_below_one {k : Nat} (point : front.length + d.exponent = -k) :
    Writes ("0." ++ Layout.zeros k ++ d.digits.repr).toList d.value := by
  obtain ⟨digits, number, some⟩ := front_spec shown
  have all : ∀ c ∈ ['0'] ++ (List.replicate k '0' ++ front), c.isDigit := by
    rw [List.forall_mem_append, List.forall_mem_append]
    exact ⟨isDigit_zeros 1, isDigit_zeros k, digits⟩
  have mantissa := Mantissa.pointed (List.cons_ne_nil _ _) all
  have places : -((List.replicate k '0' ++ front).length : Int) = d.exponent := by
    rw [List.length_append, List.length_replicate]
    omega
  have leading : Nat.ofDigitChars 10 (['0'] ++ (List.replicate k '0' ++ front)) 0 = d.digits := by
    rw [Nat.ofDigitChars_append, Nat.ofDigitChars_append, Nat.ofDigitChars_replicate_zero, ← number]
    simp [Nat.ofDigitChars]
  have text : ("0." ++ Layout.zeros k ++ d.digits.repr).toList =
      ['0'] ++ '.' :: (List.replicate k '0' ++ front) := by
    simp [Layout.zeros, shown]
  rw [leading, places] at mantissa
  rw [text]
  exact mantissa.writes

theorem writes_positional : Writes (Layout.marked.positional d.digits.repr d.exponent).toList d.value := by
  rw [Layout.positional, ← String.length_toList, shown]
  split
  · rename_i whole
    obtain ⟨k, exponent⟩ := Int.eq_ofNat_of_zero_le whole
    rw [exponent]
    exact writes_whole shown exponent
  · split
    · rename_i inside
      obtain ⟨k, point⟩ := Int.eq_ofNat_of_zero_le inside.le
      rw [point]
      exact writes_cut shown (by omega) point (by omega)
    · rename_i outside
      obtain ⟨k, point⟩ := Int.eq_ofNat_of_zero_le (show 0 ≤ -((front.length : Int) + d.exponent) by omega)
      rw [point]
      exact writes_below_one shown (by omega)

theorem mantissa_first :
    Mantissa (if front.length = 1 then front else front.take 1 ++ '.' :: front.drop 1)
      (d.digits * 10 ^ (-((front.length - 1 : Nat) : Int))) := by
  obtain ⟨digits, number, some⟩ := front_spec shown
  split
  · rename_i single
    have mantissa := Mantissa.whole (List.length_pos_iff.mp some) digits
    rw [number] at mantissa
    rw [single]
    simpa using mantissa
  · exact mantissa_cut shown (by decide)

theorem toList_scientific (e : Int) :
    (Layout.scientific d.digits.repr e).toList =
      (if front.length = 1 then front else front.take 1 ++ '.' :: front.drop 1) ++ 'e' :: e.repr.toList := by
  rw [Layout.scientific, ← String.length_toList, shown]
  split
  · rename_i single
    simp [shown, List.take_of_length_le single.le]
  · simp [shown]

theorem writes_scientific :
    Writes (Layout.scientific d.digits.repr ((front.length : Int) - 1 + d.exponent)).toList d.value := by
  obtain ⟨digits, number, some⟩ := front_spec shown
  have value : d.value =
      d.digits * 10 ^ (-((front.length - 1 : Nat) : Int)) * 10 ^ ((front.length : Int) - 1 + d.exponent) := by
    rw [mul_assoc, ← zpow_add₀ (by norm_num), DecimalNumber.value]
    congr 2
    omega
  exact ⟨_, _, _, _, toList_scientific shown _, mantissa_first shown, .some _, value⟩

end Layouts

theorem writes_unsigned (d : DecimalNumber) : Writes (Layout.marked.unsigned d).toList d.value := by
  rw [Layout.unsigned]
  split
  · exact writes_positional rfl
  · exact writes_scientific rfl

theorem Mantissa.head_isDigit {text : List Char} {m : ℚ} (mantissa : Mantissa text m) :
    ∃ c rest, text = c :: rest ∧ c.isDigit := by
  cases mantissa with
  | whole some digits =>
      obtain ⟨c, rest, rfl⟩ := List.exists_cons_of_ne_nil some
      exact ⟨c, rest, rfl, digits c List.mem_cons_self⟩
  | pointed some digits =>
      obtain ⟨c, rest, rfl⟩ := List.exists_cons_of_ne_nil some
      exact ⟨c, _, rfl, digits c List.mem_cons_self⟩

theorem Writes.head_isDigit {text : List Char} {x : ℚ} (writes : Writes text x) :
    ∃ c rest, text = c :: rest ∧ c.isDigit := by
  obtain ⟨_, exponent, _, _, rfl, mantissa, _, _⟩ := writes
  obtain ⟨c, rest, rfl, digit⟩ := mantissa.head_isDigit
  exact ⟨c, rest ++ exponent, rfl, digit⟩

theorem Writes.comma_not_mem {text : List Char} {x : ℚ} (writes : Writes text x) : ',' ∉ text := by
  obtain ⟨_, exponent, _, _, rfl, mantissa, exponents, _⟩ := writes
  rw [List.mem_append, not_or]
  constructor
  · intro present
    rcases mantissa.isDigit_or_point ',' present with digit | point
    · cases digit
    · cases point
  · cases exponents with
    | none => exact List.not_mem_nil
    | some =>
        rw [List.mem_cons, not_or]
        exact ⟨by decide, not_mem_intRepr rfl (by decide) _⟩

section Signed

open BinaryFormat RoundingInterval

variable {negative negative' : Bool} {f : BinaryFormat} {m m' : Nat} {e e' : Int} {first first' : Bool}

def signed (negative : Bool) (body : List Char) : List Char := if negative then '-' :: body else body

theorem signed_inj {body body' : List Char} {c c' : Char} {rest rest' : List Char} (head : body = c :: rest)
    (head' : body' = c' :: rest') (unsigned : c ≠ '-') (unsigned' : c' ≠ '-')
    (same : signed negative body = signed negative' body') : negative = negative' ∧ body = body' := by
  subst head head'
  cases negative <;> cases negative'
  · exact ⟨rfl, same⟩
  · exact absurd (List.cons.inj same).1 unsigned
  · exact absurd (List.cons.inj same).1.symm unsigned'
  · exact ⟨rfl, (List.cons.inj same).2⟩

/-- What stands behind the sign. -/
def body : BinaryValue → List Char
  | .notANumber => ['N', 'a', 'N']
  | .infinite _ => ['i', 'n', 'f']
  | .finite _ m e first => (if m = 0 then "0.0" else Layout.marked.unsigned (shortest m e first)).toList

def isNegative : BinaryValue → Bool
  | .notANumber => false
  | .infinite negative => negative
  | .finite negative _ _ _ => negative

theorem toList_text (v : BinaryValue) : (Layout.marked.text v).toList = signed (isNegative v) (body v) := by
  cases v with
  | notANumber => rfl
  | infinite negative => cases negative <;> rfl
  | finite negative m e first => cases negative <;> simp [Layout.text, signed, isNegative, body, Layout.marked]

/-- The decimal that is written for a number of the format rounds to it. -/
theorem writes_body (negative : Bool) (represents : f.Represents m e first) (legible : f.Legible) :
    ∃ x, Writes (body (.finite negative m e first)) x ∧ (around m e first).Contains x := by
  rw [body]
  split
  · rename_i zero
    subst zero
    have mantissa : Mantissa (['0'] ++ '.' :: ['0']) _ := .pointed (List.cons_ne_nil _ _) (isDigit_zeros 2)
    refine ⟨_, mantissa.writes, ?_⟩
    rw [show Nat.ofDigitChars 10 (['0'] ++ ['0']) 0 = 0 by decide, Nat.cast_zero, zero_mul]
    exact represents.contains_zero
  · rename_i some
    exact ⟨_, writes_unsigned _,
      (holds_iff _ _).mp (represents.holds_shortest legible (Nat.pos_of_ne_zero some))⟩

variable {word word' : Nat}

theorem isDigit_of_body {c : Char} {rest : List Char} (legible : f.Legible)
    (read : BinaryValue.ofBits f word = .finite negative m e first)
    (shown : body (.finite negative m e first) = c :: rest) : c.isDigit := by
  obtain ⟨x, writes, _⟩ := writes_body negative (represents_of_ofBits read) legible
  obtain ⟨d, _, text, digit⟩ := writes.head_isDigit
  rw [shown] at text
  rw [(List.cons.inj text).1]
  exact digit

theorem body_head {v : BinaryValue} (legible : f.Legible) (read : BinaryValue.ofBits f word = v) :
    ∃ c rest, body v = c :: rest ∧ c ≠ '-' := by
  cases v with
  | notANumber => exact ⟨_, _, rfl, by decide⟩
  | infinite => exact ⟨_, _, rfl, by decide⟩
  | finite negative m e first =>
      obtain ⟨x, writes, _⟩ := writes_body negative (represents_of_ofBits read) legible
      obtain ⟨c, rest, shown, digit⟩ := writes.head_isDigit
      refine ⟨c, rest, shown, ?_⟩
      rintro rfl
      cases digit

theorem comma_not_mem_text {v : BinaryValue} (legible : f.Legible) (read : BinaryValue.ofBits f word = v) :
    ',' ∉ (Layout.marked.text v).toList := by
  have unsigned : ',' ∉ body v := by
    cases v with
    | notANumber => decide
    | infinite => exact show ',' ∉ ['i', 'n', 'f'] by decide
    | finite negative m e first =>
        obtain ⟨x, writes, _⟩ := writes_body negative (represents_of_ofBits read) legible
        exact writes.comma_not_mem
  rw [toList_text, signed]
  split
  · rw [List.mem_cons, not_or]
    exact ⟨by decide, unsigned⟩
  · exact unsigned

/-- Values with one text are one value. Only what is not a number is the value of several words. -/
theorem eq_of_text {v v' : BinaryValue} (legible : f.Legible) (read : BinaryValue.ofBits f word = v)
    (read' : BinaryValue.ofBits f word' = v') (same : Layout.marked.text v = Layout.marked.text v') : v = v' := by
  have listed := congrArg String.toList same
  rw [toList_text, toList_text] at listed
  obtain ⟨c, rest, head, unsigned⟩ := body_head legible read
  obtain ⟨c', rest', head', unsigned'⟩ := body_head legible read'
  obtain ⟨sign, bodies⟩ := signed_inj head head' unsigned unsigned' listed
  cases v with
  | notANumber =>
      cases v' with
      | notANumber => rfl
      | infinite => cases bodies
      | finite => cases isDigit_of_body legible read' bodies.symm
  | infinite =>
      cases v' with
      | notANumber => cases bodies
      | infinite => exact congrArg _ sign
      | finite => cases isDigit_of_body legible read' bodies.symm
  | finite negative m e first =>
      cases v' with
      | notANumber => cases isDigit_of_body legible read bodies
      | infinite => cases isDigit_of_body legible read bodies
      | finite negative' m' e' first' =>
          have lower := represents_of_ofBits read
          have upper := represents_of_ofBits read'
          obtain ⟨x, writes, inside⟩ := writes_body negative lower legible
          obtain ⟨x', writes', inside'⟩ := writes_body negative' upper legible
          rw [bodies] at writes
          rw [← writes.unique writes'] at inside'
          obtain ⟨rfl, rfl, rfl⟩ := eq_of_contains lower upper inside inside'
          obtain rfl : negative = negative' := sign
          rfl

end Signed

/-- The sign, the exponent and the fraction make the word. -/
theorem word_eq {h x word word' : Nat} (fractions : word % h = word' % h) (exponents : word / h % x = word' / h % x)
    (signs : word / (h * x) % 2 = word' / (h * x) % 2) (small : word < h * x * 2) (small' : word' < h * x * 2) :
    word = word' := by
  have top {word : Nat} (small : word < h * x * 2) : word / (h * x) % 2 = word / (h * x) :=
    Nat.mod_eq_of_lt (Nat.div_lt_of_lt_mul small)
  rw [top small, top small', ← Nat.div_div_eq_div_mul, ← Nat.div_div_eq_div_mul] at signs
  rw [← Nat.div_add_mod word h, ← Nat.div_add_mod word' h, fractions, ← Nat.div_add_mod (word / h) x,
    ← Nat.div_add_mod (word' / h) x, exponents, signs]

theorem sign_eq {a b : Nat} (same : decide (a % 2 = 1) = decide (b % 2 = 1)) : a % 2 = b % 2 := by
  have first := Nat.mod_two_eq_zero_or_one a
  have second := Nat.mod_two_eq_zero_or_one b
  rw [decide_eq_decide] at same
  omega

section Words

variable {f : BinaryFormat} {negative negative' : Bool} {biased biased' fraction fraction' : Nat}

/-- The number with the given parts of its word. -/
def BinaryValue.ofParts (f : BinaryFormat) (negative : Bool) (biased fraction : Nat) : BinaryValue :=
  if biased = Nat.pow 2 f.exponentBits - 1 then
    if fraction = 0 then .infinite negative else .notANumber
  else if biased = 0 then .finite negative fraction f.leastExponent false
  else .finite negative (Nat.pow 2 f.fractionBits + fraction) (f.leastExponent + (biased - 1))
    (fraction = 0 && 1 < biased)

def BinaryValue.parts (f : BinaryFormat) : BinaryValue → Bool × Nat × Nat
  | .notANumber => (false, 0, 0)
  | .infinite negative => (negative, Nat.pow 2 f.exponentBits - 1, 0)
  | .finite negative m e _ =>
    if m < Nat.pow 2 f.fractionBits then (negative, 0, m)
    else (negative, (e - f.leastExponent + 1).toNat, m - Nat.pow 2 f.fractionBits)

theorem BinaryValue.parts_ofParts (fits : fraction < Nat.pow 2 f.fractionBits)
    (number : ofParts f negative biased fraction ≠ .notANumber) :
    parts f (ofParts f negative biased fraction) = (negative, biased, fraction) := by
  rw [ofParts] at number ⊢
  split
  · rename_i top
    rw [if_pos top] at number
    split
    · rename_i zero
      rw [parts, top, zero]
    · rename_i some
      exact absurd (if_neg some) number
  · split
    · rename_i zero
      rw [parts, if_pos fits, zero]
    · have exponent : (f.leastExponent + ((biased : Int) - 1) - f.leastExponent + 1).toNat = biased := by omega
      rw [parts, if_neg (Nat.not_lt.mpr (Nat.le_add_right _ _)), Nat.add_sub_cancel_left, exponent]

theorem BinaryValue.ofBits_injective {word word' : Nat}
    (small : word < Nat.pow 2 f.fractionBits * Nat.pow 2 f.exponentBits * 2)
    (small' : word' < Nat.pow 2 f.fractionBits * Nat.pow 2 f.exponentBits * 2) (number : ofBits f word ≠ .notANumber)
    (same : ofBits f word = ofBits f word') : word = word' := by
  have part (word : Nat) : word % Nat.pow 2 f.fractionBits < Nat.pow 2 f.fractionBits :=
    Nat.mod_lt _ (Nat.pow_pos (by decide))
  have fields := parts_ofParts (part word) number
  have fields' := parts_ofParts (part word') (fun none => number (same.trans none))
  change parts f (ofBits f word) = _ at fields
  change parts f (ofBits f word') = _ at fields'
  rw [same, fields', Prod.mk.injEq, Prod.mk.injEq] at fields
  exact word_eq fields.2.2.symm fields.2.1.symm (sign_eq fields.1.symm) small small'

end Words

end IndexNotation.Decimal
