import IndexNotation.Proofs.Expression.Regathering
import IndexNotation.Proofs.Space.Power
import Mathlib.GroupTheory.Perm.Fin

namespace IndexNotation

theorem Sign.ofExchanges_congr {m n : Nat} (same : (-1 : Int) ^ m = (-1) ^ n) :
    ofExchanges m = ofExchanges n := by
  have parity : Even m ↔ Even n := by
    rw [← neg_one_pow_eq_one_iff_even (R := Int) (by decide), same,
      neg_one_pow_eq_one_iff_even (by decide)]
  simp only [ofExchanges, ← Nat.even_iff, parity]

namespace Packed

/-- The sign of a pair of values: negative where it stands in increasing order, zero where it repeats a value. -/
def pairSign (x y : Nat) : Int := if x < y then -1 else if y < x then 1 else 0

theorem pairSign_comm (x y : Nat) : pairSign x y = -pairSign y x := by
  simp only [pairSign]
  rcases Nat.lt_trichotomy x y with less | equal | greater
  · simp [less, Nat.not_lt.mpr (Nat.le_of_lt less)]
  · simp [equal]
  · simp [greater, Nat.not_lt.mpr (Nat.le_of_lt greater)]

theorem neg_one_pow_countP {x : Nat} {rest : List Nat} (new : x ∉ rest) :
    (-1 : Int) ^ rest.countP (x < ·) = (rest.map (pairSign x)).prod := by
  induction rest with
  | nil => rfl
  | cons y rest ih =>
      rw [List.mem_cons, not_or] at new
      rw [List.countP_cons, List.map_cons, List.prod_cons, ← ih new.2, pow_add, mul_comm]
      apply congrArg (· * _)
      rcases Nat.lt_or_gt_of_ne new.1 with less | greater
      · simp [pairSign, less]
      · simp [pairSign, greater, Nat.not_lt.mpr (Nat.le_of_lt greater)]

section Permutation

variable {order : Nat} {w : Fin order → Nat}

theorem neg_one_pow_inversions (distinct : Function.Injective w) :
    (-1 : Int) ^ inversions (List.ofFn w) = ∏ i, ∏ j > i, pairSign (w i) (w j) := by
  induction order with
  | zero => simp [inversions]
  | succ order ih =>
      have new : w 0 ∉ List.ofFn fun i => w (Fin.succ i) := by
        rw [List.mem_ofFn]
        rintro ⟨i, same⟩
        exact Fin.succ_ne_zero i (distinct same)
      have rest := @ih (fun i => w (Fin.succ i)) (distinct.comp (Fin.succ_injective order))
      rw [List.ofFn_succ, inversions, pow_add, neg_one_pow_countP new, rest, List.map_ofFn, List.prod_ofFn,
        Fin.prod_univ_succ, Fin.prod_Ioi_zero]
      simp only [Fin.prod_Ioi_succ, Function.comp_apply]

theorem neg_one_pow_inversions_comp (distinct : Function.Injective w) (σ : Equiv.Perm (Fin order)) :
    (-1 : Int) ^ inversions (List.ofFn (w ∘ σ)) = σ.sign * (-1) ^ inversions (List.ofFn w) :=
  calc
    (-1 : Int) ^ inversions (List.ofFn (w ∘ σ)) = ∏ i, ∏ j > i, pairSign (w (σ i)) (w (σ j)) :=
      neg_one_pow_inversions (distinct.comp σ.injective)
    _ = σ.sign * ∏ i, ∏ j > i, pairSign (w i) (w j) :=
      σ.prod_Ioi_comp_eq_sign_mul_prod fun i j => pairSign_comm (w i) (w j)
    _ = σ.sign * (-1) ^ inversions (List.ofFn w) := by rw [neg_one_pow_inversions distinct]

theorem ofExchanges_comp (distinct : Function.Injective w) (σ : Equiv.Perm (Fin order)) :
    Sign.ofExchanges (inversions (List.ofFn (w ∘ σ))) =
      if σ.sign = 1 then Sign.ofExchanges (inversions (List.ofFn w))
      else (Sign.ofExchanges (inversions (List.ofFn w))).flip := by
  have whole := neg_one_pow_inversions_comp distinct σ
  rcases Int.units_eq_one_or σ.sign with even | odd
  · rw [if_pos even]
    apply Sign.ofExchanges_congr
    simpa [even] using whole
  · rw [if_neg (by rw [odd]; decide), Sign.flip_ofExchanges]
    apply Sign.ofExchanges_congr
    rw [pow_succ]
    simpa [odd] using whole

end Permutation

theorem sortDescending_congr {first second : List Nat} (permuted : first.Perm second) :
    (sortDescending first).1 = (sortDescending second).1 := by
  have sorted : (sortDescending first).1.Perm (sortDescending second).1 :=
    ((sortDescending_perm first).trans permuted).trans (sortDescending_perm second).symm
  exact sorted.eq_of_pairwise (fun _ _ _ _ large small => Nat.le_antisymm small large)
    (sortDescending_pairwise first) (sortDescending_pairwise second)

theorem symmetricFlat_congr {first second : List Nat} (permuted : first.Perm second) :
    symmetricFlat first = symmetricFlat second := by
  rw [symmetricFlat, symmetricFlat, permuted.length_eq, sortDescending_congr permuted]

theorem exteriorFlat_comp {order flat : Nat} {sign : Sign} {w : Fin order → Nat} (distinct : Function.Injective w)
    (σ : Equiv.Perm (Fin order)) (numbered : exteriorFlat (List.ofFn w) = .ok (some (flat, sign))) :
    exteriorFlat (List.ofFn (w ∘ σ)) = .ok (some (flat, if σ.sign = 1 then sign else sign.flip)) := by
  rw [exteriorFlat_of_nodup (List.nodup_ofFn.mpr distinct), sortDescending_snd] at numbered
  rcases bind_eq_ok_iff.mp numbered with ⟨number, counted, same⟩
  cases same
  rw [exteriorFlat_of_nodup (List.nodup_ofFn.mpr (distinct.comp σ.injective)), sortDescending_snd,
    ofExchanges_comp distinct, sortDescending_congr (σ.ofFn_comp_perm w), counted]
  rfl

end Packed

namespace Scalar

variable {α : Type} [Scalar α]

/-- Both fail alike, or both give a scalar, one of which is the negation of the other. -/
def Opposed : Except Fault α → Except Fault α → Prop
  | .ok x, .ok y => negate x = .ok y ∨ negate y = .ok x
  | .error fault, .error fault' => fault = fault'
  | .ok _, .error _ | .error _, .ok _ => False

theorem opposed_flip {outcome : Except Fault α} (total : ∀ x, outcome = .ok x → ∃ y, negate x = .ok y) (sign : Sign) :
    Opposed (outcome >>= fun x => sign.apply x) (outcome >>= fun x => sign.flip.apply x) := by
  cases outcome with
  | error fault => rfl
  | ok x =>
      rcases total x rfl with ⟨y, negated⟩
      have positive : Sign.positive.apply x = .ok x := rfl
      have negative : Sign.negative.apply x = .ok y := negated
      cases sign with
      | positive =>
          rw [ok_bind, ok_bind, positive, Sign.flip, negative]
          exact Or.inl negated
      | negative =>
          rw [ok_bind, ok_bind, negative, Sign.flip, positive]
          exact Or.inr negated

theorem Opposed.exists_val {R : Type} [CommRing R] (reading : Reading α R) {first second : Except Fault α} {x : α}
    (opposed : Opposed first second) (computed : first = .ok x) :
    ∃ y, second = .ok y ∧ reading.val y = -reading.val x := by
  subst computed
  cases second with
  | error fault => exact opposed.elim
  | ok y =>
      refine ⟨y, rfl, ?_⟩
      rcases opposed with negated | negated
      · exact Expression.val_negate reading negated
      · rw [Expression.val_negate reading negated, neg_neg]

end Scalar

namespace Expression

variable {α : Type} [Scalar α] {e r : Expression α} {p : Symbol} {c factor : Space} {symbols : IndexList}

omit [Scalar α] in
theorem stands_of_splitAt (distinct : e.freeSymbols.Nodup) (present : ⟨p, c⟩ ∈ e.free)
    (accepted : e.splitAt p symbols = .ok r) :
    ∃ position factors, e.free[position]? = some ⟨p, c⟩ ∧ c.reserveSplitFactors = .ok () ∧
      c.splitFactors = some factors ∧ symbols.length = factors.length ∧ symbols.Nodup ∧
      (∀ s ∈ symbols, e.mentions s = false) ∧
      r = split e (e.splitting position c symbols factors) := by
  rcases splitAt_eq_ok_iff.mp accepted with ⟨position, index, factors, found, stands, rest⟩
  rcases FreeIndex.getElem?_of_findIdx?_symbol found with ⟨other, there, named⟩
  cases stands.symm.trans there
  have here : index = ⟨p, c⟩ := FreeIndex.eq_of_symbol_eq distinct (List.mem_of_getElem? stands) present named
  subst here
  exact ⟨position, factors, stands, rest⟩

theorem componentWith_splitAt (distinct : e.freeSymbols.Nodup) (present : ⟨p, c⟩ ∈ e.free)
    (accepted : e.splitAt p symbols = .ok r) (values : Symbol → Nat) {tuple : List Nat}
    (length : tuple.length = symbols.length) :
    r.componentWith symbols values tuple =
      EvalM.ofExcept (c.bundleIndex tuple) >>=
        signed fun flat => e.component (e.freeSymbols.map (Function.update values p flat)) := by
  rcases stands_of_splitAt distinct present accepted with ⟨position, factors, stands, _, _, same, apart, new, rfl⟩
  rw [componentWith, component_splitting stands distinct same, IndexList.map_assign values apart length]
  apply bind_signed_congr
  intro flat _ _
  apply congrArg e.component
  apply List.map_congr_left
  intro s free
  by_cases here : s = p
  · rw [here, Function.update_self, Function.update_self]
  · have other : s ∉ symbols := fun given => (not_mem_of_mentions_eq_false (new s given)).1 free
    rw [Function.update_of_ne here, Function.update_of_ne here, IndexList.assign_of_notMem other]

section Permuted

variable {V : Space} {order n d : Nat} {w : Fin order → Nat}

/-- No component at a value of `p` below `d`, all other values fixed, overflows when it is negated. -/
def Negatable (e : Expression α) (p : Symbol) (values : Symbol → Nat) (d : Nat) (memory : Memory α)
    (scratch : Scratch α) : Prop :=
  ∀ flat < d, ∀ x, (e.component (e.freeSymbols.map (Function.update values p flat)) memory scratch).1 = .ok x →
    ∃ y, Scalar.negate x = .ok y

theorem signed_run (component : Nat → EvalM α α) (flat : Nat) (sign : Sign) (memory : Memory α) (scratch : Scratch α) :
    (signed component (some (flat, sign)) memory scratch).1 =
      (component flat memory scratch).1 >>= fun x => sign.apply x :=
  EvalM.bind_ofExcept_run (component flat) (fun x => sign.apply x) memory scratch

theorem exists_signed_run {component : Nat → EvalM α α} {flat : Nat} {memory : Memory α} {scratch : Scratch α} {x y : α}
    (computed : (component flat memory scratch).1 = .ok x) (negated : Scalar.negate x = .ok y) (sign : Sign) :
    ∃ z, (signed component (some (flat, sign)) memory scratch).1 = .ok z := by
  rw [signed_run, computed, ok_bind]
  cases sign with
  | positive => exact ⟨x, rfl⟩
  | negative => exact ⟨y, negated⟩

section Power

variable (distinct : e.freeSymbols.Nodup) (present : ⟨p, c⟩ ∈ e.free) (accepted : e.splitAt p symbols = .ok r)
  (power : c.IsPower order V)

include distinct present accepted power

theorem componentWith_ofFn (values : Symbol → Nat) (w : Fin order → Nat) :
    r.componentWith symbols values (List.ofFn w) =
      EvalM.ofExcept (c.bundleIndex (List.ofFn w)) >>=
        signed fun flat => e.component (e.freeSymbols.map (Function.update values p flat)) := by
  apply componentWith_splitAt distinct present accepted values
  rcases stands_of_splitAt distinct present accepted with ⟨_, factors, _, _, splits, same, _⟩
  cases power.splitFactors.symm.trans splits
  rw [List.length_ofFn, same, List.length_replicate]

theorem exists_componentWith_ofFn (sized : c.dimension = .ok d) (computed : V.dimension = .ok n)
    (values : Symbol → Nat) (below : ∀ i, w i < n) (nonzero : ¬ c.Vanishes (List.ofFn w)) :
    ∃ flat < d, ∃ sign, c.bundleIndex (List.ofFn w) = .ok (some (flat, sign)) ∧
      r.componentWith symbols values (List.ofFn w) =
        signed (fun flat => e.component (e.freeSymbols.map (Function.update values p flat))) (some (flat, sign)) := by
  have inside : RowMajor.Below (List.ofFn w) (List.replicate order n) :=
    RowMajor.below_replicate_iff.mpr ⟨List.length_ofFn, by simpa [List.mem_ofFn] using below⟩
  rcases stands_of_splitAt distinct present accepted with ⟨_, _, _, listed, _⟩
  have maps := power.exists_indexMaps sized computed (power.short_of_listed listed)
  rcases maps.bundles _ inside nonzero with ⟨flat, small, sign, bundled, _⟩
  refine ⟨flat, small, sign, bundled, ?_⟩
  rw [componentWith_ofFn distinct present accepted power values w, bundled, EvalM.ofExcept_ok, pure_bind]

end Power

theorem componentWith_symmetricPower_comp (distinct : e.freeSymbols.Nodup)
    (present : ⟨p, .symmetricPower order V⟩ ∈ e.free) (accepted : e.splitAt p symbols = .ok r)
    (values : Symbol → Nat) (σ : Equiv.Perm (Fin order)) :
    r.componentWith symbols values (List.ofFn (w ∘ σ)) = r.componentWith symbols values (List.ofFn w) := by
  rw [componentWith_ofFn distinct present accepted (Or.inl rfl), componentWith_ofFn distinct present accepted (Or.inl rfl),
    Space.bundleIndex, Space.bundleIndex, Packed.symmetricFlat_congr (σ.ofFn_comp_perm w)]

section Exterior

variable (distinct : e.freeSymbols.Nodup) (present : ⟨p, .exteriorPower order V⟩ ∈ e.free)
  (accepted : e.splitAt p symbols = .ok r) (values : Symbol → Nat)

include distinct present accepted

theorem componentWith_exteriorPower_eq_zero (repeats : ¬ Function.Injective w) :
    r.componentWith symbols values (List.ofFn w) = pure Scalar.zero := by
  have vanishes : (Space.exteriorPower order V).bundleIndex (List.ofFn w) = .ok none :=
    Packed.exteriorFlat_eq_none_iff.mpr (List.nodup_ofFn.not.mpr repeats)
  rw [componentWith_ofFn distinct present accepted (Or.inr rfl), vanishes]
  rfl

theorem componentWith_exteriorPower_comp {flat : Nat} {sign : Sign} (different : Function.Injective w)
    (bundled : (Space.exteriorPower order V).bundleIndex (List.ofFn w) = .ok (some (flat, sign)))
    (σ : Equiv.Perm (Fin order)) :
    r.componentWith symbols values (List.ofFn (w ∘ σ)) =
      signed (fun flat => e.component (e.freeSymbols.map (Function.update values p flat)))
        (some (flat, if σ.sign = 1 then sign else sign.flip)) := by
  have permuted : (Space.exteriorPower order V).bundleIndex (List.ofFn (w ∘ σ)) =
      .ok (some (flat, if σ.sign = 1 then sign else sign.flip)) := Packed.exteriorFlat_comp different σ bundled
  rw [componentWith_ofFn distinct present accepted (Or.inr rfl), permuted, EvalM.ofExcept_ok, pure_bind]

variable (sized : (Space.exteriorPower order V).dimension = .ok d) (computed : V.dimension = .ok n)
  (below : ∀ i, w i < n) {σ : Equiv.Perm (Fin order)}

include sized computed below

theorem componentWith_exteriorPower_even (even : σ.sign = 1) :
    r.componentWith symbols values (List.ofFn (w ∘ σ)) = r.componentWith symbols values (List.ofFn w) := by
  by_cases different : Function.Injective w
  · rcases exists_componentWith_ofFn distinct present accepted (Or.inr rfl) sized computed values below
      (not_not.mpr (List.nodup_ofFn.mpr different)) with ⟨flat, _, sign, bundled, read⟩
    rw [componentWith_exteriorPower_comp distinct present accepted values different bundled σ, if_pos even, read]
  · have repeats : ¬ Function.Injective (w ∘ σ) := (Equiv.injective_comp σ w).not.mpr different
    rw [componentWith_exteriorPower_eq_zero distinct present accepted values different,
      componentWith_exteriorPower_eq_zero distinct present accepted values repeats]

theorem componentWith_exteriorPower_odd {memory : Memory α} {scratch : Scratch α}
    (negatable : e.Negatable p values d memory scratch) (different : Function.Injective w) (odd : σ.sign = -1) :
    Scalar.Opposed (r.componentWith symbols values (List.ofFn w) memory scratch).1
      (r.componentWith symbols values (List.ofFn (w ∘ σ)) memory scratch).1 := by
  rcases exists_componentWith_ofFn distinct present accepted (Or.inr rfl) sized computed values below
    (not_not.mpr (List.nodup_ofFn.mpr different)) with ⟨flat, small, sign, bundled, read⟩
  rw [componentWith_exteriorPower_comp distinct present accepted values different bundled σ,
    if_neg (by rw [odd]; decide), read, signed_run, signed_run]
  exact Scalar.opposed_flip (negatable flat small) sign

theorem exists_val_componentWith_exteriorPower {memory : Memory α} {scratch : Scratch α} {R : Type} [CommRing R]
    (reading : Reading α R) (negatable : e.Negatable p values d memory scratch) {x : α}
    (outcome : (r.componentWith symbols values (List.ofFn w) memory scratch).1 = .ok x) (σ : Equiv.Perm (Fin order)) :
    ∃ y, (r.componentWith symbols values (List.ofFn (w ∘ σ)) memory scratch).1 = .ok y ∧
      reading.val y = (σ.sign : Int) * reading.val x := by
  rcases Int.units_eq_one_or σ.sign with even | odd
  · rw [componentWith_exteriorPower_even distinct present accepted values sized computed below even]
    exact ⟨x, outcome, by simp [even]⟩
  by_cases different : Function.Injective w
  · have opposed :=
      componentWith_exteriorPower_odd distinct present accepted values sized computed below negatable different odd
    rcases opposed.exists_val reading outcome with ⟨y, found, opposite⟩
    exact ⟨y, found, by simp [odd, opposite]⟩
  · have repeats : ¬ Function.Injective (w ∘ σ) := (Equiv.injective_comp σ w).not.mpr different
    rw [componentWith_exteriorPower_eq_zero distinct present accepted values different] at outcome
    cases outcome
    rw [componentWith_exteriorPower_eq_zero distinct present accepted values repeats]
    exact ⟨Scalar.zero, rfl, by rw [reading.val_zero, mul_zero]⟩

end Exterior

theorem exists_componentWith_power (distinct : e.freeSymbols.Nodup) (present : ⟨p, c⟩ ∈ e.free)
    (accepted : e.splitAt p symbols = .ok r) (power : c.IsPower order V) (sized : c.dimension = .ok d)
    (computed : V.dimension = .ok n) (values : Symbol → Nat) (below : ∀ i, w i < n) {memory : Memory α}
    {scratch : Scratch α} (negatable : e.Negatable p values d memory scratch)
    (total : ∀ flat < d, ∃ x,
      (e.component (e.freeSymbols.map (Function.update values p flat)) memory scratch).1 = .ok x) :
    ∃ x, (r.componentWith symbols values (List.ofFn w) memory scratch).1 = .ok x := by
  by_cases vanishes : c.Vanishes (List.ofFn w)
  · rcases power with rfl | rfl
    · exact vanishes.elim
    · have repeats : ¬ Function.Injective w := List.nodup_ofFn.not.mp vanishes
      rw [componentWith_exteriorPower_eq_zero distinct present accepted values repeats]
      exact ⟨Scalar.zero, rfl⟩
  · rcases exists_componentWith_ofFn distinct present accepted power sized computed values below vanishes with
      ⟨flat, small, sign, _, read⟩
    rcases total flat small with ⟨x, outcome⟩
    rcases negatable flat small x outcome with ⟨y, negated⟩
    rw [read]
    exact exists_signed_run outcome negated sign

/-- The components of a split of a symmetric or exterior power at values `w` in another order: those of a symmetric
power are the same, those of an exterior power are zero where a value repeats and otherwise take the sign of the
permutation, as long as no negation overflows. Where the operand has all its components, so has the split. -/
theorem componentWith_splitAt_comp (distinct : e.freeSymbols.Nodup) (present : ⟨p, c⟩ ∈ e.free)
    (sized : c.dimension = .ok d) (computed : V.dimension = .ok n) (accepted : e.splitAt p symbols = .ok r)
    (values : Symbol → Nat) (below : ∀ i, w i < n) (σ : Equiv.Perm (Fin order)) :
    (c = .symmetricPower order V →
      r.componentWith symbols values (List.ofFn (w ∘ σ)) = r.componentWith symbols values (List.ofFn w)) ∧
    (c = .exteriorPower order V →
      (¬ Function.Injective w → r.componentWith symbols values (List.ofFn w) = pure Scalar.zero) ∧
      (σ.sign = 1 →
        r.componentWith symbols values (List.ofFn (w ∘ σ)) = r.componentWith symbols values (List.ofFn w)) ∧
      ∀ memory scratch, e.Negatable p values d memory scratch →
        (Function.Injective w → σ.sign = -1 →
          Scalar.Opposed (r.componentWith symbols values (List.ofFn w) memory scratch).1
            (r.componentWith symbols values (List.ofFn (w ∘ σ)) memory scratch).1) ∧
        ∀ {R : Type} [CommRing R] (reading : Reading α R) x,
          (r.componentWith symbols values (List.ofFn w) memory scratch).1 = .ok x →
            ∃ y, (r.componentWith symbols values (List.ofFn (w ∘ σ)) memory scratch).1 = .ok y ∧
              reading.val y = (σ.sign : Int) * reading.val x) ∧
    (c.IsPower order V → ∀ memory scratch, e.Negatable p values d memory scratch →
      (∀ flat < d, ∃ x,
        (e.component (e.freeSymbols.map (Function.update values p flat)) memory scratch).1 = .ok x) →
      ∃ x, (r.componentWith symbols values (List.ofFn w) memory scratch).1 = .ok x) := by
  refine ⟨?symmetric, ?exterior, ?defined⟩
  case symmetric =>
    rintro rfl
    exact componentWith_symmetricPower_comp distinct present accepted values σ
  case exterior =>
    rintro rfl
    refine ⟨componentWith_exteriorPower_eq_zero distinct present accepted values,
      componentWith_exteriorPower_even distinct present accepted values sized computed below,
      fun memory scratch negatable => ⟨?opposed, ?signed⟩⟩
    case opposed =>
      exact componentWith_exteriorPower_odd distinct present accepted values sized computed below negatable
    case signed =>
      intro R _ reading x outcome
      exact exists_val_componentWith_exteriorPower distinct present accepted values sized computed below reading
        negatable outcome σ
  case defined =>
    intro power memory scratch negatable total
    exact exists_componentWith_power distinct present accepted power sized computed values below negatable total

end Permuted

theorem componentWith_splitAt_volume :
    ∃ e r : Expression (Bounded .signed32),
      Expression.index ⟨.exteriorPower 4 (.standard 4 "V"), .generated (.ofFunction "volume" 1 fun _ => Bounded.ofInt 7)⟩
        [.letter 'p'] = .ok e ∧
      e.splitAt (.letter 'p') [.letter 'i', .letter 'j', .letter 'k', .letter 'l'] = .ok r ∧
      (r.component [0, 1, 2, 3] .empty ⟨#[], #[]⟩).1 = .ok ⟨7, by decide⟩ ∧
      ∃ y, (r.component [1, 2, 3, 0] .empty ⟨#[], #[]⟩).1 = .ok y ∧ y.val = -7 := by
  let power : Space := .exteriorPower 4 (.standard 4 "V")
  let symbols : IndexList := [.letter 'i', .letter 'j', .letter 'k', .letter 'l']
  let w (i : Fin 4) : Nat := i
  rcases (⟨_, _, rfl, rfl, rfl, rfl, by decide, rfl, rfl⟩ :
    ∃ e r : Expression (Bounded .signed32),
      Expression.index ⟨power, .generated (.ofFunction "volume" 1 fun _ => Bounded.ofInt 7)⟩ [.letter 'p'] = .ok e ∧
      e.splitAt (.letter 'p') symbols = .ok r ∧ e.free = [⟨.letter 'p', power⟩] ∧ r.freeSymbols = symbols ∧
      e.freeSymbols.Nodup ∧ (e.component [0] .empty ⟨#[], #[]⟩).1 = .ok ⟨7, by decide⟩ ∧
      (r.component [0, 1, 2, 3] .empty ⟨#[], #[]⟩).1 = .ok ⟨7, by decide⟩) with
    ⟨e, r, made, split, free, named, distinct, seven, whole⟩
  have only : e.freeSymbols = [.letter 'p'] := by rw [freeSymbols, free]; rfl
  have negatable : e.Negatable (.letter 'p') (fun _ => 0) 1 .empty ⟨#[], #[]⟩ := by
    intro flat small x computed
    have least : flat = 0 := Nat.lt_one_iff.mp small
    rw [only, least, List.map_singleton, Function.update_self, seven] at computed
    cases computed
    exact ⟨⟨-7, by decide⟩, rfl⟩
  have odd : (finRotate 4).sign = -1 := by rw [sign_finRotate]; rfl
  have cycled : List.ofFn (w ∘ finRotate 4) = [1, 2, 3, 0] := by decide
  have read (tuple : List Nat) (length : tuple.length = symbols.length) :
      r.componentWith symbols (fun _ => 0) tuple = r.component tuple := by
    rw [componentWith, named, IndexList.map_assign _ (by decide) length]
  have permuted := componentWith_splitAt_comp distinct (by simp [free, power]) (c := power) (V := .standard 4 "V")
    rfl rfl split (fun _ => 0) (w := w) (fun i => i.isLt) (finRotate 4)
  rw [cycled, read [1, 2, 3, 0] rfl, show List.ofFn w = [0, 1, 2, 3] by decide, read [0, 1, 2, 3] rfl] at permuted
  rcases permuted.2.1 rfl with ⟨_, _, signed⟩
  rcases (signed .empty ⟨#[], #[]⟩ negatable).2 (Bounded.reading .signed32) ⟨7, by decide⟩ whole with ⟨y, found, value⟩
  refine ⟨e, r, made, split, whole, y, found, ?_⟩
  rw [odd] at value
  exact value

end Expression

end IndexNotation
