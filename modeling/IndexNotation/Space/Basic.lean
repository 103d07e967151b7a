/-!
The spaces that tensors live in: based vector spaces, and the products, powers, sums and diagonals
built from them. Duality, the factor views and equality are here; a space's dimension and its index
maps are in `Space.Dimension` and `Space.Index`.
-/
namespace IndexNotation

inductive Field where
  | real
  | complex
deriving DecidableEq

structure Basis where
  name : String
  isDual : Bool
deriving DecidableEq

namespace Basis

def standard : Basis := ⟨"standard", false⟩

def isStandard (b : Basis) : Bool := b.name == standard.name

def dual (b : Basis) : Basis := { b with isDual := !b.isDual }

@[simp] theorem dual_dual (b : Basis) : b.dual.dual = b := by simp [dual]

@[simp] theorem isStandard_dual (b : Basis) : b.dual.isStandard = b.isStandard := rfl

end Basis

/-- A vector space with a basis, so that its vectors are lists of `size` coordinates. -/
structure BasedSpace where
  field : Field
  size : Nat
  name : String
  isDual : Bool
  basis : Basis
deriving DecidableEq

namespace BasedSpace

def dual (v : BasedSpace) : BasedSpace := { v with isDual := !v.isDual, basis := v.basis.dual }

@[simp] theorem dual_dual (v : BasedSpace) : v.dual.dual = v := by simp [dual]

def standard (size : Nat) (name : String) : BasedSpace := ⟨.real, size, name, false, .standard⟩

end BasedSpace

inductive Space where
  | based (space : BasedSpace)
  | tensorProduct (factors : List Space)
  | tensorPower (order : Nat) (factor : Space)
  | symmetricPower (order : Nat) (factor : Space)
  | exteriorPower (order : Nat) (factor : Space)
  | directSum (summands : List Space)
  /-- The 2-tensors over `left` and `right` that vanish off the diagonal. -/
  | diagonal (left right : Space)

namespace Space

mutual

def decEq : (a b : Space) → Decidable (a = b)
  | .based a, .based b => decidable_of_iff (a = b) (by simp)
  | .tensorProduct a, .tensorProduct b =>
    match decEqAll a b with
    | isTrue same => isTrue (same ▸ rfl)
    | isFalse differ => isFalse fun same => differ (tensorProduct.inj same)
  | .tensorPower m a, .tensorPower n b =>
    match decEq a b with
    | isTrue same => decidable_of_iff (m = n) (by simp [same])
    | isFalse differ => isFalse fun same => differ (tensorPower.inj same).2
  | .symmetricPower m a, .symmetricPower n b =>
    match decEq a b with
    | isTrue same => decidable_of_iff (m = n) (by simp [same])
    | isFalse differ => isFalse fun same => differ (symmetricPower.inj same).2
  | .exteriorPower m a, .exteriorPower n b =>
    match decEq a b with
    | isTrue same => decidable_of_iff (m = n) (by simp [same])
    | isFalse differ => isFalse fun same => differ (exteriorPower.inj same).2
  | .directSum a, .directSum b =>
    match decEqAll a b with
    | isTrue same => isTrue (same ▸ rfl)
    | isFalse differ => isFalse fun same => differ (directSum.inj same)
  | .diagonal a b, .diagonal c d =>
    match decEq a c with
    | isFalse differ => isFalse fun same => differ (diagonal.inj same).1
    | isTrue left =>
      match decEq b d with
      | isTrue right => isTrue (left ▸ right ▸ rfl)
      | isFalse differ => isFalse fun same => differ (diagonal.inj same).2
  | .based _, .tensorProduct _ | .based _, .tensorPower .. | .based _, .symmetricPower ..
  | .based _, .exteriorPower .. | .based _, .directSum _ | .based _, .diagonal ..
  | .tensorProduct _, .based _ | .tensorProduct _, .tensorPower ..
  | .tensorProduct _, .symmetricPower .. | .tensorProduct _, .exteriorPower ..
  | .tensorProduct _, .directSum _ | .tensorProduct _, .diagonal ..
  | .tensorPower .., .based _ | .tensorPower .., .tensorProduct _
  | .tensorPower .., .symmetricPower .. | .tensorPower .., .exteriorPower ..
  | .tensorPower .., .directSum _ | .tensorPower .., .diagonal ..
  | .symmetricPower .., .based _ | .symmetricPower .., .tensorProduct _
  | .symmetricPower .., .tensorPower .. | .symmetricPower .., .exteriorPower ..
  | .symmetricPower .., .directSum _ | .symmetricPower .., .diagonal ..
  | .exteriorPower .., .based _ | .exteriorPower .., .tensorProduct _
  | .exteriorPower .., .tensorPower .. | .exteriorPower .., .symmetricPower ..
  | .exteriorPower .., .directSum _ | .exteriorPower .., .diagonal ..
  | .directSum _, .based _ | .directSum _, .tensorProduct _ | .directSum _, .tensorPower ..
  | .directSum _, .symmetricPower .. | .directSum _, .exteriorPower ..
  | .directSum _, .diagonal ..
  | .diagonal .., .based _ | .diagonal .., .tensorProduct _ | .diagonal .., .tensorPower ..
  | .diagonal .., .symmetricPower .. | .diagonal .., .exteriorPower ..
  | .diagonal .., .directSum _ => isFalse (by simp)

def decEqAll : (as bs : List Space) → Decidable (as = bs)
  | [], [] => isTrue rfl
  | [], _ :: _ => isFalse (by simp)
  | _ :: _, [] => isFalse (by simp)
  | a :: as, b :: bs =>
    match decEq a b with
    | isFalse differ => isFalse fun same => differ (List.cons.inj same).1
    | isTrue head =>
      match decEqAll as bs with
      | isTrue tail => isTrue (head ▸ tail ▸ rfl)
      | isFalse differ => isFalse fun same => differ (List.cons.inj same).2

end

instance : DecidableEq Space := decEq

def standard (size : Nat) (name : String) : Space := .based (.standard size name)

mutual

def dual : Space → Space
  | .based v => .based v.dual
  | .tensorProduct factors => .tensorProduct (dualAll factors)
  | .tensorPower order factor => .tensorPower order (dual factor)
  | .symmetricPower order factor => .symmetricPower order (dual factor)
  | .exteriorPower order factor => .exteriorPower order (dual factor)
  | .directSum summands => .directSum (dualAll summands)
  | .diagonal left right => .diagonal (dual left) (dual right)

def dualAll : List Space → List Space
  | [] => []
  | s :: rest => dual s :: dualAll rest

end

theorem dualAll_eq_map (spaces : List Space) : dualAll spaces = spaces.map dual := by
  induction spaces with
  | nil => rfl
  | cons s rest ih => simp [dualAll, ih]

def pairsWith (s t : Space) : Bool := dual s == t

/-- The factors by which a tensor in this space can be indexed directly, one symbol each. -/
def tensorFactors : Space → Option (List Space)
  | .tensorProduct factors => some factors
  | .tensorPower order factor => some (List.replicate order factor)
  | _ => none

/-- The factors into which a single index over this space can be split. -/
def splitFactors : Space → Option (List Space)
  | .tensorProduct factors => some factors
  | .tensorPower order factor => some (List.replicate order factor)
  | .symmetricPower order factor => some (List.replicate order factor)
  | .exteriorPower order factor => some (List.replicate order factor)
  | .diagonal left right => some [left, right]
  | .based _ | .directSum _ => none

def summands : Space → Option (List Space)
  | .directSum summands => some summands
  | _ => none

mutual

/-- The factors left when nested tensor products and powers are expanded. -/
def flattened : Space → List Space
  | .tensorProduct factors => flattenedAll factors
  | .tensorPower order factor => (List.replicate order (flattened factor)).flatten
  | s => [s]

def flattenedAll : List Space → List Space
  | [] => []
  | s :: rest => flattened s ++ flattenedAll rest

end

mutual

def isEuclidean : Space → Bool
  | .based v => v.basis.isStandard
  | .tensorProduct factors => allEuclidean factors
  | .tensorPower _ factor => isEuclidean factor
  | .symmetricPower _ factor => isEuclidean factor
  | .exteriorPower _ factor => isEuclidean factor
  | .directSum summands => allEuclidean summands
  | .diagonal left right => isEuclidean left && isEuclidean right

def allEuclidean : List Space → Bool
  | [] => true
  | s :: rest => isEuclidean s && allEuclidean rest

end

theorem flattenedAll_eq_flatMap (spaces : List Space) :
    flattenedAll spaces = spaces.flatMap flattened := by
  induction spaces with
  | nil => rfl
  | cons s rest ih => simp [flattenedAll, ih]

theorem allEuclidean_eq_all (spaces : List Space) :
    allEuclidean spaces = spaces.all isEuclidean := by
  induction spaces with
  | nil => rfl
  | cons s rest ih => simp [allEuclidean, ih]

end Space

end IndexNotation
