import IndexNotation.InnerProduct
import IndexNotation.Proofs.BlockDiagonal
import IndexNotation.Proofs.Components
import IndexNotation.Proofs.Expression.Materialized
import IndexNotation.Proofs.Scalar.Detail
import Mathlib
/-!
Where generators come from, and how far their ids tell them apart. An id names the kind of a generator and some of
what it was made from; generators with equal ids have equal components where they also agree in the rest.
-/
namespace IndexNotation

variable {α : Type}

section Text

/-- Text is cut at its last `c` in one way. -/
theorem append_cons_inj {xs ys ds es : List Char} {c : Char} (absent : c ∉ ds) (absent' : c ∉ es)
    (same : xs ++ c :: ds = ys ++ c :: es) : xs = ys ∧ ds = es := by
  have nothing {between front back : List Char} (missing : c ∉ front)
      (tail : c :: front = between ++ c :: back) : between = [] := by
    cases between with
    | nil => rfl
    | cons d between =>
        have inside := (List.cons.inj tail).2
        exact absurd (inside ▸ List.mem_append_right between List.mem_cons_self) missing
  rcases List.append_eq_append_iff.mp same with ⟨between, rfl, tail⟩ | ⟨between, rfl, tail⟩
  · cases nothing absent tail
    exact ⟨(List.append_nil xs).symm, (List.cons.inj tail).2⟩
  · cases nothing absent' tail
    exact ⟨List.append_nil ys, (List.cons.inj tail).2.symm⟩

theorem Text.toList_applied (name text : String) :
    (applied name [text]).toList = (name.toList ++ '(' :: text.toList) ++ [')'] := by
  simp [applied]

theorem Text.applied_inj {name text text' : String} (same : applied name [text] = applied name [text']) :
    text = text' := by
  have listed := congrArg String.toList same
  rw [toList_applied, toList_applied, List.append_left_inj, List.append_right_inj] at listed
  exact String.toList_inj.mp (List.cons.inj listed).2

end Text

def Generator.shift (g : Generator α) (offset count : Nat) : Generator α where
  id := g.id ++ "[" ++ toString offset ++ "..]"
  dimension := count
  evaluator index := do g.evaluate (← CountM.ofExcept (Size.add offset index))
  steady _ := (CountM.steady_ofExcept _).bind fun _ => g.steady_evaluate _

inductive Origin (α : Type) where
  | zero (dimension : Nat)
  | constant (dimension : Nat) (x : α)
  | characteristic (dimension k : Nat)
  | identity (n : Nat)
  | snapshot (serial : Nat)
  | innerProduct (space : Space)
  | blockDiagonal (blocks : List (Space × Generator α))
  | window (base : Origin α) (offset count : Nat)

namespace Origin

def mark : Origin α → List Char
  | zero _ => ['z', 'e']
  | constant _ _ => ['c', 'o']
  | characteristic _ _ => ['c', 'h']
  | identity _ => ['i', 'd']
  | snapshot _ => ['s', 'n']
  | innerProduct _ => ['i', 'n']
  | blockDiagonal _ => ['d', 'i']
  | window base _ _ => base.mark

theorem length_mark (o : Origin α) : o.mark.length = 2 := by
  induction o with
  | window _ _ _ ih => exact ih
  | _ => rfl

def isWindow : Origin α → Bool
  | window _ _ _ => true
  | _ => false

theorem toList_shift (g : Generator α) (offset count : Nat) :
    (g.shift offset count).id.toList = (g.id.toList ++ '[' :: offset.repr.toList) ++ "..]".toList := by
  simp [Generator.shift]

theorem shift_id_inj {g h : Generator α} {offset offset' count count' : Nat}
    (same : (g.shift offset count).id = (h.shift offset' count').id) : g.id = h.id ∧ offset = offset' := by
  have listed := congrArg String.toList same
  rw [toList_shift, toList_shift, List.append_left_inj] at listed
  have bracket (n : Nat) : '[' ∉ n.repr.toList := Decimal.not_mem_repr rfl n
  rcases append_cons_inj (bracket offset) (bracket offset') listed with ⟨base, number⟩
  exact ⟨String.toList_inj.mp base, Nat.repr_inj.mp (String.toList_inj.mp number)⟩

variable [Scalar α]

/-- `g` is made as told. The snapshot of each number is a copy of the values that stand there in `taken`. -/
inductive Makes (taken : List (Array α)) : Origin α → Generator α → Prop
  | zero (dimension : Nat) : Makes taken (.zero dimension) (.zero dimension)
  | constant (dimension : Nat) (x : α) : Makes taken (.constant dimension x) (.constant dimension x)
  | characteristic (dimension k : Nat) :
      Makes taken (.characteristic dimension k) (.characteristic dimension k)
  | identity {n : Nat} {g : Generator α} : Generator.identity n = .ok g → Makes taken (.identity n) g
  | snapshot {serial : Nat} {values : Array α} :
      taken[serial]? = some values → Makes taken (.snapshot serial) (.snapshot serial values)
  | innerProduct {space : Space} {g : Generator α} :
      InnerProduct.generator space = .ok g → Makes taken (.innerProduct space) g
  | blockDiagonal {blocks : List (Space × Generator α)} {t : Tensor α} {g : Generator α} :
      DirectSum.blockDiagonal blocks = .ok t → t.generator? = some g → Makes taken (.blockDiagonal blocks) g
  | window {base : Origin α} {g : Generator α} {offset count : Nat} :
      Makes taken base g → offset + count ≤ g.dimension →
        Makes taken (.window base offset count) (g.shift offset count)

variable {taken : List (Array α)} {o o' : Origin α} {g h : Generator α}

theorem Makes.mono (made : o.Makes taken g) (more : List (Array α)) : o.Makes (taken ++ more) g := by
  induction made with
  | zero dimension => exact .zero dimension
  | constant dimension x => exact .constant dimension x
  | characteristic dimension k => exact .characteristic dimension k
  | identity generated => exact .identity generated
  | snapshot stands =>
      rcases List.getElem?_eq_some_iff.mp stands with ⟨inside, _⟩
      exact .snapshot ((List.getElem?_append_left inside).trans stands)
  | innerProduct generated => exact .innerProduct generated
  | blockDiagonal accepted kept => exact .blockDiagonal accepted kept
  | window _ within ih => exact .window ih within

section Ids

theorem identity_eq_ok {n : Nat} (made : Generator.identity n = .ok g) :
    g.id = "identity" ∧ g.dimension = n * n := by
  rcases bind_eq_ok_iff.mp made with ⟨d, squared, done⟩
  cases done
  exact ⟨rfl, (Size.mul_eq_ok_iff.mp squared).1.symm⟩

theorem id_of_innerProduct {space : Space} (made : InnerProduct.generator space = .ok g) :
    g.id = Text.applied "inner_product" [space.text] := by
  rcases bind_eq_ok_iff.mp made with ⟨_, _, rest⟩
  rcases bind_eq_ok_iff.mp rest with ⟨_, _, done⟩
  cases done
  rfl

theorem id_of_blockDiagonal {blocks : List (Space × Generator α)} {t : Tensor α}
    (made : DirectSum.blockDiagonal blocks = .ok t) (kept : t.generator? = some g) :
    g.id = Text.applied "direct_sum_of_2tensors" [t.space.text] := by
  rcases bind_eq_ok_iff.mp made with ⟨_, _, rest⟩
  rcases bind_eq_ok_iff.mp rest with ⟨_, _, rest⟩
  rcases bind_eq_ok_iff.mp rest with ⟨_, _, rest⟩
  rcases Tensor.ofComponents_eq_ok rest with ⟨_, rfl⟩
  cases kept
  rfl

theorem Makes.mark_eq (made : o.Makes taken g) : g.id.toList.take 2 = o.mark := by
  induction made with
  | zero dimension => simp [Generator.zero, Generator.ofFunction, mark]
  | constant dimension x => simp [Generator.constant, Generator.ofFunction, Text.toList_applied, mark]
  | characteristic dimension k => simp [Generator.characteristic, Generator.ofFunction, Text.toList_applied, mark]
  | identity generated => simp [(identity_eq_ok generated).1, mark]
  | snapshot stands => simp [Generator.snapshot, Generator.ofFunction, mark]
  | innerProduct generated => simp [id_of_innerProduct generated, Text.toList_applied, mark]
  | blockDiagonal accepted kept => simp [id_of_blockDiagonal accepted kept, Text.toList_applied, mark]
  | @window base g offset count _ _ ih =>
      have long : 2 ≤ g.id.toList.length := by
        rw [← length_mark base, ← ih, List.length_take]
        exact Nat.min_le_right 2 _
      rw [toList_shift, List.append_assoc, List.take_append_of_le_length long]
      exact ih

theorem Makes.getLast_eq_iff (made : o.Makes taken g) : g.id.toList.getLast? = some ']' ↔ o.isWindow := by
  have parenthesis {text : String} (name inside : String) (same : text = Text.applied name [inside]) :
      text.toList.getLast? ≠ some ']' := by
    rw [same, Text.toList_applied, List.getLast?_concat]
    decide
  cases made with
  | zero dimension => simp [Generator.zero, Generator.ofFunction, isWindow]
  | constant dimension x => exact iff_of_false (parenthesis _ _ rfl) Bool.false_ne_true
  | characteristic dimension k => exact iff_of_false (parenthesis _ _ rfl) Bool.false_ne_true
  | identity generated => simp [(identity_eq_ok generated).1, isWindow]
  | @snapshot serial values stands =>
      refine iff_of_false ?_ Bool.false_ne_true
      have listed : (Generator.snapshot serial values).id.toList = "snapshot#".toList ++ serial.repr.toList :=
        String.toList_append
      have digits : serial.repr.toList ≠ [] := by simp
      rw [listed, List.getLast?_append_of_ne_nil _ digits]
      intro last
      exact Decimal.not_mem_repr rfl serial (List.mem_of_getLast? last)
  | innerProduct generated => exact iff_of_false (parenthesis _ _ (id_of_innerProduct generated)) Bool.false_ne_true
  | blockDiagonal accepted kept =>
      exact iff_of_false (parenthesis _ _ (id_of_blockDiagonal accepted kept)) Bool.false_ne_true
  | @window base g offset count _ _ =>
      refine iff_of_true ?_ rfl
      rw [toList_shift, List.getLast?_append_of_ne_nil _ (by decide)]
      rfl

end Ids

def SameSize : Origin α → Origin α → Prop
  | .identity n, .identity m => n = m
  | _, _ => True

/-- What equal ids leave open is the same in both: which scalar a text shows and which space, the components of the
blocks of a direct sum, and the size of an identity under a window. -/
def Agree : Origin α → Origin α → Prop
  | .constant _ x, .constant _ y => Scalar.detail x = Scalar.detail y → x = y
  | .innerProduct space, .innerProduct other => space.text = other.text → space = other
  | .blockDiagonal blocks, .blockDiagonal others => List.Forall₂ DirectSum.BlocksAgree blocks others
  | .window base _ _, .window other _ _ => base.Agree other ∧ base.SameSize other
  | _, _ => True

theorem agree_constant {x : α} (shown : Scalar.Shown x) (dimension dimension' : Nat) (y : α) :
    (constant dimension x).Agree (constant dimension' y) :=
  shown y

theorem Makes.evaluator_eq (made : o.Makes taken g) (made' : o'.Makes taken h) (agree : o.Agree o')
    (size : o.SameSize o') (same : g.id = h.id) {index : Nat} (inside : index < g.dimension)
    (inside' : index < h.dimension) : g.evaluator index = h.evaluator index := by
  have marks : o.mark = o'.mark := by rw [← made.mark_eq, ← made'.mark_eq, same]
  have kinds : o.isWindow ↔ o'.isWindow := by rw [← made.getLast_eq_iff, ← made'.getLast_eq_iff, same]
  induction made generalizing o' h index with
  | zero dimension =>
      cases made' with
      | zero => rfl
      | window => cases kinds.mpr rfl
      | _ => cases marks
  | constant dimension x =>
      cases made' with
      | constant dimension' y =>
          have equal : x = y := agree (Text.applied_inj same)
          cases equal
          rfl
      | window => cases kinds.mpr rfl
      | _ => cases marks
  | characteristic dimension k =>
      cases made' with
      | characteristic dimension' k' =>
          cases Nat.repr_inj.mp (Text.applied_inj same)
          rfl
      | window => cases kinds.mpr rfl
      | _ => cases marks
  | @identity n g generated =>
      cases made' with
      | @identity m h generated' =>
          have equal : n = m := size
          cases equal
          cases generated.symm.trans generated'
          rfl
      | window => cases kinds.mpr rfl
      | _ => cases marks
  | @snapshot serial values stands =>
      cases made' with
      | @snapshot serial' values' stands' =>
          cases Nat.repr_inj.mp ((String.append_right_inj _).mp same)
          cases stands.symm.trans stands'
          rfl
      | window => cases kinds.mpr rfl
      | _ => cases marks
  | @innerProduct space g generated =>
      cases made' with
      | @innerProduct other h generated' =>
          rw [id_of_innerProduct generated, id_of_innerProduct generated'] at same
          have equal : space = other := agree (Text.applied_inj same)
          cases equal
          cases generated.symm.trans generated'
          rfl
      | window => cases kinds.mpr rfl
      | _ => cases marks
  | @blockDiagonal blocks t g accepted kept =>
      cases made' with
      | @blockDiagonal others t' h accepted' kept' =>
          obtain ⟨factors, width, taken, counted, evaluates⟩ := DirectSum.evaluator_of_blockDiagonal accepted kept
          obtain ⟨factors', width', taken', counted', evaluates'⟩ :=
            DirectSum.evaluator_of_blockDiagonal accepted' kept'
          cases (DirectSum.taken_of_agree agree taken).symm.trans taken'
          cases counted.symm.trans counted'
          rw [evaluates, evaluates']
          exact DirectSum.diagonalComponent_congr taken agree width index
      | window => cases kinds.mpr rfl
      | _ => cases marks
  | @window base g offset count made within ih =>
      cases made' with
      | @window other h offset' count' made' within' =>
          rcases shift_id_inj same with ⟨bases, rfl⟩
          have bound : index < count := inside
          have bound' : index < count' := inside'
          have reach : offset + index < g.dimension := by omega
          have reach' : offset + index < h.dimension := by omega
          have kinds' : base.isWindow ↔ other.isWindow := by rw [← made.getLast_eq_iff, ← made'.getLast_eq_iff, bases]
          have equal := ih made' agree.1 agree.2 bases reach reach' marks kinds'
          change (do g.evaluate (← CountM.ofExcept (Size.add offset index))) =
            (do h.evaluate (← CountM.ofExcept (Size.add offset index)))
          rcases outcome : Size.add offset index with fault | place
          · rfl
          · rcases Size.add_eq_ok_iff.mp outcome with ⟨rfl, _⟩
            change g.evaluate (offset + index) = h.evaluate (offset + index)
            rw [Generator.evaluate, if_pos reach, Generator.evaluate, if_pos reach', equal]
      | _ => cases kinds.mp rfl

/-- Equal generators have equal components, where what their ids leave open agrees. -/
theorem evaluate_of_same (made : o.Makes taken g) (made' : o'.Makes taken h) (agree : o.Agree o')
    (same : g.same h = true) : ∀ index < g.dimension, g.evaluate index = h.evaluate index := by
  rw [Generator.same, Bool.and_eq_true, beq_iff_eq, beq_iff_eq] at same
  have size : o.SameSize o' := by
    cases made with
    | identity generated =>
        cases made' with
        | identity generated' =>
            have squares := same.2
            rw [(identity_eq_ok generated).2, (identity_eq_ok generated').2] at squares
            exact Nat.mul_self_inj.mp squares
        | _ => trivial
    | _ => cases made' <;> trivial
  intro index inside
  have inside' : index < h.dimension := same.2 ▸ inside
  rw [Generator.evaluate, if_pos inside, Generator.evaluate, if_pos inside',
    made.evaluator_eq made' agree size same.1 inside inside']

theorem evaluate_of_same_constant :
    ∃ g h : Generator (Bounded .signed32), (window (constant 5 (.wrap 9)) 1 2).Makes [] g ∧
      (window (constant 7 (.wrap 9)) 1 2).Makes [] h ∧ g.same h = true ∧
        (g.evaluate 1 #[]).1 = .ok (.wrap 9) ∧ g.evaluate 1 = h.evaluate 1 := by
  let nine : Bounded .signed32 := .wrap 9
  have made : (window (constant 5 nine) 1 2).Makes [] ((Generator.constant 5 nine).shift 1 2) :=
    .window (.constant 5 nine) (by decide)
  have made' : (window (constant 7 nine) 1 2).Makes [] ((Generator.constant 7 nine).shift 1 2) :=
    .window (.constant 7 nine) (by decide)
  have same : ((Generator.constant 5 nine).shift 1 2).same ((Generator.constant 7 nine).shift 1 2) = true := by
    decide +kernel
  have agree : (window (constant 5 nine) 1 2).Agree (window (constant 7 nine) 1 2) :=
    ⟨agree_constant nine.shown 5 7 nine, trivial⟩
  exact ⟨_, _, made, made', same, rfl, evaluate_of_same made made' agree same 1 (by decide)⟩

/-- A window onto the identity with two rows passes for one onto the identity with three. -/
example :
    (do
      let g := (← (Generator.identity 2 : Except Fault (Generator (Bounded .signed32)))).shift 0 4
      let h := (← Generator.identity 3).shift 0 4
      return (g.same h, decide ((g.evaluate 3 #[]).1 = (h.evaluate 3 #[]).1))) = .ok (true, false) := by
  decide +kernel

/-- The id of a direct sum names the space of its blocks only: the identity in one block passes for zero. -/
theorem same_blockDiagonal :
    ∃ (plane : Space) (one : Generator (Bounded .signed32)) (p q : Tensor (Bounded .signed32))
      (g h : Generator (Bounded .signed32)), Generator.identity 2 = .ok one ∧
        DirectSum.blockDiagonal [(plane, one)] = .ok p ∧ DirectSum.blockDiagonal [(plane, .zero 4)] = .ok q ∧
          p.generator? = some g ∧ q.generator? = some h ∧ g.same h = true ∧
            (g.evaluate 0 #[]).1 = .ok (.wrap 1) ∧ (h.evaluate 0 #[]).1 = .ok (.wrap 0) := by
  let plane : Space := .tensorProduct [.standard 2 "X", .standard 2 "X"]
  exact ⟨plane, _, _, _, _, _, rfl, rfl, rfl, rfl, rfl, by decide +kernel, by decide +kernel, by decide +kernel⟩

end Origin

namespace Components

variable [Scalar α] {taken : List (Array α)} {g : Generator α}

theorem freeze_window (base : Components α) (offset length count : Nat) :
    (window base offset length).freeze count = (do return (← base.freeze base.length).shift offset count) := rfl

def Made (taken : List (Array α)) : Components α → Prop
  | .stored _ _ _ _ => True
  | .generated g => ∃ o : Origin α, o.Makes taken g
  | .window base offset length => offset + length ≤ base.length ∧ base.Made taken

/-- What is frozen of such components has an origin again, the values copied last standing behind those before. -/
theorem makes_of_freeze {c : Components α} {count : Nat} {store later : Store α} (made : c.Made taken)
    (bound : count ≤ c.length) (numbers : taken.length = store.nextSnapshot)
    (ran : c.freeze count store = (.ok g, later)) :
    ∃ more, (taken ++ more).length = later.nextSnapshot ∧ count ≤ g.dimension ∧
      ∃ o : Origin α, o.Makes (taken ++ more) g := by
  induction c generalizing count g later with
  | stored storage block offset length =>
      rcases StoreM.bind_run_eq_ok_iff.mp ran with ⟨_, middle, reserved, rest⟩
      rcases StoreM.ofExcept_run_eq_ok reserved with ⟨_, rfl⟩
      rcases StoreM.bind_run_eq_ok_iff.mp rest with ⟨values, middle', copied, rest⟩
      rcases outcome : (stored storage block offset length).first count middle.memory middle.scratch with
        ⟨found, scratch⟩
      have run : (found, { middle with scratch }) = (.ok values, middle') := by
        rw [← copied, StoreM.ofEvalM, outcome]
      rcases Prod.mk.inj run with ⟨rfl, rfl⟩
      cases rest
      refine ⟨[values], ?_, ?_, .snapshot middle.nextSnapshot, .snapshot ?_⟩
      · rw [List.length_append, numbers]
        rfl
      · exact Nat.le_of_eq (first_eq_ok outcome).1.symm
      · rw [← numbers, List.getElem?_append_right (Nat.le_refl _), Nat.sub_self]
        rfl
  | generated generator =>
      cases ran
      rcases made with ⟨o, made⟩
      exact ⟨[], by rw [List.append_nil, numbers], bound, o, made.mono []⟩
  | window base offset length ih =>
      rcases StoreM.bind_run_eq_ok_iff.mp ran with ⟨frozen, middle, whole, done⟩
      cases done
      rcases ih made.2 (Nat.le_refl _) whole with ⟨more, numbered, reach, o, makes⟩
      have small : count ≤ length := bound
      have within := made.1
      exact ⟨more, numbered, Nat.le_refl count, .window o offset count, makes.window (by omega)⟩

end Components

end IndexNotation
