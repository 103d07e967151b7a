import IndexNotation.Proofs.DirectSum
import IndexNotation.Proofs.Expression.Bundling
import IndexNotation.Proofs.Expression.Leaf
import IndexNotation.Scalar.Integer

namespace IndexNotation

variable {α : Type}

/-- A 2-tensor by its row and column: indexed by two symbols if its space is, else split from one index `p`. -/
def Tensor.byRowAndColumn (t : Tensor α) (i j p : Symbol) : Except Fault (Expression α) :=
  if t.space.tensorFactors.isSome then Expression.index t [i, j]
  else do (← Expression.index t [p]).splitAt p [i, j]

structure BlockView (α : Type) where
  expression : Expression α
  height : Nat
  width : Nat

/-- `view` is the 2-tensor that a block makes, read by its row `i` and column `j`. -/
structure BlockView.Reads (view : BlockView α) (i j p : Symbol) (block : Space × Generator α) : Prop where
  accepted : Tensor.byRowAndColumn ⟨block.1, .generated block.2⟩ i j p = .ok view.expression
  symbols : view.expression.freeSymbols = [i, j]
  dims : view.expression.freeDims = .ok [view.height, view.width]

namespace DirectSum

section Block

variable {space row column : Space} {m n d r c : Nat}

theorem splits_of_rowAndColumn (taken : rowAndColumn space = .ok (row, column)) :
    space.reserveSplitFactors = .ok () ∧ space.splitFactors = some [row, column] := by
  obtain ⟨_, listed, found⟩ := bind_eq_ok_iff.mp taken
  split at found
  · rename_i splits
    cases found
    exact ⟨listed, splits⟩
  · cases found

theorem exists_indexMaps_pair (taken : rowAndColumn space = .ok (row, column)) (sized : space.dimension = .ok d) :
    ∃ m n, row.dimension = .ok m ∧ column.dimension = .ok n ∧ space.IndexMaps d [m, n] := by
  obtain ⟨listed, splits⟩ := splits_of_rowAndColumn taken
  have exponent : ∀ order factor, space = .tensorPower order factor → order < Nat.pow 2 32 := by
    intro order factor same
    subst same
    have two : order = 2 := by
      have length := congrArg (Option.map List.length) splits
      simpa [Space.splitFactors] using length
    rw [two]
    decide
  obtain ⟨dims, computed, maps⟩ := Space.exists_indexMaps sized exponent listed splits
  obtain ⟨m, _, head, tail, rfl⟩ := List.forall₂_cons_left_iff.mp (Space.dimensions_eq_ok_iff.mp computed)
  obtain ⟨n, _, last, none, rfl⟩ := List.forall₂_cons_left_iff.mp tail
  cases none
  exact ⟨m, n, head, last, maps⟩

variable [Scalar α]

theorem ofCountM_blockComponent (space : Space) (generator : Generator α) (r c : Nat) :
    (EvalM.ofCountM (blockComponent space generator r c) : EvalM α α) =
      EvalM.ofExcept (space.bundleIndex [r, c]) >>=
        Expression.signed fun flat => EvalM.ofCountM (generator.evaluate flat) := by
  rw [blockComponent, EvalM.ofCountM_bind]
  change EvalM.ofExcept (space.bundleIndex [r, c]) >>= _ = _
  apply congrArg (EvalM.ofExcept (space.bundleIndex [r, c]) >>= ·)
  funext found
  match found with
  | none => rfl
  | some (flat, .positive) =>
      exact (Expression.signed_positive (fun flat => EvalM.ofCountM (generator.evaluate flat)) flat).symm
  | some (flat, .negative) =>
      exact EvalM.ofCountM_bind (generator.evaluate flat) fun x => CountM.ofExcept (Scalar.negate x)

/-- Blocks over one space whose generators have the same components below its dimension, as far as that is computed. -/
structure BlocksAgree (block other : Space × Generator α) : Prop where
  space : block.1 = other.1
  components : ∀ index, (∀ d, block.1.dimension = .ok d → index < d) →
    block.2.evaluate index = other.2.evaluate index

theorem blockComponent_congr {block other : Space × Generator α} (agree : BlocksAgree block other)
    (taken : rowAndColumn block.1 = .ok (row, column)) (head : row.dimension = .ok m)
    (last : column.dimension = .ok n) (small : r < m) (small' : c < n) :
    blockComponent block.1 block.2 r c = blockComponent other.1 other.2 r c := by
  rw [← agree.space]
  apply CountM.ofExcept_bind_congr
  intro found bundled
  match found with
  | none => rfl
  | some (flat, sign) =>
      have equal : block.2.evaluate flat = other.2.evaluate flat := by
        apply agree.components
        intro d sized
        obtain ⟨m', n', head', last', maps⟩ := exists_indexMaps_pair taken sized
        cases head.symm.trans head'
        cases last.symm.trans last'
        have below : RowMajor.Below [r, c] [m, n] := ⟨small, small', trivial⟩
        exact maps.lt_of_bundleIndex below bundled
      cases sign with
      | positive => exact equal
      | negative => exact congrArg (fun x : CountM α => do CountM.ofExcept (Scalar.negate (← x))) equal

section Part

variable {i j p : Symbol} (generator : Generator α)

theorem exists_part_direct (taken : rowAndColumn space = .ok (row, column)) (distinct : [i, j].Nodup)
    (whole : space.tensorFactors.isSome) (head : row.dimension = .ok m) (last : column.dimension = .ok n)
    (maps : space.IndexMaps d [m, n]) :
    ∃ part, Tensor.byRowAndColumn ⟨space, .generated generator⟩ i j p = .ok part ∧
      part.free = [⟨i, row⟩, ⟨j, column⟩] ∧
      ∀ r < m, ∀ c < n, part.component [r, c] = EvalM.ofCountM (blockComponent space generator r c) := by
  obtain ⟨kind, named⟩ : space.IsRowMajor ∧ space.tensorFactors = space.splitFactors := by
    cases space <;> first | exact ⟨trivial, rfl⟩ | cases whole
  obtain ⟨listed, splits⟩ := splits_of_rowAndColumn taken
  rw [splits] at named
  have computed : Space.dimensions [row, column] = .ok [m, n] :=
    Space.dimensions_eq_ok_iff.mpr (.cons head (.cons last .nil))
  have indexed : space.indexedFactors [i, j] = .ok [row, column] := by
    rw [Space.indexedFactors_eq (Space.reserveTensorFactors_of_reserveSplitFactors listed), named]
    rfl
  have sized : space.splitDimensions = .ok [m, n] := Space.splitDimensions_of_splitFactors splits computed
  have accepted : Tensor.byRowAndColumn ⟨space, .generated generator⟩ i j p = .ok _ :=
    (if_pos whole).trans (Expression.index_of_nodup distinct indexed computed)
  refine ⟨_, accepted, rfl, fun r small c small' => ?_⟩
  have below : RowMajor.Below [r, c] [m, n] := ⟨small, small', trivial⟩
  obtain ⟨flat, _, sign, bundled, _⟩ :=
    maps.bundles [r, c] below (Space.not_vanishes_of_isRowMajor kind [r, c])
  obtain ⟨offset, rfl⟩ := Space.offset_of_bundleIndex kind sized bundled
  obtain ⟨rfl, bound⟩ := RowMajor.offset_eq_ok offset
  rw [Expression.component_indexed distinct _ rfl below bound, ofCountM_blockComponent, bundled,
    EvalM.ofExcept_ok, pure_bind, Expression.signed_positive]
  rfl

theorem exists_part_split (taken : rowAndColumn space = .ok (row, column)) (distinct : [i, j].Nodup)
    (fresh : p ∉ [i, j]) (whole : space.tensorFactors = none) (sized : space.dimension = .ok d)
    (maps : space.IndexMaps d [m, n]) :
    ∃ part, Tensor.byRowAndColumn ⟨space, .generated generator⟩ i j p = .ok part ∧
      part.free = [⟨i, row⟩, ⟨j, column⟩] ∧
      ∀ r < m, ∀ c < n, part.component [r, c] = EvalM.ofCountM (blockComponent space generator r c) := by
  let t : Tensor α := ⟨space, .generated generator⟩
  obtain ⟨listed, splits⟩ := splits_of_rowAndColumn taken
  have accepted : t.byRowAndColumn i j p = .ok (t.unpacked d [row, column] p [i, j]) := by
    rw [Tensor.byRowAndColumn, show t.space.tensorFactors = none from whole,
      Tensor.index_single (t := t) whole sized p]
    exact Tensor.splitAt_single listed splits rfl distinct fresh
  refine ⟨_, accepted, Tensor.free_unpacked, fun r small c small' => ?_⟩
  have below : RowMajor.Below [r, c] [m, n] := ⟨small, small', trivial⟩
  rw [Tensor.component_unpacked rfl, ofCountM_blockComponent]
  apply Expression.bind_signed_congr
  intro flat sign bundled
  have inside := maps.lt_of_bundleIndex below bundled
  have number : RowMajor.number [flat] [d] = flat := by simp [RowMajor.number]
  have bound : RowMajor.number [flat] [d] < Size.bound := by
    rw [number]
    exact Nat.lt_trans inside (Space.dimension_lt sized)
  have within : RowMajor.Below [flat] [d] := ⟨inside, trivial⟩
  rw [Expression.component_indexed (List.nodup_singleton p) _ rfl within bound, number]
  rfl

theorem exists_part (taken : rowAndColumn space = .ok (row, column)) (sized : space.dimension = .ok d)
    (distinct : [i, j].Nodup) (fresh : p ∉ [i, j]) :
    ∃ m n part, row.dimension = .ok m ∧ column.dimension = .ok n ∧
      Tensor.byRowAndColumn ⟨space, .generated generator⟩ i j p = .ok part ∧
      part.free = [⟨i, row⟩, ⟨j, column⟩] ∧
      ∀ r < m, ∀ c < n, part.component [r, c] = EvalM.ofCountM (blockComponent space generator r c) := by
  obtain ⟨m, n, head, last, maps⟩ := exists_indexMaps_pair taken sized
  cases whole : space.tensorFactors with
  | none =>
      obtain ⟨part, accepted⟩ := exists_part_split generator taken distinct fresh whole sized maps
      exact ⟨m, n, part, head, last, accepted⟩
  | some factors =>
      have direct : space.tensorFactors.isSome := by rw [whole]; rfl
      obtain ⟨part, accepted⟩ := exists_part_direct generator taken distinct direct head last maps
      exact ⟨m, n, part, head, last, accepted⟩

end Part

end Block

section Whole

variable [Scalar α] {blocks : List (Space × Generator α)} {whole : Tensor α} {rows columns : List Space}

theorem blockDiagonal_eq_ok (accepted : blockDiagonal blocks = .ok whole) :
    ∃ factors width dimension, blocks.mapM (fun block => rowAndColumn block.1) = .ok factors ∧
      (Space.directSum (factors.map Prod.snd)).dimension = .ok width ∧
      (Space.tensorProduct [.directSum (factors.map Prod.fst), .directSum (factors.map Prod.snd)]).dimension =
        .ok dimension ∧
      whole.space = .tensorProduct [.directSum (factors.map Prod.fst), .directSum (factors.map Prod.snd)] ∧
      ∀ flat < dimension, whole.component flat = EvalM.ofCountM
        (diagonalComponent blocks (factors.map Prod.fst) (factors.map Prod.snd) width flat) := by
  obtain ⟨factors, taken, rest⟩ := bind_eq_ok_iff.mp accepted
  obtain ⟨width, counted, rest⟩ := bind_eq_ok_iff.mp rest
  obtain ⟨dimension, sized, made⟩ := bind_eq_ok_iff.mp rest
  obtain ⟨_, rfl⟩ := Tensor.ofComponents_eq_ok made
  refine ⟨factors, width, dimension, taken, counted, sized, rfl, fun flat small => ?_⟩
  exact congrArg EvalM.ofCountM (if_pos small)

theorem evaluator_of_blockDiagonal {g : Generator α} (accepted : blockDiagonal blocks = .ok whole)
    (kept : whole.generator? = some g) :
    ∃ factors width, blocks.mapM (fun block => rowAndColumn block.1) = .ok factors ∧
      (Space.directSum (factors.map Prod.snd)).dimension = .ok width ∧
      g.evaluator = diagonalComponent blocks (factors.map Prod.fst) (factors.map Prod.snd) width := by
  obtain ⟨factors, taken, rest⟩ := bind_eq_ok_iff.mp accepted
  obtain ⟨width, counted, rest⟩ := bind_eq_ok_iff.mp rest
  obtain ⟨dimension, sized, made⟩ := bind_eq_ok_iff.mp rest
  obtain ⟨_, rfl⟩ := Tensor.ofComponents_eq_ok made
  cases kept
  exact ⟨factors, width, taken, counted, rfl⟩

theorem diagonalComponent_eq {width row column n m r c : Nat} (below : column < width)
    (atRow : locate rows row = .ok (n, r)) (atColumn : locate columns column = .ok (m, c)) :
    diagonalComponent blocks rows columns width (row * width + column) =
      if n ≠ m then pure Scalar.zero
      else
        match blocks[n]? with
        | none => throw .outOfBounds
        | some (block, generator) => blockComponent block generator r c := by
  have positive : width ≠ 0 := by omega
  have divided : Size.div (row * width + column) width = .ok row := by
    rw [Size.div, if_neg positive, Nat.mul_comm, Nat.mul_add_div (Nat.pos_of_ne_zero positive),
      Nat.div_eq_of_lt below, Nat.add_zero]
  have left : Size.mod (row * width + column) width = .ok column := by
    rw [Size.mod, if_neg positive, Nat.mul_comm, Nat.mul_add_mod, Nat.mod_eq_of_lt below]
  rw [diagonalComponent, divided, ok_bind, atRow, left, ok_bind, atColumn]
  rfl

omit [Scalar α] in
theorem taken_of_agree {others : List (Space × Generator α)} {factors : List (Space × Space)}
    (agree : List.Forall₂ BlocksAgree blocks others)
    (taken : blocks.mapM (fun block => rowAndColumn block.1) = .ok factors) :
    others.mapM (fun block => rowAndColumn block.1) = .ok factors := by
  rw [mapM_eq_ok_iff] at taken ⊢
  induction agree generalizing factors with
  | nil => exact taken
  | cons first _ ih =>
      cases taken with
      | cons split rest => exact .cons (first.space ▸ split) (ih rest)

/-- Blocks with the same components make the same tensor. -/
theorem diagonalComponent_congr {others : List (Space × Generator α)} {factors : List (Space × Space)}
    (taken : blocks.mapM (fun block => rowAndColumn block.1) = .ok factors)
    (agree : List.Forall₂ BlocksAgree blocks others)
    (width flat : Nat) :
    diagonalComponent blocks (factors.map Prod.fst) (factors.map Prod.snd) width flat =
      diagonalComponent others (factors.map Prod.fst) (factors.map Prod.snd) width flat := by
  apply CountM.ofExcept_bind_congr
  rintro ⟨n, r⟩ atRow
  apply CountM.ofExcept_bind_congr
  rintro ⟨m, c⟩ atColumn
  obtain ⟨_, _, foundRow⟩ := bind_eq_ok_iff.mp atRow
  obtain ⟨_, _, foundColumn⟩ := bind_eq_ok_iff.mp atColumn
  obtain ⟨row, height, onRow, tall, small⟩ := locate_eq_ok foundRow
  obtain ⟨column, breadth, onColumn, wide, small'⟩ := locate_eq_ok foundColumn
  dsimp only
  split
  · rfl
  · rename_i same
    obtain rfl := not_not.mp same
    by_cases inside : n < blocks.length
    · have inside' := agree.length_eq ▸ inside
      have factored := mapM_eq_ok_iff.mp taken
      have within := factored.length_eq ▸ inside
      have split := factored.get inside within
      rw [List.getElem?_map, List.getElem?_eq_getElem within] at onRow onColumn
      cases onRow
      cases onColumn
      rw [List.getElem?_eq_getElem inside, List.getElem?_eq_getElem inside']
      exact blockComponent_congr (agree.get inside inside') split tall wide small small'
    · rw [List.getElem?_eq_none (Nat.le_of_not_lt inside),
        List.getElem?_eq_none (agree.length_eq ▸ Nat.le_of_not_lt inside)]

theorem exists_views {i j p : Symbol} {factors : List (Space × Space)} (distinct : [i, j].Nodup)
    (fresh : p ∉ [i, j]) (sized : ∀ block ∈ blocks, ∃ d, block.1.dimension = .ok d)
    (taken : blocks.mapM (fun block => rowAndColumn block.1) = .ok factors) :
    ∃ views : List (BlockView α),
      List.Forall₂ (fun block view => view.Reads i j p block ∧ ∀ r < view.height, ∀ c < view.width,
        view.expression.component [r, c] = EvalM.ofCountM (blockComponent block.1 block.2 r c)) blocks views ∧
      Space.dimensions (factors.map Prod.fst) = .ok (views.map BlockView.height) ∧
      Space.dimensions (factors.map Prod.snd) = .ok (views.map BlockView.width) := by
  simp only [Space.dimensions_eq_ok_iff]
  induction mapM_eq_ok_iff.mp taken with
  | nil => exact ⟨[], .nil, .nil, .nil⟩
  | @cons block factor blocks factors first later ih =>
      obtain ⟨⟨d, counted⟩, others⟩ := List.forall_mem_cons.mp sized
      obtain ⟨m, n, part, head, last, accepted, free, components⟩ :=
        exists_part block.2 first counted distinct fresh
      obtain ⟨views, reads, heights, widths⟩ := ih others (mapM_eq_ok_iff.mpr later)
      have computed : Space.dimensions [factor.1, factor.2] = .ok [m, n] :=
        Space.dimensions_eq_ok_iff.mpr (.cons head (.cons last .nil))
      have view : BlockView.Reads ⟨part, m, n⟩ i j p block :=
        { accepted
          symbols := by rw [Expression.freeSymbols, free]; rfl
          dims := by rw [Expression.freeDims, free]; exact computed }
      exact ⟨⟨part, m, n⟩ :: views, .cons ⟨view, components⟩ reads, .cons head heights, .cons last widths⟩

theorem exists_index {i j : Symbol} {heights widths : List Nat} {dimension : Nat} (distinct : [i, j].Nodup)
    (tall : Space.dimensions rows = .ok heights) (wide : Space.dimensions columns = .ok widths)
    (space : whole.space = .tensorProduct [.directSum rows, .directSum columns])
    (sized : whole.space.dimension = .ok dimension) :
    ∃ e, Expression.index whole [i, j] = .ok e ∧ e.freeSymbols = [i, j] ∧
      e.freeDims = .ok [heights.sum, widths.sum] ∧
      ∀ row < heights.sum, ∀ column < widths.sum, row * widths.sum + column < dimension ∧
        e.component [row, column] = whole.component (row * widths.sum + column) := by
  rw [space, Space.dimension] at sized
  obtain ⟨extents, both, multiplied⟩ := bind_eq_ok_iff.mp sized
  obtain ⟨height, _, first, rest, rfl⟩ := List.forall₂_cons_left_iff.mp (Space.dimensions_eq_ok_iff.mp both)
  obtain ⟨width, _, second, none, rfl⟩ := List.forall₂_cons_left_iff.mp rest
  cases none
  obtain rfl := dimension_directSum tall first
  obtain rfl := dimension_directSum wide second
  obtain ⟨rfl, bound⟩ := RowMajor.product_eq_ok multiplied
  have named : whole.space.indexedFactors [i, j] = .ok [.directSum rows, .directSum columns] := by
    rw [space]
    rfl
  refine ⟨_, Expression.index_of_nodup distinct named both, rfl, both, fun row small column small' => ?_⟩
  have below : RowMajor.Below [row, column] [heights.sum, widths.sum] := ⟨small, small', trivial⟩
  have inside := RowMajor.number_lt below
  have number : RowMajor.number [row, column] [heights.sum, widths.sum] = row * widths.sum + column := by
    simp [RowMajor.number]
  rw [Expression.component_indexed distinct _ rfl below (Nat.lt_trans inside bound), number]
  exact ⟨number ▸ inside, rfl⟩

/-- Blocks are read along the diagonal. A component whose row and column lie in the ranges of one block is the
block's own component there, under its own index map, and all others are zero. -/
theorem component_blockDiagonal {i j p : Symbol} (accepted : blockDiagonal blocks = .ok whole)
    (sized : ∀ block ∈ blocks, ∃ d, block.1.dimension = .ok d) (distinct : [i, j].Nodup)
    (fresh : p ∉ [i, j]) :
    ∃ (views : List (BlockView α)) (e : Expression α),
      List.Forall₂ (fun block view => view.Reads i j p block) blocks views ∧
      Expression.index whole [i, j] = .ok e ∧ e.freeSymbols = [i, j] ∧
      e.freeDims = .ok [(views.map BlockView.height).sum, (views.map BlockView.width).sum] ∧
      ∀ row < (views.map BlockView.height).sum, ∀ column < (views.map BlockView.width).sum,
        (∀ n view r c, views[n]? = some view → Lies (views.map BlockView.height) n r row →
          Lies (views.map BlockView.width) n c column →
          e.component [row, column] = view.expression.component [r, c]) ∧
        ((∀ n r c, Lies (views.map BlockView.height) n r row →
          ¬ Lies (views.map BlockView.width) n c column) →
          e.component [row, column] = pure Scalar.zero) := by
  obtain ⟨factors, width, dimension, taken, counted, product, space, components⟩ := blockDiagonal_eq_ok accepted
  obtain ⟨views, reads, heights, widths⟩ := exists_views distinct fresh sized taken
  obtain rfl := dimension_directSum widths counted
  obtain ⟨e, indexed, symbols, dims, places⟩ := exists_index distinct heights widths space (space ▸ product)
  refine ⟨views, e, reads.imp fun _ _ view => view.1, indexed, symbols, dims, fun row small column small' => ?_⟩
  obtain ⟨inside, place⟩ := places row small column small'
  rw [place, components _ inside]
  constructor
  · intro n view r c stands onRow onColumn
    obtain ⟨block, found, own⟩ : ∃ block, blocks[n]? = some block ∧ ∀ r < view.height, ∀ c < view.width,
        view.expression.component [r, c] = EvalM.ofCountM (blockComponent block.1 block.2 r c) := by
      obtain ⟨bound, rfl⟩ := List.getElem?_eq_some_iff.mp stands
      have within : n < blocks.length := reads.length_eq ▸ bound
      exact ⟨blocks[n], List.getElem?_eq_getElem within, (reads.get within bound).2⟩
    have lower := onRow.lt (by rw [List.getElem?_map, stands]; rfl)
    have lower' := onColumn.lt (by rw [List.getElem?_map, stands]; rfl)
    rw [diagonalComponent_eq small' (locate_of_lies heights onRow) (locate_of_lies widths onColumn),
      if_neg (not_not.mpr rfl), found, own r lower c lower']
  · intro apart
    obtain ⟨n, r, onRow⟩ := exists_lies small
    obtain ⟨m, c, onColumn⟩ := exists_lies small'
    have different : n ≠ m := by
      intro same
      exact apart n r c onRow (same ▸ onColumn)
    rw [diagonalComponent_eq small' (locate_of_lies heights onRow) (locate_of_lies widths onColumn),
      if_pos different]
    rfl

end Whole

/-- A row of two components before an antisymmetric block: in its own rows and columns the block is read with its
sign, and beside the row there is nothing. -/
theorem component_blockDiagonal_bivector :
    ∃ (blocks : List (Space × Generator (Bounded .signed32))) (whole : Tensor (Bounded .signed32))
      (e part : Expression (Bounded .signed32)),
      blocks.map Prod.fst =
        [.tensorProduct [.standard 1 "A", .standard 2 "B"], .exteriorPower 2 (.standard 2 "V")] ∧
      blockDiagonal blocks = .ok whole ∧ Expression.index whole [.letter 'i', .letter 'j'] = .ok e ∧
      e.freeDims = .ok [3, 4] ∧ e.component [1, 3] = part.component [0, 1] ∧
      (part.component [0, 1] .empty ⟨#[], #[]⟩).1 = .ok ⟨-7, by decide⟩ ∧
      e.component [0, 2] = pure Scalar.zero := by
  let row : Space × Generator (Bounded .signed32) :=
    (.tensorProduct [.standard 1 "A", .standard 2 "B"], .ofFunction "row" 2 fun index => Bounded.ofInt index)
  let square : Space × Generator (Bounded .signed32) :=
    (.exteriorPower 2 (.standard 2 "V"), .ofFunction "seven" 1 fun _ => Bounded.ofInt 7)
  obtain ⟨whole, accepted⟩ : ∃ whole, blockDiagonal [row, square] = .ok whole := ⟨_, rfl⟩
  have sized : ∀ block ∈ [row, square], ∃ d, block.1.dimension = .ok d := by
    intro block member
    rcases List.mem_cons.mp member with rfl | member
    · exact ⟨2, rfl⟩
    · exact ⟨1, List.mem_singleton.mp member ▸ rfl⟩
  obtain ⟨views, e, reads, indexed, _, dims, places⟩ := component_blockDiagonal (p := .letter 'p')
    (i := .letter 'i') (j := .letter 'j') accepted sized (by decide) (by decide)
  obtain ⟨first, _, onRow, rest, rfl⟩ := List.forall₂_cons_left_iff.mp reads
  obtain ⟨second, _, onSquare, none, rfl⟩ := List.forall₂_cons_left_iff.mp rest
  cases none
  have extents : first.expression.freeDims = .ok [1, 2] := by
    obtain ⟨part, made, read⟩ : ∃ part, Tensor.byRowAndColumn ⟨row.1, .generated row.2⟩ (.letter 'i') (.letter 'j')
        (.letter 'p') = .ok part ∧ part.freeDims = .ok [1, 2] := ⟨_, rfl, rfl⟩
    cases made.symm.trans onRow.accepted
    exact read
  obtain ⟨value, extents'⟩ : (second.expression.component [0, 1] .empty ⟨#[], #[]⟩).1 = .ok ⟨-7, by decide⟩ ∧
      second.expression.freeDims = .ok [2, 2] := by
    obtain ⟨part, made, read⟩ : ∃ part, Tensor.byRowAndColumn ⟨square.1, .generated square.2⟩ (.letter 'i')
        (.letter 'j') (.letter 'p') = .ok part ∧
        (part.component [0, 1] .empty ⟨#[], #[]⟩).1 = .ok ⟨-7, by decide⟩ ∧ part.freeDims = .ok [2, 2] :=
      ⟨_, rfl, rfl, rfl⟩
    cases made.symm.trans onSquare.accepted
    exact read
  obtain ⟨tall, wide⟩ : 1 = first.height ∧ 2 = first.width := by simpa using extents.symm.trans onRow.dims
  obtain ⟨tall', wide'⟩ : 2 = second.height ∧ 2 = second.width := by simpa using extents'.symm.trans onSquare.dims
  simp only [List.map_cons, List.map_nil, ← tall, ← wide, ← tall', ← wide'] at dims places
  obtain ⟨within, _⟩ := places 1 (by decide) 3 (by decide)
  obtain ⟨_, beside⟩ := places 0 (by decide) 2 (by decide)
  refine ⟨[row, square], whole, e, second.expression, rfl, accepted, indexed, dims, ?_, value, ?_⟩
  · exact within 1 second 0 1 rfl ⟨2, rfl, by decide, rfl⟩ ⟨2, rfl, by decide, rfl⟩
  · apply beside
    rintro n r c ⟨_, tall, _, top⟩ ⟨_, wide, inside, left⟩
    match n with
    | 0 =>
        cases wide
        have offset : 2 = 0 + c := left
        omega
    | 1 =>
        have offset : 0 = 1 + r := top
        omega
    | n + 2 => cases tall

end DirectSum

end IndexNotation
