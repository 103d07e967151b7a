import IndexNotation.Proofs.Expression.Bundling
import IndexNotation.Scalar.Integer

namespace IndexNotation

variable {α : Type}

namespace Space

variable {s : Space} {factors : List Space} {dims : List Nat} {d v : Nat}

theorem lt_pow_of_lt_dimension {n order : Nat} (power : Size.pow n (order % Nat.pow 2 32) = .ok d)
    (small : v < d) : v = 0 ∨ v < n ^ order := by
  obtain ⟨rfl, _⟩ := Size.pow_eq_ok_iff.mp power
  rcases Nat.lt_or_ge n 2 with few | several
  · have one : n ^ (order % Nat.pow 2 32) ≤ 1 :=
      calc n ^ (order % Nat.pow 2 32) ≤ 1 ^ (order % Nat.pow 2 32) := Nat.pow_le_pow_left (by omega) _
        _ = 1 := Nat.one_pow _
    exact Or.inl (Nat.lt_one_iff.mp (Nat.lt_of_lt_of_le small one))
  · have grown : n ^ (order % Nat.pow 2 32) ≤ n ^ order :=
      Nat.pow_le_pow_right (by omega) (Nat.mod_le order _)
    exact Or.inr (Nat.lt_of_lt_of_le small grown)

/-- The parts of a component bundle back to it, also where a tensor power has too large an order for its
dimension to count all of its tuples. -/
theorem bundleIndex_splitIndex (listed : s.reserveSplitFactors = .ok ()) (splits : s.splitFactors = some factors)
    (computed : dimensions factors = .ok dims) (sized : s.dimension = .ok d) (small : v < d) :
    ∃ parts, s.splitIndex v = .ok parts ∧ parts.length = factors.length ∧
      s.bundleIndex parts = .ok (some (v, .positive)) := by
  have count : dims.length = factors.length := (dimensions_eq_ok_iff.mp computed).length_eq.symm
  have whole := splitDimensions_of_splitFactors splits computed
  by_cases power : ∃ order factor, s = .tensorPower order factor
  · obtain ⟨order, factor, rfl⟩ := power
    have kind : (tensorPower order factor).IsRowMajor := trivial
    have bound := Nat.lt_trans small (dimension_lt sized)
    rw [dimension] at sized
    obtain ⟨n, counted, exponent⟩ := bind_eq_ok_iff.mp sized
    cases splits
    cases (dimensions_replicate counted).symm.trans computed
    have fits := lt_pow_of_lt_dimension exponent small
    rw [← List.prod_replicate] at fits
    refine ⟨_, congrFun (splitIndex_of_isRowMajor kind listed whole) v, (RowMajor.length_split v _).trans count, ?_⟩
    rw [bundleIndex_eq_offset kind listed whole, RowMajor.offset_split fits bound]
    rfl
  · have exponent : ∀ order factor, s = .tensorPower order factor → order < Nat.pow 2 32 :=
      fun order factor same => absurd ⟨order, factor, same⟩ power
    obtain ⟨dims', computed', maps⟩ := exists_indexMaps sized exponent listed splits
    cases computed.symm.trans computed'
    have inside := below_of_canonical (maps.oneToOne.mapsTo small)
    exact ⟨_, maps.splits v small, inside.length_eq.trans count, maps.bundlesBack v small⟩

theorem flattened_of_splitFactors (kind : s.IsRowMajor) (splits : s.splitFactors = some factors) :
    s.flattened = flattenedAll factors := by
  cases s with
  | tensorProduct all =>
      cases splits
      rfl
  | tensorPower order factor =>
      cases splits
      rw [flattenedAll_eq_flatMap, flattened, List.flatMap_def, List.map_replicate]
  | _ => first | exact kind.elim | cases splits

theorem reserveAllFlattened_of_forall {spaces : List Space} (each : ∀ s ∈ spaces, s.reserveFlattened = .ok ()) :
    reserveAllFlattened spaces = .ok () := by
  induction spaces with
  | nil => rfl
  | cons s rest ih =>
      rw [reserveAllFlattened, each s List.mem_cons_self, ok_bind]
      exact ih fun t present => each t (List.mem_cons_of_mem s present)

theorem reserveAllFlattened_of_splitFactors (kind : s.IsRowMajor) (splits : s.splitFactors = some factors)
    (expands : s.reserveFlattened = .ok ()) : reserveAllFlattened factors = .ok () := by
  cases s with
  | tensorProduct all =>
      cases splits
      exact expands
  | tensorPower order factor =>
      cases splits
      obtain ⟨_, _, inner⟩ := bind_eq_ok_iff.mp expands
      apply reserveAllFlattened_of_forall
      intro s present
      obtain ⟨some, rfl⟩ := List.mem_replicate.mp present
      rwa [if_pos (Nat.pos_of_ne_zero some)] at inner
  | _ => first | exact kind.elim | cases splits

end Space

namespace Expression

theorem bundleFactors_of_splitFactors {target : Space} {factors : List Space} {dims : List Nat}
    (listed : target.reserveSplitFactors = .ok ()) (expands : target.reserveFlattened = .ok ())
    (splits : target.splitFactors = some factors) (computed : Space.dimensions factors = .ok dims) :
    ∃ expected isProduct, bundleFactors target factors = .ok (expected, expected, isProduct) ∧
      ∀ last, (if isProduct then .ok (RowMajor.split last dims) else target.splitIndex last) =
        target.splitIndex last := by
  have whole := Space.splitDimensions_of_splitFactors splits computed
  have product (kind : target.IsRowMajor) : Space.reserveAllFlattened factors = .ok () ∧
      target.flattened = Space.flattenedAll factors ∧
      ∀ last, Except.ok (RowMajor.split last dims) = target.splitIndex last :=
    ⟨Space.reserveAllFlattened_of_splitFactors kind splits expands, Space.flattened_of_splitFactors kind splits,
      fun last => (congrFun (Space.splitIndex_of_isRowMajor kind listed whole) last).symm⟩
  cases target with
  | tensorProduct all | tensorPower order factor =>
      obtain ⟨room, same, values⟩ := product trivial
      refine ⟨Space.flattenedAll factors, true, ?_, values⟩
      rw [bundleFactors, expands, room, same]
      rfl
  | symmetricPower order factor | exteriorPower order factor | diagonal left right =>
      refine ⟨factors, false, ?_, fun _ => rfl⟩
      rw [bundleFactors, listed, splits]
      rfl
  | based _ | directSum _ => cases splits

section BundleSplit

variable {e : Expression α} {position : Nat} {p : Symbol} {c : Space} {symbols : IndexList}
  {factors : List Space} {dims : List Nat}

theorem filter_free_splitting (stands : e.free[position]? = some ⟨p, c⟩) (distinct : e.freeSymbols.Nodup)
    (same : symbols.length = factors.length) (new : ∀ s ∈ symbols, s ∉ e.freeSymbols) :
    (split e (e.splitting position c symbols factors)).free.filter (fun index => index.symbol ∉ symbols) =
      e.free.filter fun index => index.symbol ≠ p := by
  have whole := free_at stands
  have parts : (symbols.zipWith FreeIndex.mk factors).filter (fun index => index.symbol ∉ symbols) = [] := by
    apply List.filter_eq_nil_iff.mpr
    intro index present
    have named : index.symbol ∈ symbols := by
      rw [← FreeIndex.symbols_zipWith_mk same]
      exact List.mem_map_of_mem present
    simp [named]
  have others {rest : List FreeIndex} (inside : rest ⊆ e.free) (absent : p ∉ FreeIndex.symbols rest) :
      rest.filter (fun index => index.symbol ∉ symbols) = rest.filter fun index => index.symbol ≠ p := by
    apply List.filter_congr
    intro index present
    have old : index.symbol ∉ symbols := fun given => new _ given (mem_freeSymbols (inside present))
    have other : index.symbol ≠ p := fun equal => absent (equal ▸ List.mem_map_of_mem present)
    simp [old, other]
  have apart : p ∉ FreeIndex.symbols (e.free.take position) ∧ p ∉ FreeIndex.symbols (e.free.drop (position + 1)) := by
    have once := distinct
    rw [freeSymbols, whole, FreeIndex.symbols, List.map_append, List.map_cons, List.nodup_middle,
      List.nodup_cons, List.mem_append, not_or] at once
    exact once.1
  conv_rhs => rw [whole]
  change ((e.free.take position ++ symbols.zipWith FreeIndex.mk factors) ++ e.free.drop (position + 1)).filter _ = _
  rw [List.filter_append, List.filter_append, List.filter_append, parts, List.append_nil,
    others (List.take_subset _ _) apart.1, others (List.drop_subset _ _) apart.2,
    List.filter_cons_of_neg (by simp)]

/-- Bundling the parts of a split gives the index back, last of all, with the components that it had, as far as
there is room for the factors. -/
theorem bundle_splitAt [Scalar α] (distinct : e.freeSymbols.Nodup) (present : ⟨p, c⟩ ∈ e.free)
    (listed : c.reserveSplitFactors = .ok ()) (expands : c.reserveFlattened = .ok ())
    (splits : c.splitFactors = some factors) (several : 2 ≤ factors.length)
    (same : symbols.length = factors.length) (apart : symbols.Nodup) (new : ∀ s ∈ symbols, e.mentions s = false)
    (computed : Space.dimensions factors = .ok dims) :
    ∃ s, e.splitAt p symbols = .ok s ∧ ∀ q, s.mentions q = false → ∃ b, s.bundle symbols c q = .ok b ∧
      b.free = (e.free.filter fun index => index.symbol ≠ p) ++ [⟨q, c⟩] ∧ b.used = e.used ∧
      ∀ d values, c.dimension = .ok d → values q < d →
        b.component (b.freeSymbols.map values) =
          e.component (e.freeSymbols.map (Function.update values p (values q))) := by
  obtain ⟨position, stands⟩ := List.getElem?_of_mem present
  refine ⟨_, splitAt_of_stands stands distinct listed splits same apart new, fun q fresh => ?_⟩
  have distinct' : (split e (e.splitting position c symbols factors)).freeSymbols.Nodup :=
    nodup_splitting distinct same apart new
  generalize made : split e (e.splitting position c symbols factors) = s at fresh distinct'
  have inside : symbols.zipWith FreeIndex.mk factors ⊆ s.free := by
    rw [← made]
    exact fun index given => List.mem_append_left _ (List.mem_append_right _ given)
  obtain ⟨expected, isProduct, regroups, parted⟩ := bundleFactors_of_splitFactors listed expands splits computed
  have factored := FreeIndex.factors_zipWith_mk same
  have sizes : FreeIndex.dimensions (symbols.zipWith FreeIndex.mk factors) = .ok dims := by
    rw [FreeIndex.dimensions, factored]
    exact computed
  obtain ⟨merged, merges, accepted⟩ := exists_bundle distinct' inside (FreeIndex.symbols_zipWith_mk same)
    (same ▸ several) apart fresh (factored.symm ▸ regroups) sizes
  refine ⟨_, accepted, ?_, ?_, fun d values sized small => ?_⟩
  · have old : ∀ t ∈ symbols, t ∉ e.freeSymbols := fun t given => (not_mem_of_mentions_eq_false (new t given)).1
    rw [free_bundling merges distinct', ← made, filter_free_splitting stands distinct same old]
  · rw [← made]
    rfl
  · obtain ⟨parts, split, length, bundled⟩ := Space.bundleIndex_splitIndex listed splits computed sized small
    have count : parts.length = symbols.length := length.trans same.symm
    rw [component_bundling merges distinct' apart count ((parted _).trans split), ← made,
      component_splitting stands distinct same, IndexList.map_assign values apart count, bundled,
      EvalM.ofExcept_ok, pure_bind, signed_positive]
    apply congrArg e.component
    apply List.map_congr_left
    intro t free
    have other : t ∉ symbols := fun given => (not_mem_of_mentions_eq_false (new t given)).1 free
    by_cases here : t = p
    · rw [here, Function.update_self, Function.update_self]
    · rw [Function.update_of_ne here, Function.update_of_ne here, IndexList.assign_of_notMem other]

end BundleSplit

theorem bundle_splitAt_square :
    ∃ e s b : Expression (Bounded .signed32),
      Expression.index ⟨.symmetricPower 2 (.standard 2 "V"),
        .generated (.ofFunction "odd" 3 fun index => Bounded.ofInt (2 * index + 1))⟩ [.letter 'p'] = .ok e ∧
      e.splitAt (.letter 'p') [.letter 'i', .letter 'j'] = .ok s ∧
      s.bundle [.letter 'i', .letter 'j'] (.symmetricPower 2 (.standard 2 "V")) (.letter 'q') = .ok b ∧
      b.free = [⟨.letter 'q', .symmetricPower 2 (.standard 2 "V")⟩] ∧ b.component [2] = e.component [2] ∧
      (e.component [2] .empty ⟨#[], #[]⟩).1 = .ok ⟨5, by decide⟩ := by
  let square : Space := .symmetricPower 2 (.standard 2 "V")
  let odd : Generator (Bounded .signed32) := .ofFunction "odd" 3 fun index => Bounded.ofInt (2 * index + 1)
  obtain ⟨e, made, free, distinct, value⟩ : ∃ e : Expression (Bounded .signed32),
      Expression.index ⟨square, .generated odd⟩ [.letter 'p'] = .ok e ∧ e.free = [⟨.letter 'p', square⟩] ∧
      e.freeSymbols.Nodup ∧ (e.component [2] .empty ⟨#[], #[]⟩).1 = .ok ⟨5, by decide⟩ :=
    ⟨_, rfl, rfl, by decide, rfl⟩
  have symbols : e.freeSymbols = [.letter 'p'] := by rw [freeSymbols, free]; rfl
  have present : ⟨.letter 'p', square⟩ ∈ e.free := by simp [free]
  have splits : square.splitFactors = some [.standard 2 "V", .standard 2 "V"] := rfl
  have computed : Space.dimensions [.standard 2 "V", .standard 2 "V"] = .ok [2, 2] := rfl
  have new : ∀ s ∈ [Symbol.letter 'i', Symbol.letter 'j'], e.mentions s = false := by
    cases made
    decide
  obtain ⟨s, split, bundles⟩ :=
    bundle_splitAt distinct present rfl rfl splits (by decide) rfl (by decide) new computed
  have apart : s.mentions (.letter 'q') = false := by
    cases made
    cases split
    decide
  obtain ⟨b, bundled, others, _, components⟩ := bundles (.letter 'q') apart
  have last : b.free = [⟨.letter 'q', square⟩] := by
    rw [others, free]
    rfl
  have round := components 3 (fun _ => 2) rfl (by decide)
  rw [freeSymbols, last, symbols] at round
  exact ⟨e, s, b, made, split, bundled, last, round, value⟩

/-- Where a factor's dimension overflows, or its own factors are too many to be listed, the parts of a split cannot be
bundled again. -/
theorem bundle_splitAt_eq_error :
    (∃ x y z e s : Expression (Bounded .signed64),
      (Tensor.zero (.standard 2 "X") >>= (index · [.letter 'i'])) = .ok x ∧
      (Tensor.zero (.standard 4294967296 "Y") >>= (index · [.letter 'j'])) = .ok y ∧
      (Tensor.zero (.standard 4294967296 "Z") >>= (index · [.letter 'k'])) = .ok z ∧
      (x.mul y >>= fun both => both.mul z >>= fun all => all.bundle [.letter 'i', .letter 'j', .letter 'k']
        (.tensorProduct [.standard 2 "X", .tensorProduct [.standard 4294967296 "Y", .standard 4294967296 "Z"]])
        (.letter 'p')) = .ok e ∧
      e.freeSymbols = [.letter 'p'] ∧ e.used = [] ∧
      e.splitAt (.letter 'p') [.letter 'u', .letter 'v'] = .ok s ∧ s.mentions (.letter 'q') = false ∧
      s.bundle [.letter 'u', .letter 'v']
        (.tensorProduct [.standard 2 "X", .tensorProduct [.standard 4294967296 "Y", .standard 4294967296 "Z"]])
        (.letter 'q') = .error .overflow) ∧
    ∃ e s : Expression (Bounded .signed64),
      (Tensor.zero (.tensorProduct [.standard 1 "X", .tensorPower (Nat.pow 2 60) (.standard 1 "X")]) >>=
        (index · [.letter 'p'])) = .ok e ∧
      e.splitAt (.letter 'p') [.letter 'u', .letter 'v'] = .ok s ∧ s.mentions (.letter 'q') = false ∧
      s.bundle [.letter 'u', .letter 'v']
        (.tensorProduct [.standard 1 "X", .tensorPower (Nat.pow 2 60) (.standard 1 "X")]) (.letter 'q') =
          .error .capacity :=
  ⟨⟨_, _, _, _, _, rfl, rfl, rfl, rfl, rfl, rfl, rfl, rfl, rfl⟩, _, _, rfl, rfl, rfl, rfl⟩

end Expression

end IndexNotation
