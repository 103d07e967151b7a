import IndexNotation.Expression.Basic

namespace IndexNotation

/-- The factors that `symbols` index in a space: one each for a product, or the whole for one symbol. -/
def Space.indexedFactors (s : Space) (symbols : IndexList) : Except Fault (List Space) := do
  s.reserveTensorFactors
  let whole := if symbols.length = 1 then .ok [s] else refuse (.indexCountMismatch s symbols.length)
  match s.tensorFactors with
  | some factors => if factors.length = symbols.length then .ok factors else whole
  | none => whole

/-- Summing `symbol` over `left` against `right` pairs a space with its dual. -/
def checkPairing (symbol : Symbol) (left right : Space) : Except Fault Unit := do
  let leftDim ← left.dimension
  let rightDim ← right.dimension
  if leftDim ≠ rightDim then refuse (.dimensionMismatch symbol leftDim rightDim)
  if !left.pairsWith right then refuse (.notNaturalPairing symbol left right)

/-- For each index of `other` its position in `reference`, which must have the same symbols over the same
factors in any order. -/
def FreeIndex.align (reference other : List FreeIndex) : Except Fault (List Nat) :=
  let different := Refusal.differentFreeIndices (symbols reference) (symbols other)
  if reference.length ≠ other.length then refuse different
  else
    other.mapM fun index =>
      match reference.findIdx? (·.symbol = index.symbol) with
      | none => refuse different
      | some position =>
        match reference[position]? with
        | none => refuse different
        | some match_ =>
          if match_.factor = index.factor then .ok position
          else refuse (.factorMismatch index.symbol [match_.factor] [index.factor])

def FreeIndex.rename (substitute : Symbol → Symbol) (free : List FreeIndex) : List FreeIndex :=
  free.map fun index => { index with symbol := substitute index.symbol }

@[simp] theorem FreeIndex.symbols_rename (substitute : Symbol → Symbol) (free : List FreeIndex) :
    symbols (rename substitute free) = (symbols free).map substitute := by
  simp [symbols, rename, Function.comp_def]

namespace Leaf

variable {α : Type}

def occurrences (symbols : IndexList) (s : Symbol) : List Nat :=
  (symbols.zipIdx.filter fun (t, _) => t = s).map Prod.snd

/-- The symbol at `position` is single, or stands at two slots that pair; the pair is looked at once, at
its first slot. -/
def checkSlot (symbols : IndexList) (factors : List Space) (s : Symbol) (position : Nat) :
    Except Fault Unit :=
  match occurrences symbols s with
  | [_] => .ok ()
  | [first, second] =>
    if first = position then
      match factors[first]?, factors[second]? with
      | some left, some right => checkPairing s left right
      | _, _ => .error .outOfBounds
    else .ok ()
  | _ => refuse (.indexUsedMoreThanTwice s)

def single (symbols : IndexList) (factors : List Space) : List FreeIndex :=
  ((symbols.zip factors).filter fun (s, _) => symbols.count s = 1).map fun (s, factor) => ⟨s, factor⟩

def doubled (symbols : IndexList) : IndexList := (symbols.filter fun s => symbols.count s = 2).eraseDups

def doubledFactors (symbols : IndexList) (factors : List Space) : List Space :=
  (doubled symbols).filterMap fun s => (symbols.zip factors).lookup s

def make (tensor : Tensor α) (symbols : IndexList) : Except Fault (Leaf α) := do
  let factors ← tensor.space.indexedFactors symbols
  symbols.zipIdx.forM fun (s, position) => checkSlot symbols factors s position
  let summedDims ← Space.dimensions (doubledFactors symbols factors)
  let slotDims ← Space.dimensions factors
  let free := single symbols factors
  let used := doubled symbols
  return { tensor, free, used, slotDims, summedDims
           slots := symbols.map (Source.of (FreeIndex.symbols free) used) }

end Leaf

namespace Expression

variable {α : Type}

def index (tensor : Tensor α) (symbols : IndexList) : Except Fault (Expression α) := do
  return .indexed (← Leaf.make tensor symbols)

/-- No symbol that one operand sums may occur in the other. -/
def checkDisjoint (left right : Expression α) : Except Fault Unit := do
  if let some s := left.freeSymbols.find? right.used.contains then
    refuse (.freeIndexCollidesWithUsed s)
  if let some s := right.freeSymbols.find? left.used.contains then
    refuse (.freeIndexCollidesWithUsed s)
  if let some s := left.used.find? right.used.contains then
    refuse (.indexUsedMoreThanTwice s)

def checkContraction (right : List FreeIndex) (index : FreeIndex) : Except Fault Unit :=
  match right.find? (·.symbol = index.symbol) with
  | some other => checkPairing index.symbol index.factor other.factor
  | none => .ok ()

def shared (left right : Expression α) : List FreeIndex :=
  left.free.filter fun index => right.freeSymbols.contains index.symbol

def contraction (left right : Expression α) (summedDims : List Nat) : Contraction :=
  let contracted := FreeIndex.symbols (shared left right)
  let free := (left.free ++ right.free).filter fun index => !contracted.contains index.symbol
  let source := Source.of (FreeIndex.symbols free) contracted
  { free, contracted, summedDims
    used := left.used ++ right.used ++ contracted
    leftSources := left.freeSymbols.map source
    rightSources := right.freeSymbols.map source }

def mul (left right : Expression α) : Except Fault (Expression α) := do
  checkDisjoint left right
  left.free.forM (checkContraction right.free)
  return .product left right (contraction left right (← FreeIndex.dimensions (shared left right)))

/-- The sum or difference of two operands with the same free indices in any order; the result keeps the
order of the left one. -/
def combine (left right : Expression α) (isDifference : Bool) : Except Fault (Expression α) := do
  let positions ← FreeIndex.align left.free right.free
  let used := left.used ++ right.used.filter fun s => !left.used.contains s
  return .sum left right isDifference { used, positions }

def add (left right : Expression α) : Except Fault (Expression α) := combine left right false

def sub (left right : Expression α) : Except Fault (Expression α) := combine left right true

def scaledBy (e : Expression α) (x : α) : Expression α := .scaled e (.times x)

def dividedBy (e : Expression α) (x : α) : Expression α := .scaled e (.divided x)

def negate (e : Expression α) : Expression α := .scaled e .negated

/-- The factors that a bundle's target asks for, and those that the merged indices have to offer: all
nested products expanded for a product, the factors themselves for any other target. -/
def bundleFactors (target : Space) (factors : List Space) :
    Except Fault (List Space × List Space × Bool) :=
  match target with
  | .tensorProduct _ | .tensorPower _ _ => do
    target.reserveFlattened
    Space.reserveAllFlattened factors
    return (target.flattened, Space.flattenedAll factors, true)
  | .symmetricPower _ _ | .exteriorPower _ _ | .diagonal _ _ => do
    target.reserveSplitFactors
    return (target.splitFactors.getD [], factors, false)
  | .based _ | .directSum _ => refuse (.notBundleTarget target)

def positionOf (e : Expression α) (s : Symbol) : Except Fault Nat :=
  match FreeIndex.position? e.free s with
  | some position => .ok position
  | none => refuse (.indexNotFree s)

def indicesAt (e : Expression α) (positions : List Nat) : List FreeIndex :=
  positions.filterMap fun position => e.free[position]?

def bundling (e : Expression α) (merged mergedDims : List Nat) (target : Space) (result : Symbol)
    (isProduct : Bool) : Bundling :=
  let kept := (List.range e.free.length).filter fun position => !merged.contains position
  { free := e.indicesAt kept ++ [⟨result, target⟩]
    kept, merged, mergedDims, target, isProduct }

/-- Merge the free indices `symbols` into one index `result` over `target`, behind the others. -/
def bundle (e : Expression α) (symbols : IndexList) (target : Space) (result : Symbol) :
    Except Fault (Expression α) := do
  if symbols.length < 2 then refuse (.bundleNeedsTwo symbols.length)
  if let some s := symbols.firstRepeat then refuse (.bundleIndicesMustBeDistinct s)
  let merged ← symbols.mapM e.positionOf
  if e.mentions result then refuse (.bundleAndResultMustBeDistinct result)
  let factors := (e.indicesAt merged).map FreeIndex.factor
  let (expected, actual, isProduct) ← bundleFactors target factors
  if expected ≠ actual then refuse (.factorMismatch result expected actual)
  let mergedDims ← Space.dimensions factors
  return .bundled e (e.bundling merged mergedDims target result isProduct)

def splitting (e : Expression α) (position : Nat) (source : Space) (symbols : IndexList)
    (factors : List Space) : Splitting :=
  { free := e.free.take position ++ symbols.zipWith FreeIndex.mk factors ++
      e.free.drop (position + 1)
    position, count := symbols.length, source }

/-- Replace the free index `source` in place by one index for each factor of its space. -/
def splitAt (e : Expression α) (source : Symbol) (symbols : IndexList) :
    Except Fault (Expression α) := do
  match e.free.findIdx? (·.symbol = source) with
  | none => refuse (.indexNotFree source)
  | some position =>
    match e.free[position]? with
    | none => refuse (.indexNotFree source)
    | some index =>
      index.factor.reserveSplitFactors
      match index.factor.splitFactors with
      | none => refuse (.notSplittable index.factor)
      | some factors =>
        if symbols.length ≠ factors.length then
          refuse (.lengthMustBeExactly factors.length symbols.length)
        if let some s := symbols.firstRepeat then refuse (.duplicateFreeIndex s)
        if let some s := symbols.find? e.mentions then refuse (.sourceAndSplitMustBeDistinct s)
        return .split e (e.splitting position index.factor symbols factors)

/-- Rename summed symbols. One whose new name is taken, by a free index or by an earlier summed symbol,
gets a fresh symbol instead, with serial numbers from `serial` on. -/
def renameUsed (rename : Symbol → Symbol) : (taken used : IndexList) → (serial : Nat) →
    IndexList × Nat
  | _, [], serial => ([], serial)
  | taken, s :: rest, serial =>
    if rename s ∈ taken then
      let (symbols, next) := renameUsed rename (.fresh serial :: taken) rest (serial + 1)
      (.fresh serial :: symbols, next)
    else
      let (symbols, next) := renameUsed rename (rename s :: taken) rest serial
      (rename s :: symbols, next)

/-- Substitute the symbols of `source` by those of `target`, place by place; also the next serial number
after the fresh symbols that this takes. -/
def rename (e : Expression α) (source target : IndexList) (serial : Nat) :
    Except Fault (Expression α × Nat) := do
  if source.length ≠ target.length then refuse (.lengthMismatch source.length target.length)
  if let some s := source.firstRepeat <|> target.firstRepeat then refuse (.duplicateFreeIndex s)
  let substitute := IndexList.substitute source target
  let free := FreeIndex.rename substitute e.free
  if let some s := (FreeIndex.symbols free).firstRepeat then refuse (.duplicateFreeIndex s)
  let (used, next) := renameUsed substitute (FreeIndex.symbols free) e.used serial
  return (.renamed e free used, next)

def reindex (e : Expression α) (source target : IndexList) : StoreM α (Expression α) := do
  let serial := (← get).nextSymbol
  let (result, next) ← StoreM.ofExcept (e.rename source target serial)
  modify fun store => { store with nextSymbol := next }
  return result

def eval (e : Expression α) : StoreM α (Expression α) := do
  let dims ← StoreM.ofExcept e.freeDims
  return .cached e (← StoreM.newCache) dims

end Expression

end IndexNotation
