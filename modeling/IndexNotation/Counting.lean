import IndexNotation.Size

namespace IndexNotation.Counting

def binomialFrom (n : Nat) : (count i acc : Nat) → Except Fault Nat
  | 0, _, acc => .ok acc
  | count + 1, i, acc => do
    let grown ← Size.mul acc (n - i)
    binomialFrom n count (i + 1) (grown / (i + 1))

/-- How many `k`-element subsets an `n`-element set has. The product runs over the smaller of `k` and
`n - k` and overflows when one of its steps does. -/
def binomial (n k : Nat) : Except Fault Nat :=
  if n < k then .ok 0 else binomialFrom n (min k (n - k)) 0 1

/-- How many non-increasing lists of length `order` there are over `n` values. -/
def symmetricDimension (order n : Nat) : Except Fault Nat :=
  if n = 0 then .ok (if order = 0 then 1 else 0)
  else do binomial ((← Size.add n order) - 1) order

/-- How many strictly decreasing lists of length `order` there are over `n` values. -/
def exteriorDimension (order n : Nat) : Except Fault Nat := binomial n order

def insertAscending (x : Nat) : List Nat → List Nat
  | [] => [x]
  | y :: rest => if x ≤ y then x :: y :: rest else y :: insertAscending x rest

def sortAscending (parts : List Nat) : List Nat := parts.foldr insertAscending []

def runLengths : List Nat → List Nat
  | [] => []
  | x :: rest =>
    match rest, runLengths rest with
    | y :: _, run :: runs => if x = y then (run + 1) :: runs else 1 :: run :: runs
    | _, runs => 1 :: runs

/-- Place `run` equal values among themselves and the `placed` values before them. -/
def placeRun (state : Nat × Nat) (run : Nat) : Except Fault (Nat × Nat) := do
  let placed := state.1 + run
  return (placed, ← Size.mul state.2 (← binomial placed run))

def orderings (parts : List Nat) : Except Fault Nat := do
  return (← (runLengths (sortAscending parts)).foldlM placeRun (0, 1)).2

end IndexNotation.Counting
