import IndexNotation.Expression.Component

namespace IndexNotation

namespace Layout

def pieces {β : Type} (size : Nat) : (count : Nat) → List β → List (List β)
  | 0, _ => []
  | count + 1, items => items.take size :: pieces size count (items.drop size)

def row (items : List String) : String := "[" ++ String.join (items.map (· ++ "\t")) ++ "]"

def rows (indent : String) (columns : Nat) (count : Nat) (items : List String) : String :=
  ("\n" ++ indent).intercalate ((pieces columns count items).map row)

def components (symbols : IndexList) (dims : List Nat) (items : List String) : String :=
  let named := "(" ++ ",".intercalate (symbols.map Symbol.text) ++ ")"
  match dims with
  | [] => String.join items
  | [_] => "(" ++ ", ".intercalate items ++ ")" ++ named
  | [count, columns] => "\n[" ++ rows " " columns count items ++ "]\n"
  | [blocks, count, columns] =>
    let block (items : List String) := "[" ++ rows "  " columns count items ++ "]"
    "\n[" ++ "\n\n ".intercalate ((pieces (count * columns) blocks items).map block) ++ "]" ++
      named ++ "\n"
  | _ => "(" ++ ", ".intercalate items ++ ")" ++ named

end Layout

variable {α : Type} [Scalar α]

namespace Expression

/-- The texts of all components, evaluated one by one; with more than three indices they are stored
first, which takes a dimension that does not overflow. -/
def componentTexts (e : Expression α) (dims : List Nat) : EvalM α (List String) := do
  if 3 < dims.length then return (← e.toArray).toList.map Scalar.text
  else
    let texts ← EvalM.foldTuples
      (fun values (acc : Array String) => do return acc.push (Scalar.text (← e.component values)))
      dims #[]
    return texts.toList

def display (e : Expression α) : EvalM α String := do
  let dims ← EvalM.ofExcept e.freeDims
  return Layout.components e.freeSymbols dims (← e.componentTexts dims)

end Expression

namespace Tensor

/-- The symbols by which a tensor is shown: one for each of two or three factors, or a single one. -/
def displaySymbols (t : Tensor α) : IndexList :=
  let count := match t.space.tensorFactors with
    | some factors => if factors.length = 2 ∨ factors.length = 3 then factors.length else 1
    | none => 1
  ([.letter 'i', .letter 'j', .letter 'k'] : IndexList).take count

def display (t : Tensor α) : EvalM α String := do
  let e ← EvalM.ofExcept (Expression.index t t.displaySymbols)
  e.display

end Tensor

end IndexNotation
