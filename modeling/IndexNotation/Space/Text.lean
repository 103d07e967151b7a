import IndexNotation.Space.Basic
import IndexNotation.Text.Quoted

namespace IndexNotation

def Field.text : Field → String
  | .real => "Real"
  | .complex => "Complex"

namespace Space

mutual

/-- Mathematical notation; a based space is its name, a star when dual, and its dimension. -/
def text : Space → String
  | .based v => v.name ++ (if v.isDual then "*" else "") ++ "[" ++ toString v.size ++ "]"
  | .tensorProduct factors => "(" ++ " ⊗ ".intercalate (texts factors) ++ ")"
  | .tensorPower order factor => text factor ++ "^⊗" ++ toString order
  | .symmetricPower order factor => "Sym^" ++ toString order ++ "(" ++ text factor ++ ")"
  | .exteriorPower order factor => "Λ^" ++ toString order ++ "(" ++ text factor ++ ")"
  | .directSum summands => "(" ++ " ⊕ ".intercalate (texts summands) ++ ")"
  | .diagonal left right => "Diag(" ++ text left ++ " ⊗ " ++ text right ++ ")"

def texts : List Space → List String
  | [] => []
  | s :: rest => text s :: texts rest

end

def factorsText (factors : List Space) : String := " ⊗ ".intercalate (texts factors)

mutual

def detail : Space → String
  | .based v => Text.applied "Space" [Text.record "BasedVectorSpace" [
      ("space", Text.record "VectorSpace" [("field", v.field.text), ("dimension", toString v.size),
        ("id", Text.quoted v.name), ("dual", toString v.isDual)]),
      ("basis", Text.record "Basis" [("id", Text.quoted v.basis.name),
        ("dual", toString v.basis.isDual)])]]
  | .tensorProduct factors => Text.applied "TensorProduct" [Text.bracketed (details factors)]
  | .tensorPower order factor =>
    Text.record "TensorPower" [("order", toString order), ("factor", detail factor)]
  | .symmetricPower order factor =>
    Text.record "SymmetricPower" [("order", toString order), ("factor", detail factor)]
  | .exteriorPower order factor =>
    Text.record "ExteriorPower" [("order", toString order), ("factor", detail factor)]
  | .directSum summands => Text.applied "DirectSum" [Text.bracketed (details summands)]
  | .diagonal left right => Text.applied "Diagonal2Tensor" [detail left, detail right]

def details : List Space → List String
  | [] => []
  | s :: rest => detail s :: details rest

end

end Space

end IndexNotation
