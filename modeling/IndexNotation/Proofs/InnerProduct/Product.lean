import IndexNotation.Proofs.InnerProduct.Squared

namespace IndexNotation

variable {α : Type}

section Factors

variable [Scalar α] {R : Type} [CommRing R] (reading : Reading α R)

namespace Metric

end Metric

end Factors

namespace FreeIndex

end FreeIndex

namespace Expression

variable {u v : Expression α}

section Accepted

variable (apart : ∀ s ∈ u.symbols, s ∉ v.symbols)

include apart

variable [Scalar α]

end Accepted

section Values

variable [Scalar α] (apart : ∀ s ∈ u.symbols, s ∉ v.symbols) {memory : Memory α} {caches : Caches α} {x y z : Array α}

include apart

variable (well : u.WellIndexed) (well' : v.WellIndexed)

include well well'

variable {R : Type} [CommRing R] (reading : Reading α R)
  (fits : ∀ index ∈ u.free ++ v.free, index.factor.OrdersFit)

include fits

end Values

end Expression

end IndexNotation
