import IndexNotation.Expression.Text
import IndexNotation.LinearMap
import IndexNotation.Scalar.Complex
import IndexNotation.Scalar.Integer
import IndexNotation.Proofs.Expression.Accepted
import IndexNotation.Proofs.Expression.Alignment
import IndexNotation.Proofs.Expression.WellIndexed
import IndexNotation.Proofs.Expression.Session
import IndexNotation.Proofs.Binomial
import IndexNotation.Proofs.Evaluation
import IndexNotation.Proofs.Expression.Caches
import IndexNotation.Proofs.Expression.Contraction
import IndexNotation.Proofs.Expression.FlatSum
import IndexNotation.Proofs.Packed
import IndexNotation.Proofs.Space.Index
import IndexNotation.Proofs.DirectAssignment
import IndexNotation.Proofs.Expression.Composition
import IndexNotation.Proofs.Expression.Sound
import IndexNotation.Proofs.PackedNorm
import IndexNotation.Proofs.BlockDiagonal
import IndexNotation.Proofs.Expression.RoundTrip
import IndexNotation.Proofs.Expression.Regathering
import IndexNotation.Proofs.Expression.BundledContraction
import IndexNotation.Proofs.Expression.CachedRuns
import IndexNotation.Proofs.Expression.Distribution
import IndexNotation.Proofs.Definite
import IndexNotation.Proofs.Origins
import IndexNotation.Proofs.Expression.MatrixProduct
import IndexNotation.Proofs.Expression.Renaming
import IndexNotation.Proofs.Filling
import IndexNotation.Proofs.LinearMap.Apply
import IndexNotation.Proofs.LinearMap.Compose
import IndexNotation.Proofs.Summands
import IndexNotation.Proofs.Expression.SplitSymmetry
import IndexNotation.Proofs.Expression.Factorwise
import IndexNotation.Proofs.FailedAssignment
import IndexNotation.Proofs.Freezing
import IndexNotation.Proofs.Space.Exact
import IndexNotation.Proofs.InnerProduct.Defined
import IndexNotation.Proofs.InnerProduct.Split
import IndexNotation.Proofs.InnerProduct.Squared
import IndexNotation.Proofs.InnerProduct.Product
import IndexNotation.Proofs.InnerProduct.Summands
import IndexNotation.Proofs.SummandOffsets
import IndexNotation.Proofs.MultiIndex
import IndexNotation.Proofs.Expression.AtMultiIndex
import IndexNotation.Proofs.Space.Duality
import IndexNotation.Proofs.Expression.Identity
import IndexNotation.Proofs.Windows
import IndexNotation.Proofs.Tally
import IndexNotation.Proofs.Expression.ReadCounts
