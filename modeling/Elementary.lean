import Elementary.Log.Template
import Elementary.Main
import Elementary.Proofs.Accuracy
import Elementary.Proofs.BigFloat.Exact
import Elementary.Proofs.C.Constant
import Elementary.Proofs.C.Declaration
import Elementary.Proofs.C.Reading
import Elementary.Proofs.Computation
import Elementary.Proofs.Descriptor.Export
import Elementary.Proofs.Evaluation.Basic
import Elementary.Proofs.Evaluation.Containment
import Elementary.Proofs.Evaluation.Denotation
import Elementary.Proofs.Evaluation.Exact
import Elementary.Proofs.Evaluation.Quantize
import Elementary.Proofs.Evaluation.Rejection
import Elementary.Proofs.Evaluation.Sequence
import Elementary.Proofs.Evaluation.Shape
import Elementary.Proofs.Expr.Basic
import Elementary.Proofs.Expr.Description
import Elementary.Proofs.Expr.Failing
import Elementary.Proofs.Expr.Graph
import Elementary.Proofs.Expr.Numeral
import Elementary.Proofs.Expr.Quantize
import Elementary.Proofs.Expr.Rewriting
import Elementary.Proofs.Expr.Transformation
import Elementary.Proofs.Expr.Visit
import Elementary.Proofs.Family.Generation
import Elementary.Proofs.Family.Logarithm
import Elementary.Proofs.Family.QuadrantDomain
import Elementary.Proofs.Family.QuadrantSign
import Elementary.Proofs.Family.Refinement
import Elementary.Proofs.Family.Scaling
import Elementary.Proofs.Family.Symmetry
import Elementary.Proofs.Family.Tangent
import Elementary.Proofs.Fit.Alternation
import Elementary.Proofs.Fit.BestApproximation
import Elementary.Proofs.Fit.GoldenSection
import Elementary.Proofs.Format.Coding
import Elementary.Proofs.Format.Magnitude
import Elementary.Proofs.Format.Order
import Elementary.Proofs.Format.Overflow
import Elementary.Proofs.Native.Agreement
import Elementary.Proofs.Number.Conversion
import Elementary.Proofs.Polynomial.Parity
import Elementary.Proofs.Polynomial.Selection
import Elementary.Proofs.Source.Acceptance
import Elementary.Proofs.Source.Names
import Elementary.Proofs.Source.Nesting
import Elementary.Proofs.TestCase.Isolation
import Elementary.Registry
import Elementary.TestCase.Measurement
