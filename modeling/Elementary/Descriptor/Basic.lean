import Elementary.Document.Basic
import Elementary.Polynomial.Basic

/-!
# Descriptors

A descriptor tells what a generated library was made from: the fits behind its functions, and the
tests with their bounds. Its numbers are exact. What only names something is kept as it was found
in a document.

## Main definitions

* `Descriptor.Fit`: a polynomial, what it approximates, where, and how well.
* `Descriptor.Test`: the samples and the bound of a test.
* `Descriptor`: either of these, or a polynomial by itself.
* `Descriptor.rationals`, `Descriptor.integers`: the numbers in a part of a document.
-/

namespace Elementary

namespace Descriptor

/-- The **descriptor of a fit**. Its error is absolute. -/
structure Fit where
  polynomial : Polynomial Rat
  function : Document
  target : Document
  degrees : List Int
  parity : Parity
  interval : List Rat
  error : Rat

/-- The **descriptor of a test**. -/
structure Test where
  name : Document
  maxError : Rat
  mode : Document
  interval : List Rat
  sampleCount : Int
  numberType : Document

end Descriptor

/-- A **descriptor**. -/
inductive Descriptor where
  | fit (f : Descriptor.Fit)
  | test (t : Descriptor.Test)
  | polynomial (p : Polynomial Rat)

namespace Descriptor

/-- The kind of the error bounds that are kept. -/
def errorKind : String := "absolute"

/-- The tag of a fit. -/
def fitTag : String := "!SimplePolyApprox"

/-- The tag of a test. -/
def testTag : String := "!TestCase"

/-- The tag of a polynomial. -/
def polynomialTag : String := "!Polynomial"

/-- The tag of an error bound. -/
def errorTag : String :=
  "tag:yaml.org,2002:python/object:libmgen_core.utility.axf_utils.AXF_ApproxError"

/-- The tags of all records in descriptors. -/
def tags : List String := [fitTag, testTag, polynomialTag, errorTag]

/-- The **rationals** that the elements of a value denote. -/
def rationals (d : Document) : Except Failure (List Rat) := do
  (← d.elements).mapM fun e => e.number.toRat

/-- The **integers** that the elements of a value denote. -/
def integers (d : Document) : Except Failure (List Int) := do
  (← d.elements).mapM fun e => e.number.toInt

/-- The **parity** that a value names. -/
def parityOf : Document → Except Failure Parity
  | .text s => Parity.ofName s
  | d => .error (.unknownParity d.quoted)

/-- Refuses every **kind of error** but the one that is kept. -/
def checkErrorKind : Document → Except Failure Unit
  | .text s => if s = errorKind then .ok () else .error (.notProvided "")
  | _ => .error (.notProvided "")

end Descriptor

end Elementary
