import Elementary.Family.Terms
import Elementary.Fit.Solver
import Elementary.Function
import Elementary.TestCase.Basic

/-!
# Building functions

What the generators of all families share: a setting for which functions are generated, fits at its
working precision, exact constants, and functions whose constants are quantized when they are
built. The body of a function is given apart from its fits, as statements over the expressions of
the fitted polynomials.

## Main definitions

* `Setting`: the number type and the width for which functions are generated.
* `Setting.fit`: a fit at the working precision.
* `Setting.build`: a function with every constant quantized.
* `Setting.test`: the request for a test of a function.
* `Family.build`: functions with their tests.
-/

namespace Elementary

/-- A **setting**: the number type of the functions, the width in bits that chooses their accuracy,
and the numbers of terms. -/
structure Setting where
  numberType : NumberType
  width : Int
  terms : TermTables

/-- A **generated family**: functions and their tests. -/
structure Family where
  functions : List GeneratedFunction
  tests : List TestCase

namespace Setting

/-- The variable of a name, in the format of a setting. -/
def variableIn (nt : NumberType) (name : String) : Expr :=
  .node (.var name nt.formatAttribute) []

/-- The number of terms of a kind. -/
def count (s : Setting) (kind : TermKind) : Traced Int := s.terms.count kind s.width

/-- A **fit** with as many digits as the width has bits. -/
def fit (s : Setting) (target : Expr) (terms : Int) (low high : Number) (argument : String)
    (parity : Parity) : Traced Fit.Result :=
  Fit.Request.solve ⟨.expr target, argument, terms, low, high, parity, s.width⟩

/-- The expression of a fit. -/
def scheme (r : Fit.Result) : Traced Expr := Traced.ofExcept r.expression

/-- A **function with every constant quantized**. -/
def build (s : Setting) (name : String) (arguments : List String) (body : List Expr)
    (fits : List Fit.Result) : Traced GeneratedFunction :=
  GeneratedFunction.quantize ⟨name, s.numberType, arguments, body, 1, fits⟩

/-- The request for a **test of a function** against a reference, both at the variable `x`. -/
def test (s : Setting) (name : String) (reference candidate : Expr) (maxError : Int)
    (low high : Number) (mode : ErrorMode) : TestCase.Request :=
  { name := name
    reference := .expr reference
    candidate := .expr candidate
    maxError := .integer maxError
    low := .number low
    high := .number high
    numberType := s.numberType
    mode := mode
    sampleCount := TestCase.defaultSampleCount
    argument := "x" }

end Setting

/-- Functions, and the tests that are requested for them, as a **family**. -/
def Family.build (functions : List GeneratedFunction) (tests : List TestCase.Request) :
    Traced Family :=
  return ⟨functions, ← tests.mapM TestCase.Request.build⟩

/-! ### Constants -/

namespace ExactConstant

/-- The precision of constants in bits. -/
def bits : Nat := BigFloat.constantBits

/-- A constant as a number. -/
def number (x : BigFloat) : Number := .big x (shownDigits bits)

/-- The ratio of a circle to its diameter. -/
def pi : BigFloat := BigFloat.pi bits

/-- The natural logarithm of two. -/
def ln2 : BigFloat := BigFloat.ln2 bits

/-- The reciprocal of a constant. -/
def reciprocal (x : BigFloat) : BigFloat := BigFloat.div bits .one x

/-- A constant as an expression. -/
def expr (x : BigFloat) : Expr := .constant (number x)

/-- A named constant as an expression; zero stands for one that is not there. -/
def named (name : String) : Expr :=
  expr ((BigFloat.constant? bits name).getD .zero)

end ExactConstant

end Elementary
