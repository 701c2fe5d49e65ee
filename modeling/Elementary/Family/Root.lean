import Elementary.Family.Builder

/-!
# Reciprocals and square roots

A reciprocal, and the reciprocal of a square root, start from a polynomial in the mantissa, the
seed, which is refined by Newton's iteration. The square root is the argument times the reciprocal
of its square root.

## Main definitions

* `Root.reciprocalBody`, `Root.refinedRoot`: the bodies, for any seed and number of refinements.
* `Root.family`: the family.
-/

namespace Elementary.Root

open Setting (variableIn scheme)
open Elementary.Expr (assign result call absolute floor exponentInsertion exponentExtraction
  mantissaExtraction compare select)

/-- A statement repeated. -/
def repeated (count : Int) (statement : Expr) : List Expr := List.replicate count.toNat statement

/-- The body of the **reciprocal**: with `am` the magnitude of the mantissa, each refinement
replaces `y` by `y * (2 - am * y)`. -/
def reciprocalBody (nt : NumberType) (seed : Expr) (refinements : Int) : List Expr :=
  let v := variableIn nt
  [assign (v "e") (exponentExtraction (v "arg")),
    assign (v "m") (mantissaExtraction (v "arg")),
    assign (v "am") (absolute (v "m")),
    assign (v "y") seed] ++
  repeated refinements (assign (v "y") (v "y" * (2.0 - v "am" * v "y"))) ++
  [assign (v "y") (select (compare .less (v "m") 0) (-v "y") (v "y")),
    result (v "y" * exponentInsertion (-v "e"))]

/-- The reciprocal. -/
def reciprocal (s : Setting) : Traced GeneratedFunction := do
  let seed ← s.fit (1 / .var "am") (← s.count .reciprocalSeed) (.literal "1") (.literal "2") "am"
    .none
  let expr ← scheme seed
  let refinements ← s.count .reciprocalIterations
  s.build "recip" ["arg"] (reciprocalBody s.numberType expr refinements) [seed]

/-- The **refined reciprocal of a square root**: the argument is `m` times an even power of two,
`m` lying in `[1, 4)`, and each refinement replaces `y` by `y * (1.5 - 0.5 * m * y * y)`. -/
def refinedRoot (nt : NumberType) (seed : Expr) (refinements : Int) : List Expr :=
  let v := variableIn nt
  [assign (v "e") (exponentExtraction (v "arg")),
    assign (v "h") (floor (v "e" * 0.5)),
    assign (v "m") (mantissaExtraction (v "arg") * exponentInsertion (v "e" - 2.0 * v "h")),
    assign (v "y") seed] ++
  repeated refinements (assign (v "y") (v "y" * (1.5 - 0.5 * v "m" * v "y" * v "y")))

/-- The fit of the seed of a square root. -/
def rootSeed (s : Setting) : Traced Fit.Result := do
  s.fit (1 / .mathFunction "sqrt" [.var "m"]) (← s.count .rootSeed) (.literal "1") (.literal "4")
    "m" .none

/-- The body of the **reciprocal of a square root**. -/
def reciprocalRootBody (nt : NumberType) (seed : Expr) (refinements : Int) : List Expr :=
  let v := variableIn nt
  refinedRoot nt seed refinements ++ [result (v "y" * exponentInsertion (-v "h"))]

/-- The body of the **square root**. -/
def squareRootBody (nt : NumberType) (seed : Expr) (refinements : Int) : List Expr :=
  let v := variableIn nt
  refinedRoot nt seed refinements ++ [result (v "m" * v "y" * exponentInsertion (v "h"))]

/-- The reciprocal of a square root. -/
def reciprocalRoot (s : Setting) : Traced GeneratedFunction := do
  let seed ← rootSeed s
  let refinements ← s.count .rootIterations
  s.build "recip_sqrt" ["arg"] (reciprocalRootBody s.numberType (← scheme seed) refinements) [seed]

/-- The square root. -/
def squareRoot (s : Setting) : Traced GeneratedFunction := do
  let seed ← rootSeed s
  let refinements ← s.count .rootIterations
  s.build "sqrt" ["arg"] (squareRootBody s.numberType (← scheme seed) refinements) [seed]

/-- The **tests of the family**. -/
def tests (s : Setting) : List TestCase.Request :=
  let x := Expr.var "x"
  let root := Expr.mathFunction "sqrt" [x]
  let test (name : String) (reference : Expr) : TestCase.Request :=
    s.test name reference (call name [x]) 4 (.literal "1e-3") (.literal "1e3") .relative
  [test "recip" (1 / x), test "recip_sqrt" (1 / root), test "sqrt" root]

/-- The **family** of the reciprocals and square roots. -/
def family (s : Setting) : Traced Family := do
  let recip ← reciprocal s
  let recipSqrt ← reciprocalRoot s
  let sqrt ← squareRoot s
  Family.build [recip, recipSqrt, sqrt] (tests s)

end Elementary.Root
