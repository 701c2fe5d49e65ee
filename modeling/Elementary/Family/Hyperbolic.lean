import Elementary.Family.Builder

/-!
# Hyperbolic functions

Near zero the hyperbolic functions are polynomials; farther away they follow from the exponential.

## Main definitions

* `Hyperbolic.sineBody`, `cosineBody`, `tangentBody`: the bodies.
* `Hyperbolic.family`: the family.
-/

namespace Elementary.Hyperbolic

open Setting (variableIn scheme)
open Elementary.Expr (assign result call absolute compare select)

/-- The polynomial for an argument of magnitude at most one, and half of the `combined`
exponentials of the argument and of its negation for any other. -/
def byExponentials (nt : NumberType) (combine : Expr → Expr → Expr) (polynomial : Expr) :
    List Expr :=
  let v := variableIn nt
  [assign (v "p") polynomial,
    assign (v "q") (combine (call "exp" [v "arg"]) (call "exp" [-v "arg"]) * 0.5),
    result (select (compare .lessOrEqual (absolute (v "arg")) 1) (v "p") (v "q"))]

/-- The body of the **hyperbolic sine**. -/
def sineBody (nt : NumberType) (polynomial : Expr) : List Expr :=
  byExponentials nt (· - ·) polynomial

/-- The body of the **hyperbolic cosine**. -/
def cosineBody (nt : NumberType) (polynomial : Expr) : List Expr :=
  byExponentials nt (· + ·) polynomial

/-- The hyperbolic sine. -/
def sine (s : Setting) (terms : Int) : Traced GeneratedFunction := do
  let fit ←
    s.fit (.mathFunction "sinh" [.var "arg"]) terms (.literal "-1") (.literal "1") "arg" .odd
  s.build "sinh" ["arg"] (sineBody s.numberType (← scheme fit)) [fit]

/-- The hyperbolic cosine. -/
def cosine (s : Setting) (terms : Int) : Traced GeneratedFunction := do
  let fit ← s.fit (.mathFunction "cosh" [.var "arg"]) terms (.literal "-1") (.literal "1") "arg"
    .even
  s.build "cosh" ["arg"] (cosineBody s.numberType (← scheme fit)) [fit]

/-- The bound of the domain of the polynomial of the hyperbolic tangent, as a literal. -/
def tangentBound : String := "0.625"

/-- The body of the **hyperbolic tangent**: beyond the polynomial, `1 - 2 / (exp (2 |x|) + 1)` with
the sign of the argument. -/
def tangentBody (nt : NumberType) (polynomial : Expr) : List Expr :=
  let v := variableIn nt
  [assign (v "ax") (absolute (v "arg")),
    assign (v "p") polynomial,
    assign (v "q") (1.0 - 2.0 / (call "exp" [2.0 * v "ax"] + 1.0)),
    assign (v "q") (select (compare .less (v "arg") 0) (-v "q") (v "q")),
    result (select (compare .lessOrEqual (v "ax") (.literal tangentBound)) (v "p") (v "q"))]

/-- The hyperbolic tangent. -/
def tangent (s : Setting) (terms : Int) : Traced GeneratedFunction := do
  let fit ← s.fit (.mathFunction "tanh" [.var "arg"]) terms (.literal ("-" ++ tangentBound))
    (.literal tangentBound) "arg" .odd
  s.build "tanh" ["arg"] (tangentBody s.numberType (← scheme fit)) [fit]

/-- The **tests of the family**. -/
def tests (s : Setting) : List TestCase.Request :=
  ["sinh", "cosh", "tanh"].map fun name =>
    s.test name (.mathFunction name [.var "x"]) (call name [.var "x"]) 6 (.integer (-10))
      (.integer 10) .relative

/-- The **family** of the hyperbolic functions. -/
def family (s : Setting) : Traced Family := do
  let sinh ← sine s (← s.count .hyperbolicSine)
  let cosh ← cosine s (← s.count .hyperbolicCosine)
  let tanh ← tangent s (← s.count .hyperbolicTangent)
  Family.build [sinh, cosh, tanh] (tests s)

end Elementary.Hyperbolic
