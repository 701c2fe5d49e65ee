import Elementary.Family.Builder

/-!
# Arctangent, arcsine and arccosine

The arctangent of a large argument is that of its reciprocal, taken from a quarter of a turn. The
arcsine and the arccosine of an argument above one half are twice the arcsine of the square root of
`(1 - x) / 2`.

## Main definitions

* `InverseTrigonometric.arctangentBody`, `arcsineBody`, `arccosineBody`: the bodies.
* `InverseTrigonometric.family`: the family.
-/

namespace Elementary.InverseTrigonometric

open Setting (variableIn scheme)
open Elementary.Expr (assign result call absolute compare select)

/-- A quarter of a turn. -/
def halfPi : Expr := ExactConstant.expr (ExactConstant.pi.scale (-1))

/-- A value with the sign of the argument. -/
def withSign (nt : NumberType) (r : Expr) : Expr :=
  select (compare .less (variableIn nt "arg") 0) (-r) r

/-- The body of the **arctangent**. -/
def arctangentBody (nt : NumberType) (polynomial : Expr) : List Expr :=
  let v := variableIn nt
  [assign (v "ax") (absolute (v "arg")),
    assign (v "big") (compare .greater (v "ax") 1),
    assign (v "t") (select (v "big") (1.0 / v "ax") (v "ax")),
    assign (v "p") polynomial,
    assign (v "r") (select (v "big") (halfPi - v "p") (v "p")),
    result (withSign nt (v "r"))]

/-- The arctangent. -/
def arctangent (s : Setting) (terms : Int) : Traced GeneratedFunction := do
  let fit ← s.fit (.mathFunction "atan" [.var "t"]) terms (.literal "-1") (.literal "1") "t" .odd
  s.build "atan" ["arg"] (arctangentBody s.numberType (← scheme fit)) [fit]

/-- The fit of the arcsine. -/
def arcsineFit (s : Setting) (terms : Int) : Traced Fit.Result :=
  s.fit (.mathFunction "asin" [.var "t"]) terms (.literal "-0.5") (.literal "0.5") "t" .odd

/-- The magnitude of the argument, whether it is small, and the **argument of the polynomial**:
`near` if it is small, and else the square root of half of what it lacks from one. -/
def arcsineReduction (nt : NumberType) (near : Expr) (polynomial : Expr) : List Expr :=
  let v := variableIn nt
  [assign (v "ax") (absolute (v "arg")),
    assign (v "small") (compare .lessOrEqual (v "ax") 0.5),
    assign (v "t") (select (v "small") near (call "sqrt" [(1.0 - v "ax") * 0.5])),
    assign (v "p") polynomial]

/-- The body of the **arcsine**. -/
def arcsineBody (nt : NumberType) (polynomial : Expr) : List Expr :=
  let v := variableIn nt
  arcsineReduction nt (v "ax") polynomial ++
    [assign (v "r") (select (v "small") (v "p") (halfPi - 2.0 * v "p")),
      result (withSign nt (v "r"))]

/-- The body of the **arccosine**. -/
def arccosineBody (nt : NumberType) (polynomial : Expr) : List Expr :=
  let v := variableIn nt
  arcsineReduction nt (v "arg") polynomial ++
    [assign (v "large") (select (compare .less (v "arg") 0)
        (ExactConstant.expr ExactConstant.pi - 2.0 * v "p") (2.0 * v "p")),
      result (select (v "small") (halfPi - v "p") (v "large"))]

/-- The arcsine. -/
def arcsine (s : Setting) (terms : Int) : Traced GeneratedFunction := do
  let fit ← arcsineFit s terms
  s.build "asin" ["arg"] (arcsineBody s.numberType (← scheme fit)) [fit]

/-- The arccosine. -/
def arccosine (s : Setting) (terms : Int) : Traced GeneratedFunction := do
  let fit ← arcsineFit s terms
  s.build "acos" ["arg"] (arccosineBody s.numberType (← scheme fit)) [fit]

/-- The **tests of the family**. -/
def tests (s : Setting) : List TestCase.Request :=
  let test (name : String) (bound : Int) (low high : Number) : TestCase.Request :=
    s.test name (.mathFunction name [.var "x"]) (call name [.var "x"]) bound low high .absolute
  [test "atan" 6 (.integer (-10)) (.integer 10),
    test "asin" 8 (.literal "-0.999") (.literal "0.999"),
    test "acos" 8 (.literal "-0.999") (.literal "0.999")]

/-- The **family** of the inverse trigonometric functions. -/
def family (s : Setting) : Traced Family := do
  let arcsineTerms ← s.count .arcsine
  let atan ← arctangent s (← s.count .arctangent)
  let asin ← arcsine s arcsineTerms
  let acos ← arccosine s arcsineTerms
  Family.build [atan, asin, acos] (tests s)

end Elementary.InverseTrigonometric
