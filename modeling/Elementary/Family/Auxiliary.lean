import Elementary.Family.Builder

/-!
# Auxiliary functions

Functions that other families call: a value negated when an integer is odd, and the length of a
vector of two components.

## Main definitions

* `Auxiliary.negateOnOddBody`, `Auxiliary.lengthBody`: the bodies.
* `Auxiliary.family`: the family.
-/

namespace Elementary.Auxiliary

open Setting (variableIn)
open Elementary.Expr (assign result call nearestInteger isOdd select mulAdd)

/-- The body of the function that **negates a value when an integer is odd**. -/
def negateOnOddBody (nt : NumberType) : List Expr :=
  let v := variableIn nt
  [result (select (isOdd (v "k")) (-v "v") (v "v"))]

/-- The body of the **length of a vector**. -/
def lengthBody (nt : NumberType) : List Expr :=
  let v := variableIn nt
  [assign (v "s") (mulAdd (v "x") (v "x") (v "y" * v "y")),
    result (call "sqrt" [v "s"])]

/-- A value negated when an integer is odd. -/
def negateOnOdd (s : Setting) : Traced GeneratedFunction :=
  s.build "negate_on_odd" ["k", "v"] (negateOnOddBody s.numberType) []

/-- The length of a vector of two components. -/
def length (s : Setting) : Traced GeneratedFunction :=
  s.build "hypot" ["x", "y"] (lengthBody s.numberType) []

/-- The **tests of the family**. -/
def tests (s : Setting) : List TestCase.Request :=
  let x := Expr.var "x"
  [s.test "negate_on_odd" (.mathFunction "cos" [.mathConstant "pi" * nearestInteger x])
      (call "negate_on_odd" [nearestInteger x, 1.0]) 1 (.integer (-10)) (.integer 10) .absolute,
    s.test "hypot" (.mathFunction "hypot" [x, 0.5 * x]) (call "hypot" [x, 0.5 * x]) 6
      (.literal "1e-3") (.literal "1e3") .relative]

/-- The **family** of the auxiliary functions. -/
def family (s : Setting) : Traced Family := do
  let negate ← negateOnOdd s
  let hypot ← length s
  Family.build [negate, hypot] (tests s)

end Elementary.Auxiliary
