import Elementary.Family.Builder

/-!
# Sine, cosine and tangent

The argument is measured in periods or in half periods, and the nearest integer is taken off. A
single pass approximates over a whole period. The quadrant strategy approximates sine and cosine
over a quarter of a period: the measured argument is split twice, at the integers and halfway
between them, so that one of the two remainders is small, and the sign follows from whether the
integer taken off is odd. The tangent is approximated without its poles, which are put back by a
division.

## Main definitions

* `Trigonometric.periodReduction`, `Trigonometric.quadrantReduction`: the reductions.
* `Trigonometric.singlePass`, `Trigonometric.quadrants`: the family for either strategy.
-/

namespace Elementary.Trigonometric

open Setting (variableIn scheme)
open Elementary.Expr (assign result call nearestInteger absolute compare select)

/-- The multiple of the period at which a function is fitted. -/
def ofPeriods (function : String) (x : Expr) : Expr :=
  .mathFunction function [x * .mathConstant "pi" * 2]

/-- The multiple of the half period at which a function is fitted. -/
def ofHalfPeriods (function : String) (x : Expr) : Expr :=
  .mathFunction function [x * .mathConstant "pi"]

/-- The constant by which an argument is measured in periods. -/
def perPeriod : BigFloat := ExactConstant.reciprocal (ExactConstant.pi.scale 1)

/-- The constant by which an argument is measured in half periods. -/
def perHalfPeriod : BigFloat := ExactConstant.reciprocal ExactConstant.pi

/-- The argument measured in units, `scaled`, and what is left of it, `x`, when the **nearest
integer** is taken off. -/
def reduction (nt : NumberType) (unit : BigFloat) : List Expr :=
  let v := variableIn nt
  [assign (v "scaled") (v "arg" * ExactConstant.expr unit),
    assign (v "x") (v "scaled" - nearestInteger (v "scaled"))]

/-- The body of sine or cosine over a whole period. -/
def singlePassBody (nt : NumberType) (polynomial : Expr) : List Expr :=
  reduction nt perPeriod ++ [result polynomial]

/-- The **sine over a period**. -/
def singlePassSine (s : Setting) (terms : Int) : Traced GeneratedFunction := do
  let fit ← s.fit (ofPeriods "sin" (.var "x")) terms (.literal "-0.5") (.literal "0.5") "x" .odd
  s.build "sin" ["arg"] (singlePassBody s.numberType (← scheme fit)) [fit]

/-- The **cosine over a period**. -/
def singlePassCosine (s : Setting) (terms : Int) : Traced GeneratedFunction := do
  let fit ← s.fit (ofPeriods "cos" (.var "x")) terms (.literal "-0.5") (.literal "0.5") "x" .even
  s.build "cos" ["arg"] (singlePassBody s.numberType (← scheme fit)) [fit]

/-- The fits of sine and cosine over a quarter of a period; the cosine has one term more. -/
def quadrantFits (s : Setting) (terms : Int) : Traced (Fit.Result × Fit.Result) := do
  let sine ← s.fit (ofHalfPeriods "sin" (.var "s")) terms (.literal "-0.25") (.literal "0.25") "s"
    .odd
  let cosine ← s.fit (ofHalfPeriods "cos" (.var "c")) (terms + 1) (.literal "-0.25")
    (.literal "0.25") "c" .even
  return (sine, cosine)

/-- The argument `x` in half periods, and half a half period more, `xh`, with the integers next to
them. -/
def quadrantReduction (nt : NumberType) : List Expr :=
  let v := variableIn nt
  [assign (v "x") (v "arg" * ExactConstant.expr perHalfPeriod),
    assign (v "xh") (v "x" + 0.5),
    assign (v "xr") (nearestInteger (v "x")),
    assign (v "xhr") (nearestInteger (v "xh"))]

/-- A value with its sign changed when an integer is odd. -/
def negateOnOdd (k value : Expr) : Expr := call "negate_on_odd" [k, value]

/-- The body of the **sine over quadrants**: the sine of what is left of `x`, or where that is
large the negated cosine of what is left of `xh`. -/
def quadrantSineBody (nt : NumberType) (sine cosine : Expr) : List Expr :=
  let v := variableIn nt
  quadrantReduction nt ++
    [assign (v "s") (v "x" - v "xr"),
      assign (v "c") (v "xh" - v "xhr"),
      assign (v "sr") sine,
      assign (v "cr") (-cosine),
      assign (v "ss") (negateOnOdd (v "xr") (v "sr")),
      assign (v "cs") (negateOnOdd (v "xhr") (v "cr")),
      result (select (compare .lessOrEqual (absolute (v "s")) 0.25) (v "ss") (v "cs"))]

/-- The body of the **cosine over quadrants**: the cosine of what is left of `x`, or where that is
large the sine of what is left of `xh`. -/
def quadrantCosineBody (nt : NumberType) (sine cosine : Expr) : List Expr :=
  let v := variableIn nt
  quadrantReduction nt ++
    [assign (v "c") (v "x" - v "xr"),
      assign (v "s") (v "xh" - v "xhr"),
      assign (v "sr") sine,
      assign (v "cr") cosine,
      assign (v "ss") (negateOnOdd (v "xhr") (v "sr")),
      assign (v "cs") (negateOnOdd (v "xr") (v "cr")),
      result (select (compare .lessOrEqual (absolute (v "c")) 0.25) (v "cs") (v "ss"))]

/-- The sine over quadrants. -/
def quadrantSine (s : Setting) (terms : Int) : Traced GeneratedFunction := do
  let (sine, cosine) ← quadrantFits s terms
  s.build "sin" ["arg"] (quadrantSineBody s.numberType (← scheme sine) (← scheme cosine))
    [sine, cosine]

/-- The cosine over quadrants. -/
def quadrantCosine (s : Setting) (terms : Int) : Traced GeneratedFunction := do
  let (sine, cosine) ← quadrantFits s terms
  s.build "cos" ["arg"] (quadrantCosineBody s.numberType (← scheme sine) (← scheme cosine))
    [sine, cosine]

/-- The body of the **tangent**: the approximation of the function without its poles, divided by
what removed them. -/
def tangentBody (nt : NumberType) (polynomial : Expr) : List Expr :=
  let v := variableIn nt
  reduction nt perHalfPeriod ++
    [assign (v "recip") (1.0 / (v "x" * v "x" - 0.25)),
      assign (v "y") polynomial,
      result (v "y" * v "recip")]

/-- The tangent. -/
def tangent (s : Setting) (terms : Int) : Traced GeneratedFunction := do
  let x := Expr.var "x"
  let fit ← s.fit (ofHalfPeriods "tan" x * (x * x - 0.25)) terms (.literal "-0.499999")
    (.literal "0.499999") "x" .odd
  s.build "tan" ["arg"] (tangentBody s.numberType (← scheme fit)) [fit]

/-- The body of the pair of sine and cosine. -/
def sineCosineBody (nt : NumberType) : List Expr :=
  let v := variableIn nt
  [result (.node .tuple [call "sin" [v "arg"], call "cos" [v "arg"]])]

/-- The **pair of sine and cosine**. -/
def sineCosine (s : Setting) : Traced GeneratedFunction :=
  GeneratedFunction.quantize
    ⟨"sin_cos", s.numberType, ["arg"], sineCosineBody s.numberType, 2, []⟩

/-- The **tests of the family**, with the bounds for sine and cosine. -/
def tests (s : Setting) (sineBound cosineBound : Int) : List TestCase.Request :=
  let x := Expr.var "x"
  let pi := ExactConstant.pi
  let low := ExactConstant.number pi.negate
  let high := ExactConstant.number pi
  let sine := Expr.mathFunction "sin" [x]
  let cosine := Expr.mathFunction "cos" [x]
  let component (index : Int) : Expr := .node (.tupleSelection index) [call "sin_cos" [x]]
  [s.test "sin" sine (call "sin" [x]) sineBound low high .absolute,
    s.test "cos" cosine (call "cos" [x]) cosineBound low high .absolute,
    s.test "tan" (.mathFunction "tan" [x]) (call "tan" [x]) 6
      (ExactConstant.number (pi.scale (-2)).negate) (ExactConstant.number (pi.scale (-2)))
      .absolute,
    s.test "sin_cos_1" sine (component 0) sineBound low high .absolute,
    s.test "sin_cos_2" cosine (component 1) cosineBound low high .absolute]

/-- The family over a whole period. -/
def singlePass (s : Setting) : Traced Family := do
  let terms ← s.count .singlePass
  let sine ← singlePassSine s terms
  let cosine ← singlePassCosine s (terms + 1)
  let tan ← tangent s (← s.count .tangent)
  let pair ← sineCosine s
  Family.build [sine, cosine, tan, pair] (tests s 8 8)

/-- The family over quadrants. -/
def quadrants (s : Setting) : Traced Family := do
  let terms ← s.count .quadrant
  let sine ← quadrantSine s terms
  let cosine ← quadrantCosine s terms
  let tan ← tangent s (← s.count .tangent)
  let pair ← sineCosine s
  Family.build [sine, cosine, tan, pair] (tests s 3 4)

end Elementary.Trigonometric
