import Elementary.Family.Builder

/-!
# Exponentials and logarithms

The exponential takes off the nearest multiple of the logarithm of two, which is split into a head
short enough for exact products and a tail. A logarithm splits its argument into a power of two and
a mantissa around one, and approximates in `(m - 1) / (m + 1)`.

## Main definitions

* `Exponential.naturalBody`, `binaryBody`, `logarithmBody`: the bodies.
* `Exponential.Base`: the bases of the logarithms.
* `Exponential.family`: the family.
-/

namespace Elementary.Exponential

open Setting (variableIn scheme)
open Elementary.Expr (assign result call nearestInteger exponentInsertion exponentExtraction
  mantissaExtraction compare select mulAdd)

/-- The number of bits of the multiple that the exponential takes off. -/
def quotientBits : Int := 11

/-- The logarithm of two **split into a head and a tail**: with a multiple of `quotientBits` bits,
the product of the head still fits a significand. -/
def splitLn2 (significandBits : Int) : Rat × Rat :=
  let ln2 := (ExactConstant.ln2.toRat?).getD 0
  let head := truncateToBits ln2 (significandBits - quotientBits)
  (head, ln2 - head)

/-- The body of the **natural exponential**. -/
def naturalBody (nt : NumberType) (head tail : Rat) (polynomial : Expr) : List Expr :=
  let v := variableIn nt
  [assign (v "k") (nearestInteger (v "arg" * ExactConstant.named "log2e")),
    assign (v "r") ((v "arg" - v "k" * .constant (.ratio head)) - v "k" * .constant (.ratio tail)),
    assign (v "p") polynomial,
    result (v "p" * exponentInsertion (v "k"))]

/-- The size of the significand of a format with a given width. -/
def significandBits (width : Int) : Except Failure Int :=
  match Precision.ofBitSize? width with
  | some p => .ok (p.format.fieldSize + 1)
  | none => .error (.unknownKey (toString width))

/-- The natural exponential. -/
def natural (s : Setting) (terms : Int) : Traced GeneratedFunction := do
  let (head, tail) := splitLn2 (← Traced.ofExcept (significandBits s.width))
  let half := ExactConstant.ln2.scale (-1)
  let fit ← s.fit (.mathFunction "exp" [.var "r"]) terms (ExactConstant.number half.negate)
    (ExactConstant.number half) "r" .none
  s.build "exp" ["arg"] (naturalBody s.numberType head tail (← scheme fit)) [fit]

/-- The body of the **binary exponential**. -/
def binaryBody (nt : NumberType) (polynomial : Expr) : List Expr :=
  let v := variableIn nt
  [assign (v "k") (nearestInteger (v "arg")),
    assign (v "r") (v "arg" - v "k"),
    assign (v "p") polynomial,
    result (v "p" * exponentInsertion (v "k"))]

/-- The binary exponential. -/
def binary (s : Setting) (terms : Int) : Traced GeneratedFunction := do
  let fit ← s.fit (.mathFunction "exp2" [.var "r"]) terms (.literal "-0.5") (.literal "0.5") "r"
    .none
  s.build "exp2" ["arg"] (binaryBody s.numberType (← scheme fit)) [fit]

/-- The **bases** of the logarithms. -/
inductive Base where
  | natural
  | two
  | ten
  deriving DecidableEq, Repr

namespace Base

/-- The name of the logarithm of a base. -/
def name : Base → String
  | natural => "ln"
  | two => "log2"
  | ten => "log10"

/-- The base whose logarithm has a given name. -/
def ofName (s : String) : Except Failure Base :=
  match [natural, two, ten].find? (·.name = s) with
  | some b => .ok b
  | none => .error (.unknownKey s)

/-- The **logarithm of two** in a base. -/
def logarithmOfTwo : Base → BigFloat
  | natural => ExactConstant.ln2
  | two => .one
  | ten =>
    match MathFunction.apply ExactConstant.bits .log10 [.ofInt 2] with
    | .ok (.real x) => x
    | _ => .zero

end Base

/-- The bound of `(m - 1) / (m + 1)` for a mantissa around one, as a literal. -/
def reducedBound : String := "0.1716"

/-- The body of a **logarithm**: a mantissa above the square root of two is halved, and what is left
of the argument is approximated in `t`. -/
def logarithmBody (nt : NumberType) (logarithmOfTwo : Expr) (polynomial : Expr) : List Expr :=
  let v := variableIn nt
  [assign (v "e") (exponentExtraction (v "arg")),
    assign (v "m") (mantissaExtraction (v "arg")),
    assign (v "big") (compare .greater (v "m") (ExactConstant.named "sqrt2")),
    assign (v "m") (select (v "big") (v "m" * 0.5) (v "m")),
    assign (v "e") (select (v "big") (v "e" + 1) (v "e")),
    assign (v "t") ((v "m" - 1) / (v "m" + 1)),
    assign (v "p") polynomial,
    result (mulAdd (v "e") logarithmOfTwo (v "p"))]

/-- The target that a logarithm is fitted to. -/
def logarithmTarget (b : Base) : Expr :=
  let t := Expr.var "t"
  .mathFunction b.name [(1 + t) / (1 - t)]

/-- The **logarithm to a base**. -/
def logarithm (s : Setting) (b : Base) (terms : Int) : Traced GeneratedFunction := do
  let fit ← s.fit (logarithmTarget b) terms (.literal ("-" ++ reducedBound)) (.literal reducedBound)
    "t" .odd
  let body := logarithmBody s.numberType (ExactConstant.expr b.logarithmOfTwo) (← scheme fit)
  s.build b.name ["arg"] body [fit]

/-- The **tests of the family**. -/
def tests (s : Setting) : List TestCase.Request :=
  let test (name : String) (bound : Int) (low high : Number) : TestCase.Request :=
    s.test name (.mathFunction name [.var "x"]) (call name [.var "x"]) bound low high .relative
  [test "exp" 4 (.integer (-10)) (.integer 10),
    test "exp2" 4 (.integer (-10)) (.integer 10),
    test "ln" 4 (.literal "1e-3") (.literal "1e3"),
    test "log2" 4 (.literal "1e-3") (.literal "1e3"),
    test "log10" 6 (.literal "1e-3") (.literal "1e3")]

/-- The **family** of the exponentials and logarithms. -/
def family (s : Setting) : Traced Family := do
  let exponentialTerms ← s.count .exponential
  let logarithmTerms ← s.count .logarithm
  let exp ← natural s exponentialTerms
  let exp2 ← binary s exponentialTerms
  let ln ← logarithm s .natural logarithmTerms
  let log2 ← logarithm s .two logarithmTerms
  let log10 ← logarithm s .ten logarithmTerms
  Family.build [exp, exp2, ln, log2, log10] (tests s)

end Elementary.Exponential
