import Elementary.Accuracy
import Elementary.Expr.Quantize
import Elementary.Number.Arithmetic

/-!
# Test cases

A test case bounds the error of a candidate against a reference over an interval. The reference
and the ends of the interval are quantized in double precision, the candidate for the number type
that is tested. Samples are spaced evenly in double precision, both ends included.

## Main definitions

* `TestCase`: the test cases, whose interval is never empty.
* `TestCase.Request.build`: the test case that a request describes.
* `TestCase.sample`: the samples.
-/

namespace Elementary

/-- An **end of the interval** of a test: an expression, and the number that its bits stand for. -/
structure TestCase.Bound where
  expr : Expr
  value : Rat

/-- A **test case**: on every sample of the interval, the candidate stays within `maxError` units
in the last place of the reference. -/
structure TestCase where
  name : String
  reference : Expr
  candidate : Expr
  maxError : Number
  low : TestCase.Bound
  high : TestCase.Bound
  numberType : NumberType
  mode : ErrorMode
  sampleCount : Int
  /-- The variable that stands for the sample. -/
  argument : String
  low_lt_high : low.value < high.value

namespace TestCase

/-- The number of samples that is taken unless another is asked for. -/
def defaultSampleCount : Int := 1000

/-- The number type in which the reference and the interval of a test are quantized. -/
def referenceType : NumberType := ⟨.double, false⟩

namespace Bound

/-- The binary format that an operation names. -/
def formatOf : Op → Option Precision
  | .fromBits (some (.binary p)) | .splat (some (.binary p)) | .conversion (some (.binary p)) =>
    some p
  | _ => none

/-- The bound that a quantized expression is: it takes a **bit pattern as a number** of a binary
format. -/
def ofExpr (e : Expr) : Except Failure Bound :=
  match e.operands with
  | [] => .error (.outOfBounds (e.name ++ " has no operand"))
  | pattern :: _ =>
    match pattern.op, formatOf e.op with
    | .bitPattern coding, some p =>
      match p.format.decode? coding with
      | some value => .ok ⟨e, value⟩
      | none => .error (.specialCoding (Text.hexMarked coding) p.name)
    | _, _ => .error (.missingPart (e.name ++ " is no number"))

/-- A bound as a datum of double precision. -/
def datum (b : Bound) : Datum := Datum.ofRat Precision.double.format false b.value

/-- A bound as text. -/
def text (b : Bound) : String := b.datum.text Precision.double.format

end Bound

/-- A **request for a test case**, before anything is quantized. -/
structure Request where
  name : String
  reference : Expr.Operand
  candidate : Expr.Operand
  maxError : Number
  low : Expr.Operand
  high : Expr.Operand
  numberType : NumberType
  mode : ErrorMode
  sampleCount : Int
  argument : String

/-- Whether an error bound is **positive**. -/
def isPositive (n : Number) : Except Failure Bool :=
  match n with
  | .absent | .literal _ | .sequence => .error (.wrongKind "an error bound is a number")
  | .big x _ => .ok (BigFloat.zero.lt x)
  | .double .nan | .single .nan => .ok false
  | .double (.infinite negative) | .single (.infinite negative) => .ok !negative
  | n => n.toRat.map fun q => decide (0 < q)

/-- An expression quantized for a number type. -/
def quantized (nt : NumberType) : Expr.Operand → Traced Expr
  | .number _ => throw (.missingPart "a number is no expression")
  | .expr e => e.quantize nt

/-- An end of an interval, quantized: a number stands for a constant. -/
def quantizedBound : Expr.Operand → Traced Expr
  | .number n => (Expr.constant n).quantize referenceType
  | .expr e => e.quantize referenceType

/-- The **test case of a request**. Its bound has to be positive and its interval not empty. -/
def Request.build (r : Request) : Traced TestCase := do
  unless (← Traced.ofExcept (isPositive r.maxError)) do
    Traced.abort ("test " ++ r.name ++ " requires a positive error bound, not " ++ r.maxError.text)
      (.boundNotPositive r.maxError.text)
  let lowExpr ← quantizedBound r.low
  let highExpr ← quantizedBound r.high
  let low ← Traced.ofExcept (Bound.ofExpr lowExpr)
  let high ← Traced.ofExcept (Bound.ofExpr highExpr)
  if h : low.value < high.value then
    Traced.report (.info "oracle") ("test " ++ r.name ++ " on [" ++ low.text ++ ", " ++ high.text ++
      "] within " ++ r.maxError.text ++ " ulp(s) (" ++ r.mode.tag ++ ")")
    let reference ← quantized referenceType r.reference
    let candidate ← quantized r.numberType r.candidate
    return ⟨r.name, reference, candidate, r.maxError, low, high, r.numberType, r.mode,
      r.sampleCount, r.argument, h⟩
  else
    Traced.abort ("test " ++ r.name ++ " has an empty domain") (.emptyTestDomain r.name)

/-- The error bound as a floating-point number of double precision. An exact bound has to be in
its range. -/
def maxErrorDatum (t : TestCase) : Except Failure Datum :=
  let exact (q : Rat) : Except Failure Datum :=
    match Number.toDouble q with
    | .infinite _ => .error .integerOverflow
    | x => .ok x
  match t.maxError with
  | .double x | .single x => .ok x
  | .big (.infinite negative) _ => .ok (.infinite negative)
  | .big (.finite x) _ => .ok (Number.toDouble x.toRat)
  | n => n.toRat >>= exact

/-- A test case as **text**. -/
def text (t : TestCase) : String :=
  "TestCase(" ++ t.name ++ ", max_ulps=" ++ t.maxError.text ++ ", " ++ t.mode.tag ++ ", [" ++
    t.low.text ++ ", " ++ t.high.text ++ "])"

/-- The number of samples, which cannot be negative. -/
def samples (t : TestCase) : Except Failure Nat :=
  if t.sampleCount < 0 then .error (.negativeSampleCount t.sampleCount)
  else .ok t.sampleCount.toNat

/-- The `i`th of `count` **samples**: so many steps above the lower end, and for the last of
several the upper end itself. A step that vanishes is applied after the division, not before. -/
def sample (t : TestCase) (count i : Nat) : Datum :=
  let fmt := Precision.double.format
  let low := t.low.datum
  let high := t.high.datum
  if 1 < count ∧ i + 1 = count then high
  else
    let width := high.sub fmt low
    let index : Datum := .finite false i
    let parts : Datum := .finite false (count - 1 : Nat)
    let offset :=
      if count ≤ 1 then index.mul fmt width
      else
        let step := width.div fmt parts
        if step.isZero then (index.div fmt parts).mul fmt width else index.mul fmt step
    offset.add fmt low

end TestCase

end Elementary
