import Elementary.Evaluation.Emulation
import Elementary.Evaluation.Reference
import Elementary.TestCase.Basic

/-!
# Measured errors

A test case is measured by evaluating its candidate in the emulated format and its reference with
twice as many digits as the format has bits, and taking the largest error over the samples.

## Main definitions

* `TestCase.errorAt`: the error at one sample.
* `TestCase.largestError`: the largest error over some samples.
-/

namespace Elementary.TestCase

/-- The error of a test case is measured for a **value of its candidate** that is finite. A tuple
has no single truth value unless it has one component. -/
def isFinite (v : Value Scalar) : Except Failure Bool :=
  match v with
  | .number (.binary _ x) | .number (.untyped x) => .ok x.isFinite
  | .number (.integer n) =>
    if -Int.pow 2 63 ≤ n ∧ n < Int.pow 2 64 then .ok true
    else .error (.wrongKind "the integer is too large")
  | .truth _ | .number (.truth _) | .number (.flag _) => .ok true
  | .nothing => .error (.wrongKind "a number is needed")
  | .tuple [] => .error .emptyTruth
  | .tuple [v] => isFinite v
  | .tuple (_ :: _ :: _) => .error .ambiguousTruth

/-- The exact value of a candidate. -/
def candidateRat : Value Scalar → Except Failure Rat
  | .number x => x.toRat
  | .truth b => .ok (if b then 1 else 0)
  | _ => .error (.wrongKind "a number is needed")

/-- The exact value of a reference. -/
def referenceRat (digits : Nat) : Value Quantity → Except Failure Rat
  | .number x => x.toRat digits
  | .truth b => .ok (if b then 1 else 0)
  | _ => .error (.wrongKind "a number is needed")

/-- The number of digits with which a reference is evaluated. -/
def referenceDigits (p : Precision) : Nat := 2 * p.format.bitSize

/-- The **error of a test case at a sample**, in units in the last place of a precision. The
reference is evaluated before the candidate. -/
def errorAt (t : TestCase) (functions : List GeneratedFunction) (p : Precision) (sample : Number) :
    Except Failure Rat := do
  let digits := referenceDigits p
  let x ← Scalar.ofValue (← Emulation.ofNumber p sample)
  let exact ← x.toRat
  let reference ← (Reference.arithmetic digits).evaluateWith [] t.reference
    [(t.argument, ← Reference.ofNumber digits (.ratio exact))]
  let candidate ← (Emulation.arithmetic p).evaluateWith functions t.candidate
    [(t.argument, .number x)]
  unless (← isFinite candidate) do
    .error (.candidateNotFinite t.name (x.typed.2.text p.format))
  return t.mode.ulpError p.format (← candidateRat candidate) (← referenceRat digits reference)

/-- The samples of a test case as numbers. -/
def sampleNumbers (t : TestCase) : Except Failure (List Number) := do
  let count ← t.samples
  return (List.range count).map fun i => .double (t.sample count i)

/-- The **largest error** of a test case over some samples, zero for none. -/
def largestError (t : TestCase) (functions : List GeneratedFunction) (p : Precision)
    (samples : List Number) : Except Failure Rat :=
  samples.foldlM (fun largest x => do
    let error ← t.errorAt functions p x
    return if largest < error then error else largest) 0

end Elementary.TestCase
