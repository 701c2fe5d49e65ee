import Elementary.Descriptor.Basic
import Elementary.Function
import Elementary.TestCase.Basic

/-!
# Entries of descriptor files

An entry is what a file holds of a descriptor: its numbers are texts, in the form in which they
were given. Entries are built from functions and tests, laid out as documents in two ways, and
turned into descriptors when they are read.

## Main definitions

* `Descriptor.Entry`: the entries.
* `Descriptor.Entry.list`: the entries of functions and tests.
* `Entry.toMap`, `Entry.ofMap`: the layout that names the kind of an entry in a field.
* `Entry.toRecord`, `Descriptor.ofRecord`: the layout that names it by a tag.
* `Entry.exact`: the descriptor of an entry.
-/

namespace Elementary.Descriptor

/-- The **entry of a fit**. The coefficients stand in the order in which they were given. -/
structure FitEntry where
  coefficients : List (Int × String)
  function : String
  target : String
  degrees : List Int
  parity : String
  interval : List String
  errorKind : Document
  error : String

/-- The **entry of a test**. -/
structure TestEntry where
  name : String
  maxError : String
  mode : String
  interval : List String
  sampleCount : Int
  numberType : String

/-- An **entry** of a descriptor file. -/
inductive Entry where
  | fit (e : FitEntry)
  | test (e : TestEntry)

/-- The exact value of a number as text. -/
def exactText (n : Number) : Except Failure String := do Number.shownRat (← n.toRat)

/-- The description of a target, which has to be an expression. -/
def shownTarget (target : Expr.Operand) : Except Failure String :=
  match target with
  | .expr e =>
    if e.isShowable then .ok (Elementary.Fit.targetText target) else .error (.tooManyDigits none)
  | .number _ => .error (.missingPart "a number has no description")

/-- The **entry of a fit** that stands behind a function. -/
def FitEntry.ofResult (function : String) (r : Elementary.Fit.Result) :
    Except Failure FitEntry := do
  let coefficients ← r.polynomial.coefficients.mapM fun (d, c) => do return (d, ← c.shown)
  let target ← shownTarget r.request.target
  let low ← exactText r.request.low
  let high ← exactText r.request.high
  let error ← exactText r.error
  return { coefficients := coefficients
           function := function
           target := String.ofList (Text.strip target.toList)
           degrees := r.polynomial.degrees
           parity := r.request.parity.name
           interval := [low, high]
           errorKind := .text Descriptor.errorKind
           error := error }

/-- The **entry of a test**. -/
def TestEntry.ofTestCase (t : TestCase) : Except Failure TestEntry := do
  let maxError ← exactText t.maxError
  let low ← Number.shownRat t.low.value
  let high ← Number.shownRat t.high.value
  return { name := t.name
           maxError := maxError
           mode := t.mode.tag
           interval := [low, high]
           sampleCount := t.sampleCount
           numberType := t.numberType.tag }

namespace FitEntry

/-- The coefficients as text. -/
def coefficientText (e : FitEntry) : String :=
  "AXF_Polynomial(coeff_map=\x7b" ++
    ", ".intercalate (e.coefficients.map fun (d, c) => toString d ++ ": " ++ Text.quoted c) ++
    "\x7d)"

/-- The coefficients under their degrees, by increasing degree. -/
def coefficientMap (e : FitEntry) : List (Document × Document) :=
  (e.coefficients.mergeSort fun a b => decide (a.1 ≤ b.1)).map fun (d, c) => (.integer d, .text c)

end FitEntry

/-- A field of a layout. -/
def entry (name : String) (value : Document) : Document × Document := (.text name, value)

/-- A list of texts. -/
def textList (texts : List String) : Document := .list (texts.map .text)

/-- A list of integers. -/
def integerList (integers : List Int) : Document := .list (integers.map .integer)

namespace Entry

/-- The integers that are written as such. -/
def writtenIntegers : Entry → List Int
  | fit e => e.degrees
  | test e => [e.sampleCount]

/-- Whether an entry **can be written**: none of its integers has too many digits. -/
def isWritable (e : Entry) : Bool := e.writtenIntegers.all fun n => Text.isShowable n.natAbs

/-- The **entries of functions and tests**: the fits of every function in order, then the tests.
All of them have to be writable. -/
def list (functions : List GeneratedFunction) (tests : List TestCase) :
    Except Failure (List Entry) := do
  let fits ← (functions.flatMap fun f => f.fits.map fun r => (f.name, r)).mapM fun (name, r) =>
    Entry.fit <$> FitEntry.ofResult name r
  let tests ← tests.mapM fun t => Entry.test <$> TestEntry.ofTestCase t
  let entries := fits ++ tests
  if entries.all isWritable then return entries else throw (.tooManyDigits none)

/-- An entry as a map with its **kind in a field**; the fields stand in alphabetical order. -/
def toMap : Entry → Document
  | fit e => .map
    [entry "approx_data" (.map e.coefficientMap),
      entry "approx_error" (.map [entry "type" e.errorKind, entry "value" (.text e.error)]),
      entry "approx_params"
        (.map [entry "degree_list" (integerList e.degrees), entry "parity" (.text e.parity)]),
      entry "class" (.text fitTag),
      entry "function" (.text e.function),
      entry "interval" (textList e.interval),
      entry "target" (.text e.target)]
  | test e => .map
    [entry "class" (.text testTag),
      entry "error_mode" (.text e.mode),
      entry "interval" (textList e.interval),
      entry "max_ulps" (.text e.maxError),
      entry "name" (.text e.name),
      entry "num_samples" (.integer e.sampleCount),
      entry "number_type" (.text e.numberType)]

/-- An entry as a record with its **kind as tag**; the fields stand in alphabetical order. -/
def toRecord : Entry → Document
  | fit e => .record fitTag
    [entry "approx_error" (.record errorTag
        [entry "error_type" e.errorKind, entry "error_value" (.text e.error)]),
      entry "degree_list" (integerList e.degrees),
      entry "function" (.text e.function),
      entry "interval" (textList e.interval),
      entry "parity" (.text e.parity),
      entry "poly" (.record polynomialTag [entry "coeff_map" (.map e.coefficientMap)]),
      entry "target" (.text e.target)]
  | test e => .record testTag
    [entry "error_mode" (.text e.mode),
      entry "interval" (textList e.interval),
      entry "max_ulps" (.text e.maxError),
      entry "name" (.text e.name),
      entry "num_samples" (.integer e.sampleCount),
      entry "number_type" (.text e.numberType)]

/-- The entries of a map of coefficients: degrees, and coefficients as texts. -/
def coefficientsOf : Document → Except Failure (List (Int × String))
  | .map entries => do
    let pairs ← entries.mapM fun (k, v) => do return ((← k.number.toInt), v.shown)
    return (Polynomial.ofList pairs).coefficients
  | _ => .error (.missingPart "no map of coefficients")

/-- The entry of a fit in a map. -/
def fitOfMap (d : Document) : Except Failure FitEntry := do
  let coefficients ← coefficientsOf (← d.field "approx_data")
  let function ← d.field "function"
  let target ← d.field "target"
  let degrees ← (← d.field "approx_params").field "degree_list"
  let parity ← (← d.field "approx_params").field "parity"
  let interval ← d.field "interval"
  let bound ← d.field "approx_error"
  let errorKind ← bound.field "type"
  let error ← bound.field "value"
  let degrees ← integers degrees
  let interval ← interval.elements
  return ⟨coefficients, function.shown, target.shown, degrees, parity.shown,
    interval.map (·.shown), errorKind, error.shown⟩

/-- The entry of a test in a map. -/
def testOfMap (d : Document) : Except Failure TestEntry := do
  let name ← d.field "name"
  let maxError ← d.field "max_ulps"
  let mode ← d.field "error_mode"
  let interval ← d.field "interval"
  let sampleCount ← d.field "num_samples"
  let numberType ← d.field "number_type"
  let interval ← interval.elements
  let sampleCount ← sampleCount.number.toInt
  return ⟨name.shown, maxError.shown, mode.shown, interval.map (·.shown), sampleCount,
    numberType.shown⟩

/-- The **entry in a map** that names its kind in a field. -/
def ofMap (d : Document) : Except Failure Entry := do
  let kind ← d.field "class"
  unless kind.isKey do throw (.wrongKind "a kind is a text")
  if kind.sameKey (.text fitTag) then Entry.fit <$> fitOfMap d
  else if kind.sameKey (.text testTag) then Entry.test <$> testOfMap d
  else throw (.unknownKey kind.shown)

/-- The **descriptor of an entry**. -/
def exact : Entry → Except Failure Descriptor
  | fit e => do
    let coefficients ← e.coefficients.mapM fun (d, c) => do return (d, ← Literal.rational c)
    let parity ← Parity.ofName e.parity
    let interval ← e.interval.mapM Literal.rational
    checkErrorKind e.errorKind
    let error ← Literal.rational e.error
    return .fit ⟨Polynomial.ofList coefficients, .text e.function, .text e.target, e.degrees,
      parity, interval, error⟩
  | test e => do
    let maxError ← Literal.rational e.maxError
    let interval ← e.interval.mapM Literal.rational
    return .test ⟨.text e.name, maxError, .text e.mode, interval, e.sampleCount,
      .text e.numberType⟩

end Entry

/-! ### Records -/

/-- The field of a record, which has to be there. -/
def fieldOf (name : String) : Document → Except Failure Document
  | .record _ fields =>
    match Document.lookup? name fields with
    | some v => .ok v
    | none => .error (.missingPart name)
  | _ => .error (.missingPart name)

/-- The polynomial in a record. -/
def polynomialOfRecord (d : Document) : Except Failure (Polynomial Rat) :=
  match d with
  | .record tag _ => do
    unless tag = polynomialTag do throw (.missingPart "no polynomial")
    match ← fieldOf "coeff_map" d with
    | .map entries => do
      let pairs ← entries.mapM fun (k, v) => do
        let c ← v.number.toRat
        return ((← k.number.toInt), c)
      return Polynomial.ofList pairs
    | _ => throw (.missingPart "no map of coefficients")
  | _ => .error (.missingPart "no polynomial")

/-- The error bound in a record. -/
def errorOfRecord (d : Document) : Except Failure Rat :=
  match d with
  | .record tag _ => do
    unless tag = errorTag do throw (.missingPart "no error bound")
    checkErrorKind (← fieldOf "error_type" d)
    (← fieldOf "error_value" d).number.toRat
  | _ => .error (.missingPart "no error bound")

/-- The descriptor of a fit in a record. -/
def fitOfRecord (d : Document) : Except Failure Descriptor.Fit := do
  let polynomial ← polynomialOfRecord (← fieldOf "poly" d)
  let function ← fieldOf "function" d
  let target ← fieldOf "target" d
  let degrees ← fieldOf "degree_list" d
  let parity ← parityOf (← fieldOf "parity" d)
  let interval ← rationals (← fieldOf "interval" d)
  let error ← errorOfRecord (← fieldOf "approx_error" d)
  return ⟨polynomial, function, target, ← integers degrees, parity, interval, error⟩

/-- The descriptor of a test in a record. -/
def testOfRecord (d : Document) : Except Failure Descriptor.Test := do
  let name ← fieldOf "name" d
  let maxError ← (← fieldOf "max_ulps" d).number.toRat
  let mode ← fieldOf "error_mode" d
  let interval ← rationals (← fieldOf "interval" d)
  let sampleCount ← fieldOf "num_samples" d
  let numberType ← fieldOf "number_type" d
  return ⟨name, maxError, mode, interval, ← sampleCount.number.toInt, numberType⟩

/-- The **descriptor in a record**, by its tag. -/
def ofRecord (d : Document) : Except Failure Descriptor :=
  match d with
  | .record tag _ =>
    if tag = fitTag then .fit <$> fitOfRecord d
    else if tag = testTag then .test <$> testOfRecord d
    else if tag = polynomialTag then .polynomial <$> polynomialOfRecord d
    else .error (.missingPart "no descriptor")
  | _ => .error (.missingPart "no descriptor")

end Elementary.Descriptor
