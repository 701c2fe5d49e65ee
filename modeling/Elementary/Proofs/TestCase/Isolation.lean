import Elementary.Proofs.C.Trial
import Elementary.Proofs.Native.Trial

/-!
# The variables of written tests

The tests of both backends have variables of their own, and compute with the names of functions. A
test runs like its trial, so both of its expressions are evaluated at the sample, if the variable
for the sample stays apart from these names. In Python that leaves most of the other variables of
a test free for it, in C none of them.

No name is kept from a test case, and a variable that is called like what a test computes is taken
for it. In Python a candidate over the variable `reference` is evaluated at the value of the
reference, so every candidate that is the identity passes; in C the test declares that name twice.

## Main definitions

* `Native.ModuleObject`, `Native.Interpretation.module`: the library, the helpers and the functions
  of the language as tests call them.

## Main results

* `TestCase.runs_like_trial`: the tests of a test case run like its trial.
-/

namespace Elementary

/-! ### A module with its library -/

namespace Native

/-- The **objects of a module**, as far as tests use them: values, arrays of them, texts, and what
is known by its name. -/
inductive ModuleObject where
  | value (v : Value Scalar)
  | array (elements : List (Value Scalar))
  | text (s : String)
  | named (name : String)
  | member (name label : String)

/-- The samples between two numbers, both included, as the library **spaces** them. -/
def linspace (low high : Datum) (count : Nat) : List Datum :=
  let fmt := Precision.double.format
  let step := (high.sub fmt low).div fmt (Scalar.ofInteger (max (count - 1) 1 : Nat))
  (List.range count).map fun i =>
    if 1 < count ∧ i + 1 = count then high
    else ((Scalar.ofInteger i).mul fmt step).add fmt low

/-- The **unit** in which errors are measured, as the helper of every module computes it. -/
def ulpScale (reference : Datum) (fieldSize minExponent : Int) (relative : Bool) : Datum :=
  let fmt := Precision.double.format
  if relative then
    let smallest := Datum.powerOfTwo fmt minExponent
    let magnitude := if reference.abs.compare? smallest = some .lt then smallest else reference.abs
    Datum.powerOfTwo fmt (magnitude.split.2 - 1 - fieldSize)
  else Datum.powerOfTwo fmt (-fieldSize)

namespace ModuleObject

/-- The value of an object that is one. -/
def toValue : ModuleObject → Except Failure (Value Scalar)
  | value v => .ok v
  | _ => .error (.wrongKind "a value is needed")

/-- A value as a floating-point number of the language. -/
def toFloat (o : ModuleObject) : Except Failure Datum := do
  return (← number (← o.toValue)).inPrecision .double

/-- A floating-point number of the language. -/
def ofFloat (x : Datum) : ModuleObject := value (.number (.untyped x))

/-- An object as an argument of a helper. -/
def toObject : ModuleObject → Except Failure Object
  | value v => .ok (.value v)
  | member "np" label =>
    match scalarType? label with
    | some p => .ok (.scalarType p)
    | none => .error (.wrongKind "a value is needed")
  | _ => .error (.wrongKind "a value is needed")

/-- **A call** of a function of the language, of a helper or of the library. -/
def call : ModuleObject → List ModuleObject → Except Failure ModuleObject
  | named "float", [x] => do return ofFloat (← x.toFloat)
  | named "abs", [value (.number (.untyped x))] => .ok (ofFloat x.abs)
  | named "abs", [x] => do return value (← libraryOperation .absolute [← x.toValue])
  | named "ulp_scale", [reference, value (.number (.integer fieldSize)),
      value (.number (.integer minExponent)), value (.truth relative)] => do
    return ofFloat (ulpScale (← reference.toFloat) fieldSize minExponent relative)
  | member "math" "isnan", [x] => do return value (.truth ((← x.toFloat) == .nan))
  | member "np" "linspace", [low, high, value (.number (.integer count))] => do
    let samples := linspace (← low.toFloat) (← high.toFloat) count.toNat
    return array (samples.map fun x => .number (.binary .double x))
  | member "np" label, arguments => do
    return value (← libraryCall label (← arguments.mapM toValue))
  | named id, arguments =>
    match Helper.ofName? id with
    | some helper => do return value (← helper.apply (← arguments.mapM toObject))
    | none => .error (.unknownFunction id)
  | _, _ => .error (.wrongKind "no function")

end ModuleObject

/-- What the names and the operations of a module **with its library** stand for, where it has no
functions of its own. -/
def Interpretation.module : Interpretation ModuleObject where
  global name := .ok (.named name)
  integer n := .value (.number (.integer n))
  float x := .ofFloat x
  string s := .text s
  truth b := .value (.truth b)
  field operand label :=
    match operand with
    | .named name => .ok (.member name label)
    | _ => .error (.missingPart ("no object has " ++ label))
  call := ModuleObject.call
  negate x := do return .value (← libraryOperation .negation [← x.toValue])
  binary operator x y := do
    return .value (← libraryOperation operator.op [← x.toValue, ← y.toValue])
  compare relation x y := do return .value (← libraryCompare relation (← x.toValue) (← y.toValue))
  isTrue x := do return Native.isTrue (← x.toValue)
  tuple components := .value (.tuple (components.filterMap fun x => x.toValue.toOption))
  component operand index := do return .value (← Native.component index (← operand.toValue))
  elements
    | .array vs => .ok (vs.map .value)
    | _ => .error (.wrongKind "an array is needed")

end Native

namespace TestCase

/-! ### Tests and trials -/

/-- **The tests of a test case run like its trial** while the variable for the sample stays apart
from the names of the test: whatever the names from outside stand for, both expressions are
evaluated at the sample brought to the tested format, and the largest error is compared with the
bound. Whenever the numbers are no vectors, there is a test in C. -/
theorem runs_like_trial {nt : NumberType} {functions : List (String × Nat)} {t : TestCase}
    (ht : t.ReadsSample nt functions) :
    (∀ tested : NumberType, Native.IsApart functions t → t.argument ≠ "reference" →
      ∃ d, Native.Definition.ofTest tested t = .ok d ∧
        ∀ (Obj : Type) (I : Native.Interpretation Obj), d.runTest I = (I.trial tested t).run) ∧
    (∀ (p : Precision) (b b' : Source.Buffer), C.IsApart p functions t →
      C.addTest p b t = .ok b' →
      ∃ f, C.TestFunction.ofTest p t = .ok f ∧ C.IsTestText p t f.text ∧
        ∀ (Obj : Type) (I : C.Interpretation Obj), f.run I = (I.trial p t).run) ∧
    (nt.isVector = false → ∀ (p : Precision) (b : Source.Buffer),
      ∃ b', C.addTest p b t = .ok b') := by
  refine ⟨fun tested hapart hname => ?_, fun p b b' hapart hwritten => ?_, fun hscalar p b =>
    C.exists_addTest_of_readsSample ht hscalar p b⟩
  · obtain ⟨d, hd, hrun⟩ := Native.exists_runTest ht hapart
    refine ⟨d, hd, fun Obj I => ?_⟩
    rw [hrun, Native.Interpretation.writtenTrial_eq hname]
  · obtain ⟨f, hf, htext⟩ := C.exists_ofTest hwritten
    exact ⟨f, hf, htext, fun Obj I => C.run_ofTest ht hapart hf⟩

/-! ### Distances from the sample -/

/-- The bits of a number in double precision. -/
def bitsOf (coding : Nat) : Expr :=
  .node (.fromBits (some (.binary .double))) [.node (.bitPattern coding) []]

theorem quantized_bitsOf {S : NameScope} {coding : Nat} {v : Rat}
    (h : referenceType.precision.format.decode? coding = some v) :
    (bitsOf coding).Quantized S referenceType :=
  Expr.quantized_fromBits h

theorem quantized_variable (nt : NumberType) (argument : String) :
    (Expr.var argument).Quantized ⟨[argument], [], true⟩ nt :=
  .node (Expr.joins_of_admits (by simp [NameScope.admits]) rfl) nofun

/-- The test that compares the sample, under some name, with an expression, at the lower end of the
interval from one to two. -/
def distanceTest (reference : Expr) (argument : String) : TestCase where
  name := "distance"
  reference := reference
  candidate := Expr.var argument
  maxError := .integer 1
  low := ⟨bitsOf 4607182418800017408, 1⟩
  high := ⟨bitsOf 4611686018427387904, 2⟩
  numberType := ⟨.single, false⟩
  mode := .relative
  sampleCount := 1
  argument := argument
  low_lt_high := by decide

theorem readsSample_distanceTest {reference : Expr} {argument : String}
    (h : reference.Quantized ⟨[argument], [], true⟩ referenceType) :
    (distanceTest reference argument).ReadsSample ⟨.single, false⟩ [] where
  low := quantized_bitsOf (v := 1) (by decide +kernel)
  high := quantized_bitsOf (v := 2) (by decide +kernel)
  reference := h
  candidate := quantized_variable ⟨.single, false⟩ argument
  bound :=
    have hbound : (distanceTest (bitsOf 0) "x").maxErrorDatum = .ok (Number.toDouble 1) := by
      decide +kernel
    ⟨_, hbound⟩

/-- The sample compared with itself, under the name that the loop of Python takes for its samples.
The test in Python passes, and there is one in C that runs like the trial. -/
theorem runs_like_trial_sample :
    (∃ d, Native.Definition.ofTest ⟨.single, false⟩ (distanceTest (Expr.var "sample") "sample") =
        .ok d ∧ d.runTest .module = .ok ()) ∧
    ∃ f, C.IsTestText .single (distanceTest (Expr.var "sample") "sample")
        (C.TestFunction.text f) ∧
      ∀ (Obj : Type) (I : C.Interpretation Obj), f.run I =
        (I.trial .single (distanceTest (Expr.var "sample") "sample")).run := by
  obtain ⟨native, c, exists_addTest⟩ :=
    runs_like_trial (readsSample_distanceTest (quantized_variable referenceType "sample"))
  constructor
  · obtain ⟨d, hd, hrun⟩ := native ⟨.single, false⟩ (by decide) (by decide)
    refine ⟨d, hd, ?_⟩
    rw [hrun]
    decide +kernel
  · obtain ⟨b, hb⟩ := exists_addTest rfl .single Source.Buffer.empty
    obtain ⟨f, -, htext, hrun⟩ := c .single _ b (by decide) hb
    exact ⟨f, htext, hrun⟩

/-- **A variable that is captured.** Under the name `reference` the sample, which is at least one,
is compared with zero. In Python the test passes, where its trial fails; in C there is no test that
runs. -/
theorem reference_captured :
    (distanceTest (bitsOf 0) "reference").ReadsSample ⟨.single, false⟩ [] ∧
    (Native.isName "reference" = true ∧ C.isName "reference" = true) ∧
    (Native.Interpretation.module.trial ⟨.single, false⟩
      (distanceTest (bitsOf 0) "reference")).run = .error .requirement ∧
    (∃ d, Native.Definition.ofTest ⟨.single, false⟩ (distanceTest (bitsOf 0) "reference") = .ok d ∧
      d.runTest .module = .ok ()) ∧
    ∃ f, C.TestFunction.ofTest .single (distanceTest (bitsOf 0) "reference") = .ok f ∧
      C.IsTestText .single (distanceTest (bitsOf 0) "reference") f.text ∧
      ∀ (Obj : Type) (I : C.Interpretation Obj),
        f.run I = .error (.wrongKind "distance declares a name twice") := by
  have ht : (distanceTest (bitsOf 0) "reference").ReadsSample ⟨.single, false⟩ [] :=
    readsSample_distanceTest (quantized_bitsOf (v := 0) (by decide +kernel))
  have hnative : (Native.Definition.ofTest ⟨.single, false⟩ (distanceTest (bitsOf 0) "reference")
      >>= Native.Definition.runTest .module) = .ok () := by decide +kernel
  obtain ⟨b, hb⟩ := C.exists_addTest_of_readsSample ht rfl .single Source.Buffer.empty
  obtain ⟨f, hf, htext⟩ := C.exists_ofTest hb
  refine ⟨ht, ⟨by decide, by decide⟩, by decide +kernel, bind_eq_ok.mp hnative, f, hf, htext,
    fun Obj I => ?_⟩
  exact C.run_ofTest_of_mem hf (by decide)

end TestCase

end Elementary
