import Elementary.Evaluation.Emulation
import Elementary.Native.Module

/-!
# The meaning of Python definitions

What a definition of a generated module computes. A term has a value in a scope: the variables of
the running function, the functions of the module, and the helpers and the library that a module
begins with. The scalars of the library are binary numbers, and its functions on them are rounded
operations; the helpers do what their definitions in the module say. A function runs over variables
of its own, and its first `return` gives its value.

Arrays have no meaning here, and neither has the arithmetic of truth values: a term that needs one
of them fails, as does everything that ends a Python function with an exception.

## Main definitions

* `Object`: what terms stand for.
* `Helper.apply`: the helpers.
* `Term.evaluate`: the meaning of a term in a scope.
* `execute`: the statements of a function.
* `Definition.apply`: a function of a module applied to values.
-/

namespace Elementary

namespace Datum

/-- What a datum **leaves on division by two**, with its sign. An infinity leaves no number. -/
def remainder : Datum → Datum
  | finite negative q => finite negative (q - 2 * (q / 2).floor)
  | _ => nan

/-- A datum **split** into a fraction from one half up to one and an exponent. What has no such
parts is its own fraction, with the exponent zero. -/
def split : Datum → Datum × Int
  | finite negative q =>
    if q = 0 then (finite negative 0, 0)
    else (finite negative (q / pow2 (floorLog2 q + 1)), floorLog2 q + 1)
  | x => (x, 0)

end Datum

namespace Native

/-! ### Objects -/

/-- What a term stands for: a **value**, or a **scalar type** of the library. -/
inductive Object where
  | value (v : Value Scalar)
  | scalarType (p : Precision)

/-- The value of an object. -/
def Object.toValue : Object → Except Failure (Value Scalar)
  | value v => .ok v
  | scalarType _ => .error (.wrongKind "a scalar type is no value")

/-- The number of a value. -/
def number : Value Scalar → Except Failure Scalar
  | .number x => .ok x
  | _ => .error (.wrongKind "a number is needed")

/-- An **operation of the library** on its scalars. -/
def libraryOperation (op : Op) (values : List (Value Scalar)) : Except Failure (Value Scalar) := do
  -- the operations of the library depend on the precisions of their operands alone
  Emulation.scalarOperation .double op (← values.mapM number)

/-- Whether a relation holds between two values. -/
def libraryCompare (r : Relation) (a b : Value Scalar) : Except Failure (Value Scalar) := do
  return .truth (← Emulation.compare r a b)

/-- Whether a value counts as true. -/
def isTrue (v : Value Scalar) : Bool := v.isTrue (Emulation.arithmetic .double)

/-- A component of a value. -/
def component (index : Int) (v : Value Scalar) : Except Failure (Value Scalar) :=
  v.component (Emulation.arithmetic .double) index

/-- The name of the **library** in a module. -/
def libraryName : String := "np"

/-- The scalar type of a name in the library. -/
def scalarType? : String → Option Precision
  | "float32" => some .single
  | "float64" => some .double
  | _ => none

/-- The function of a name in the library. -/
def libraryCall (name : String) (values : List (Value Scalar)) : Except Failure (Value Scalar) :=
  match scalarType? name with
  | some p => libraryOperation (.conversion (some (.binary p))) values
  | none =>
    match name with
    | "abs" => libraryOperation .absolute values
    | "rint" => libraryOperation .nearestInteger values
    | "floor" => libraryOperation .floor values
    | _ => .error (.unknownFunction name)

/-! ### Helpers -/

/-- The **helpers** that generated functions call. -/
inductive Helper where
  | fromBits (p : Precision)
  | splat
  | mulAdd
  | isOdd
  | exponentInsertion
  | exponent
  | mantissa
  deriving DecidableEq, Repr

namespace Helper

/-- The name of a helper. -/
def name : Helper → String
  | fromBits p => decodingHelper p
  | splat => "splat"
  | mulAdd => "mul_add"
  | isOdd => "is_odd"
  | exponentInsertion => "exponent_insertion"
  | exponent => "exponent"
  | mantissa => "mantissa"

/-- Every helper. -/
def all : List Helper :=
  [fromBits .single, fromBits .double, splat, mulAdd, isOdd, exponentInsertion, exponent, mantissa]

/-- The helper of a name. -/
def ofName? (s : String) : Option Helper := all.find? (·.name = s)

/-- What a **helper gives**. On a scalar of the library the exponent and the mantissa stay in its
precision, whatever that is. -/
def apply : Helper → List Object → Except Failure (Value Scalar)
  | fromBits p, [.value (.number (.integer bits))] => Emulation.decode bits (some (.binary p))
  | fromBits p, [.value (.truth b)] => Emulation.decode (if b then 1 else 0) (some (.binary p))
  | splat, [.value (.number x)] => .ok (.number x)
  | mulAdd, [.value a, .value b, .value c] => do
    libraryOperation .addition [← libraryOperation .multiplication [a, b], c]
  | isOdd, [.value (.number (.binary _ k))] => .ok (.truth !k.remainder.isZero)
  | exponentInsertion, [.value (.number k), .scalarType p] => do
    return .number (← Emulation.powerOfTwo p k)
  | exponent, [.value (.number (.binary p x))] =>
    .ok (.number (.binary p ((Scalar.integer (x.split.2 - 1)).inPrecision p)))
  | mantissa, [.value (.number (.binary p x))] =>
    libraryOperation .multiplication [.number (.binary p x.split.1), .number (.integer 2)]
  | h, _ => .error (.wrongKind ("wrong arguments of " ++ h.name))

end Helper

/-- The names on which the meaning of a generated function rests: the library and the helpers. -/
def reservedNames : List String := libraryName :: Helper.all.map Helper.name

/-! ### Terms -/

/-- The **scope** of a running function: the functions of the module, and the names that belong to
the function itself and hide them. -/
structure Scope where
  calls : Calls Scalar
  localNames : List String

/-- Whether a name means what a module begins with: nothing hides it. -/
def Scope.reaches (s : Scope) (name : String) : Bool :=
  !s.localNames.contains name && (s.calls name).isNone

/-- An object of the library, if the library is not hidden. -/
def Scope.library (s : Scope) (label : String) : Except Failure Precision :=
  match s.reaches libraryName, scalarType? label with
  | true, some p => .ok p
  | _, _ => .error (.missingPart ("no object " ++ label))

/-- A **call by name**: of a function of the module, else of a helper. The helpers, but one, use
the library. -/
def Scope.call (s : Scope) (name : String) (arguments : List Object) :
    Except Failure (Value Scalar) :=
  if s.localNames.contains name then .error (.wrongKind (name ++ " is no function"))
  else
    match s.calls name with
    | some f => do f (← arguments.mapM Object.toValue)
    | none =>
      match Helper.ofName? name with
      | none => .error (.unknownFunction name)
      | some h =>
        if h = .mulAdd || (s.calls libraryName).isNone then h.apply arguments
        else .error (.missingPart "no library")

/-- A call of a function of the library, if the library is not hidden. -/
def Scope.libraryCall (s : Scope) (name : String) (arguments : List Object) :
    Except Failure (Value Scalar) :=
  if s.reaches libraryName then do Native.libraryCall name (← arguments.mapM Object.toValue)
  else .error (.missingPart "no library")

/-- The operation of an operator. -/
def Operator.op : Operator → Op
  | add => .addition
  | sub => .subtraction
  | mul => .multiplication
  | div => .division

namespace Term

mutual

/-- The **meaning of a term** in a scope. Of a choice only the chosen branch is evaluated. -/
def evaluate (s : Scope) (env : Bindings Scalar) : Term → Except Failure Object
  | name id =>
    match env.lookup id with
    | some v => .ok (.value v)
    | none => .error (.unboundVariable id)
  | integer n => .ok (.value (.number (.integer n)))
  | float x => .ok (.value (.number (.untyped x)))
  | string _ => .error (.wrongKind "a text is no value")
  | truth b => .ok (.value (.truth b))
  | field (name id) label => do
    if id = libraryName then return .scalarType (← s.library label)
    else .error (.missingPart (id ++ " has no " ++ label))
  | field _ label => .error (.missingPart ("no object has " ++ label))
  | call (name id) arguments => do
    return .value (← s.call id (← evaluateAll s env arguments))
  | call (field (name id) label) arguments => do
    if id = libraryName then return .value (← s.libraryCall label (← evaluateAll s env arguments))
    else .error (.missingPart (id ++ " has no " ++ label))
  | call _ _ => .error (.wrongKind "no function")
  | negation operand => do
    return .value (← libraryOperation .negation [← (← evaluate s env operand).toValue])
  | binary operator left right => do
    let a ← (← evaluate s env left).toValue
    let b ← (← evaluate s env right).toValue
    return .value (← libraryOperation operator.op [a, b])
  | comparison relation left right => do
    let a ← (← evaluate s env left).toValue
    let b ← (← evaluate s env right).toValue
    return .value (← libraryCompare relation a b)
  | conditional condition ifTrue ifFalse => do
    if isTrue (← (← evaluate s env condition).toValue) then evaluate s env ifTrue
    else evaluate s env ifFalse
  | tuple components => do
    return .value (.tuple (← (← evaluateAll s env components).mapM Object.toValue))
  | component operand index => do
    return .value (← Native.component index (← (← evaluate s env operand).toValue))

/-- The meanings of some terms, from left to right. -/
def evaluateAll (s : Scope) (env : Bindings Scalar) : List Term → Except Failure (List Object)
  | [] => .ok []
  | t :: ts => do return (← evaluate s env t) :: (← evaluateAll s env ts)

end

end Term

/-! ### Functions -/

/-- **Statements run** over the variables of a function, up to the first result. The statements of
tests have no meaning here. -/
def execute (s : Scope) : List Statement → Bindings Scalar → Except Failure (Value Scalar)
  | [], _ => .ok .nothing
  | .assignment name value :: rest, env => do
    let v ← (← value.evaluate s env).toValue
    execute s rest ((name, v) :: env)
  | .result value :: _, env => do (← value.evaluate s env).toValue
  | _ :: _, _ => .error (.wrongKind "a statement of a test")

/-- The variable that a statement assigns. -/
def Statement.target? : Statement → Option String
  | .assignment name _ => some name
  | _ => none

namespace Definition

/-- The names that belong to a function: its parameters and the variables it assigns. -/
def localNames (d : Definition) : List String := d.parameters ++ d.body.filterMap Statement.target?

/-- The definition of a name in a module: of several, the last. -/
def find? (definitions : List Definition) (name : String) : Option Definition :=
  definitions.reverse.find? (·.name = name)

/-- A function of a module **applied to values**, as many as its parameters, calling others down to
the given depth. -/
def apply (find : String → Option Definition) :
    (depth : Nat) → Definition → List (Value Scalar) → Except Failure (Value Scalar)
  | 0, d, _ => .error (.callDepth d.name)
  | depth + 1, d, values =>
    if values.length = d.parameters.length then
      execute ⟨fun name => (find name).map (apply find depth), d.localNames⟩ d.body
        (d.parameters.zip values).reverse
    else .error (.wrongKind (d.name ++ " takes another number of arguments"))

end Definition

end Native

end Elementary
