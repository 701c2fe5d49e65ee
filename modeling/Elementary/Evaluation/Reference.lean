import Elementary.BigFloat.Function
import Elementary.Evaluation.Basic

/-!
# Reference arithmetic

The arithmetic of arbitrary precision: every operation is rounded once to the working precision.
It computes the targets of fits and the references of tests. Integers (from bit patterns and truth
values) stay integers among themselves.

## Main definitions

* `Quantity`: the numbers of this arithmetic.
* `Reference.Context`: a working precision.
* `Reference.arithmeticIn`: the arithmetic at a working precision.
* `Reference.arithmetic`: the arithmetic at a working precision of decimal digits.
-/

namespace Elementary

/-- The **numbers of the reference arithmetic**. -/
inductive Quantity where
  | real (x : BigFloat)
  /-- A named constant on which no operation was done yet. -/
  | symbol (x : BigFloat)
  | complex (re im : BigFloat)
  | integer (n : Int)
  /-- The quotient of two integers, a floating-point number of double precision. -/
  | double (x : Datum)

/-- A datum as a number of arbitrary precision. -/
def Datum.toBig : Datum → BigFloat
  | .nan => .nan
  | .infinite negative => .infinite negative
  | .finite negative q => .nearest 64 (Datum.signed negative q)

namespace Quantity

/-- The real number of a quantity that is not complex. -/
def real? : Quantity → Option BigFloat
  | real x | symbol x => some x
  | complex _ _ => none
  | integer n => some (.ofInt n)
  | double x => some x.toBig

/-- The real and the imaginary part of a quantity. -/
def parts : Quantity → BigFloat × BigFloat
  | complex re im => (re, im)
  | q => (q.real?.getD .nan, .zero)

/-- The quantity of a value. -/
def ofValue : Value Quantity → Except Failure Quantity
  | .number x => .ok x
  | .truth b => .ok (.integer (if b then 1 else 0))
  | _ => .error (.wrongKind "a number is needed")

/-- The exact value of a quantity; `digits` says how a number without one is shown. -/
def toRat (digits : Nat) : Quantity → Except Failure Rat
  | integer n => .ok n
  | complex _ _ => .error (.wrongKind "a real number is needed")
  | double x =>
    match x.toRat? with
    | some q => .ok q
    | none => .error (.notExact (x.text Precision.double.format))
  | real x | symbol x =>
    match x.toRat? with
    | some q => .ok q
    | none => .error (.notExact (x.text digits))

/-- The integer in the direction of zero from a quantity. -/
def toInt : Quantity → Except Failure Int
  | integer n => .ok n
  | complex _ _ => .error (.wrongKind "a real number is needed")
  | q =>
    match q.real? with
    | some (.finite x) => .ok (BigFloat.truncateDyadic x)
    | some .nan => .error .integerOfNan
    | _ => .error .integerOverflow

end Quantity

namespace Reference

open BigFloat (mulExact)

/-- A **working precision**: the bits to which numbers are rounded, and the digits with which they
are shown. -/
structure Context where
  bits : Nat
  digits : Nat
  deriving DecidableEq, Repr

/-- The working precision of decimal digits. -/
def Context.ofDigits (digits : Int) : Context := ⟨workingBits digits, (max 1 digits).toNat⟩

/-- A complex number from its parts. -/
def complex (re im : BigFloat) : Quantity := .complex re im

/-- The product of complex numbers, each part rounded once. -/
def complexMul (bits : Nat) (a b c d : BigFloat) : Quantity :=
  .complex (BigFloat.round bits (match mulExact a c, mulExact b d with
      | .finite x, .finite y => .finite (x - y)
      | x, y => BigFloat.sub bits x y))
    (BigFloat.round bits (match mulExact a d, mulExact b c with
      | .finite x, .finite y => .finite (x + y)
      | x, y => BigFloat.add bits x y))

/-- The quotient of complex numbers, computed with ten bits more. -/
def complexDiv (bits : Nat) (a b c d : BigFloat) : Except Failure Quantity :=
  let w := bits + 10
  let norm := BigFloat.add w (BigFloat.mul w c c) (BigFloat.mul w d d)
  if norm.isZero then .error .divisionByZero
  else
    let re := BigFloat.add w (BigFloat.mul w a c) (BigFloat.mul w b d)
    let im := BigFloat.sub w (BigFloat.mul w b c) (BigFloat.mul w a d)
    .ok (.complex (BigFloat.div bits re norm) (BigFloat.div bits im norm))

/-- A sum, difference, product or quotient of two floating-point numbers or integers of which one
is a floating-point number. -/
def doubleOperation (op : Op) (x y : Datum) : Except Failure Quantity :=
  let fmt := Precision.double.format
  match op with
  | .addition => .ok (.double (x.add fmt y))
  | .subtraction => .ok (.double (x.sub fmt y))
  | .multiplication => .ok (.double (x.mul fmt y))
  | _ =>
    if y.isZero then .error (.plainDivisionByZero "float division by zero")
    else .ok (.double (x.div fmt y))

/-- A sum, difference, product or quotient of two integers. -/
def integerOperation (op : Op) (m n : Int) : Except Failure Quantity :=
  match op with
  | .addition => .ok (.integer (m + n))
  | .subtraction => .ok (.integer (m - n))
  | .multiplication => .ok (.integer (m * n))
  | _ =>
    if n = 0 then .error (.plainDivisionByZero "division by zero")
    else .ok (.double (Number.toDouble (m / n)))

/-- A sum, difference, product or quotient of two complex numbers. -/
def complexOperation (bits : Nat) (op : Op) (a b c d : BigFloat) : Except Failure Quantity :=
  match op with
  | .addition => .ok (.complex (.add bits a c) (.add bits b d))
  | .subtraction => .ok (.complex (.sub bits a c) (.sub bits b d))
  | .multiplication => .ok (complexMul bits a b c d)
  | _ => complexDiv bits a b c d

/-- A sum, difference, product or quotient of two real numbers. -/
def realOperation (bits : Nat) (op : Op) (x y : BigFloat) : Except Failure Quantity :=
  match op with
  | .addition => .ok (.real (.add bits x y))
  | .subtraction => .ok (.real (.sub bits x y))
  | .multiplication => .ok (.real (.mul bits x y))
  | _ => if y.isZero then .error .divisionByZero else .ok (.real (.div bits x y))

/-- A **sum, difference, product or quotient**, in the wider kind of the two operands. -/
def arithmeticOperation (bits : Nat) (op : Op) (a b : Quantity) : Except Failure Quantity :=
  match a, b with
  | .integer m, .integer n => integerOperation op m n
  | .integer m, .double y => doubleOperation op (Number.toDouble m) y
  | .double x, .integer n => doubleOperation op x (Number.toDouble n)
  | .double x, .double y => doubleOperation op x y
  | a, b =>
    match a, b, a.real?, b.real? with
    | _, _, some x, some y => realOperation bits op x y
    | a, b, _, _ =>
      let (a, b) := (a.parts, b.parts)
      complexOperation bits op a.1 a.2 b.1 b.2

/-- The negated quantity. -/
def negate (bits : Nat) : Quantity → Quantity
  | .integer n => .integer (-n)
  | .double x => .double x.neg
  | .complex re im => .complex (.round bits re.negate) (.round bits im.negate)
  | .real x | .symbol x => .real (.round bits x.negate)

/-- The magnitude of a quantity. -/
def magnitude (bits : Nat) : Quantity → Quantity
  | .integer n => .integer n.natAbs
  | .double x => .double x.abs
  | .complex re im => .real (MathFunction.hypotenuse bits re im)
  | .real x | .symbol x => .real (.round bits x.magnitude)

/-- The integral part of a quantity. -/
def floor (bits : Nat) : Quantity → Quantity
  | .complex re im => .complex (.floor bits re) (.floor bits im)
  | q => .real ((q.real?.getD .nan).floor bits)

/-- A product and a sum, rounded once. -/
def mulAdd (bits : Nat) (a b c : Quantity) : Except Failure Quantity :=
  match a.real?, b.real?, c.real? with
  | some x, some y, some z => .ok (.real (.add bits (mulExact x y) z))
  | _, _, _ => do
    let product ← arithmeticOperation (4 * bits) .multiplication a b
    arithmeticOperation bits .addition product c

/-- The value of an elementary function. -/
def function (bits : Nat) (name : String) (args : List Quantity) : Except Failure Quantity :=
  match MathFunction.ofName? name with
  | none => .error (.unknownMathFunction name)
  | some f =>
    match args.mapM Quantity.real? with
    | none => .error (.wrongKind "a real argument is needed")
    | some xs => do
      match ← f.apply bits xs with
      | .real x => .ok (.real x)
      | .complex re im => .ok (.complex re im)

/-- The exact value of a quantity rounded to the format of a conversion. -/
def convert (q : Rat) : Option ResultFormat → Except Failure Rat
  | some (.binary p) => .ok (p.format.round q)
  | _ => if q = 0 then .ok 0 else .error (.missingPart "no binary format")

/-- A numeric operation on quantities. -/
def quantityOperation (ctx : Context) (op : Op) (args : List Quantity) :
    Except Failure (Value Quantity) :=
  let bits := ctx.bits
  let shown := ctx.digits
  match op, args with
  | .constant n, [] => do return .number (.real (.ofRat bits (← n.toRat)))
  | .mathConstant name, [] => do
    let x ← BigFloat.constant bits name
    return .number (if BigFloat.isPrimitiveConstant name then .symbol x else .real x)
  | .bitPattern coding, [] => .ok (.number (.integer coding))
  | .splat _, [x] => .ok (.number x)
  | .conversion f, [x] => do
    return .number (.real (.ofRat bits (← convert (← x.toRat shown) f)))
  | .negation, [x] => .ok (.number (negate bits x))
  | .absolute, [x] => .ok (.number (magnitude bits x))
  | .nearestInteger, [x] => do
    return .number (.real (.round bits (.ofInt (roundHalfEven (← x.toRat shown)))))
  | .floor, [x] => .ok (.number (floor bits x))
  | .isOdd, [x] => do return .truth ((← x.toInt) % 2 = 1)
  | .exponentInsertion, [x] => do return .number (.real (.scaled 1 (← x.toInt)))
  | .exponentExtraction, [x] => do
    return .number (.real (.round bits (.ofInt (floorLog2 (← x.toRat shown).abs))))
  | .mantissaExtraction, [x] => do
    let e := floorLog2 (← x.toRat shown).abs
    return .number (.real ((x.real?.getD .nan).scale (-e)))
  | .fusedMultiplyAdd, [a, b, c] => do return .number (← mulAdd bits a b c)
  | .mathFunction name, args => do return .number (← function bits name args)
  | .addition, [a, b] | .subtraction, [a, b] | .multiplication, [a, b] | .division, [a, b] => do
    return .number (← arithmeticOperation bits op a b)
  | op, _ => .error (.notEvaluable "MPEvaluator" op.name)

/-- The operations that nothing evaluates, whatever their operands are. -/
def isUnknown : Op → Bool
  | .custom _ => true
  | _ => false

/-- A numeric operation on values. -/
def operation (ctx : Context) (op : Op) (args : List (Value Quantity)) :
    Except Failure (Value Quantity) :=
  match op, args with
  | .splat _, [v] => .ok v
  | .mathFunction name, _ =>
    if (MathFunction.ofName? name).isNone then .error (.unknownMathFunction name)
    else do quantityOperation ctx op (← args.mapM Quantity.ofValue)
  | op, args =>
    if isUnknown op then .error (.notEvaluable "MPEvaluator" op.name)
    else do quantityOperation ctx op (← args.mapM Quantity.ofValue)

/-- The order of two quantities. -/
def order (a b : Value Quantity) : Except Failure (Option Ordering) := do
  match (← Quantity.ofValue a).real?, (← Quantity.ofValue b).real? with
  | some x, some y => return BigFloat.compare? x y
  | _, _ => .error (.wrongKind "complex numbers have no order")

/-- Whether a relation holds between two values; never when one is not a number. -/
def compare (r : Relation) (a b : Value Quantity) : Except Failure Bool := do
  return match ← Value.order order a b with
    | some o => r.holds o
    | none => false

/-- Whether a quantity counts as true. -/
def isTrue : Quantity → Bool
  | .integer n => n != 0
  | .double x => !x.isZero
  | .complex re im => !(re.isZero && im.isZero)
  | .real x | .symbol x => !x.isZero

/-- The number of a coding. -/
def decode (ctx : Context) (coding : Int) (format : Option ResultFormat) :
    Except Failure (Value Quantity) :=
  match format with
  | some (.binary p) =>
    match p.format.decode? coding with
    | some q => .ok (.number (.real (.ofRat ctx.bits q)))
    | none => .error (.specialCoding (Text.hexMarked coding) p.name)
  | _ => .error (.missingPart "no binary format")

/-- A value as an argument of a function: its exact value at the working precision. -/
def argument (ctx : Context) (v : Value Quantity) : Except Failure (Value Quantity) := do
  let q ← (← Quantity.ofValue v).toRat ctx.digits
  return .number (.real (.ofRat ctx.bits q))

/-- The **reference arithmetic** at a working precision. -/
def arithmeticIn (ctx : Context) : Arithmetic Quantity where
  operation := operation ctx
  decode := decode ctx
  argument := argument ctx
  compare := compare
  isTrue := isTrue
  selectionFailure _ := .wrongKind "a number has no components"

/-- The reference arithmetic at a working precision of `digits` decimal digits. -/
def arithmetic (digits : Int) : Arithmetic Quantity := arithmeticIn (.ofDigits digits)

/-- A written number as a value at a working precision. -/
def ofNumberIn (ctx : Context) (n : Number) : Except Failure (Value Quantity) :=
  (n.toBig ctx.bits).map fun x => .number (.real x)

/-- A written number as a value at a working precision of decimal digits. -/
def ofNumber (digits : Int) (n : Number) : Except Failure (Value Quantity) :=
  ofNumberIn (.ofDigits digits) n

end Reference

end Elementary
