import Elementary.BigFloat.Function
import Elementary.Evaluation.Basic

/-!
# Emulation of a binary format

The arithmetic of a binary precision: every operation gives the datum of the precision nearest to
the exact result. Operands of two precisions meet in the wider one. An integer that comes from a
bit pattern has no precision of its own and adopts that of the other operand.

## Main definitions

* `Scalar`: the numbers of this arithmetic.
* `Emulation.arithmetic`: the arithmetic of a precision.
* `Emulation.roundExact`: an exact number rounded through its coding.
-/

namespace Elementary

/-- The **numbers of an emulation**. -/
inductive Scalar where
  | binary (p : Precision) (x : Datum)
  /-- An integer without a precision. -/
  | integer (n : Int)
  /-- A floating-point number that adopts the precision of another operand. -/
  | untyped (x : Datum)
  /-- A truth value that is the operand of a numeric operation. -/
  | truth (b : Bool)
  /-- A truth value that is the result of a numeric operation. -/
  | flag (b : Bool)
  deriving DecidableEq

namespace Scalar

/-- An integer as a datum of double precision. -/
def ofInteger (n : Int) : Datum := Number.toDouble n

/-- The datum of a scalar in a precision. An integer passes through double precision. -/
def inPrecision (p : Precision) : Scalar → Datum
  | binary _ x => x.convert p.format
  | integer n => (ofInteger n).convert p.format
  | untyped x => x.convert p.format
  | truth b | flag b => (ofInteger b.toInt).convert p.format

/-- The precision of a scalar that has one. -/
def precision? : Scalar → Option Precision
  | binary p _ => some p
  | _ => none

/-- The precision in which two scalars meet: the wider of theirs, double if neither has one. -/
def meet (a b : Scalar) : Precision :=
  match a.precision?, b.precision? with
  | some p, some q => p.wider q
  | some p, none => p
  | none, some q => q
  | none, none => .double

/-- The scalar of a value. -/
def ofValue : Value Scalar → Except Failure Scalar
  | .number x => .ok x
  | .truth b => .ok (.truth b)
  | _ => .error (.wrongKind "a number is needed")

/-- The scalar as a datum with a precision, double when it has none of its own. -/
def typed : Scalar → Precision × Datum
  | binary p x => (p, x)
  | s => (.double, s.inPrecision .double)

/-- The scalar as a datum with a precision, where a truth value has the narrowest one: the given
precision stands for that. -/
def typedFrom (p : Precision) : Scalar → Precision × Datum
  | truth b | flag b => (p, (truth b).inPrecision p)
  | s => s.typed

/-- The integer of a scalar that is one or a truth value. -/
def integer? : Scalar → Option Int
  | integer n => some n
  | truth b | flag b => some b.toInt
  | _ => none

/-- Whether a scalar has a type that it keeps beside an untyped number. -/
def isTyped : Scalar → Bool
  | binary .. | flag _ => true
  | _ => false

/-- The exact value of a scalar. -/
def toRat : Scalar → Except Failure Rat
  | integer n => .ok n
  | binary p x => Number.ofDatum p.format x
  | untyped x => Number.ofDatum Precision.double.format x
  | truth b => .ok b.toInt
  | flag _ => .error (.wrongKind "a number is needed")

/-- The integer in the direction of zero from a scalar. -/
def toInt : Scalar → Except Failure Int
  | integer n => .ok n
  | s =>
    let (_, x) := s.typed
    match x.toRat? with
    | some q => .ok (truncate q)
    | none => .error (if x == .nan then .integerOfNan else .integerOverflow)

/-- The scalar with the opposite sign. A flag has none. -/
def negate : Scalar → Except Failure Scalar
  | binary p x => .ok (.binary p x.neg)
  | integer n => .ok (.integer (-n))
  | untyped x => .ok (.untyped x.neg)
  | truth b => .ok (.integer (-b.toInt))
  | flag _ => .error (.wrongKind "a truth value has no opposite")

end Scalar

namespace Emulation

/-- An exact number **rounded through its coding**: the sign of a zero is lost, and a number
beyond the range is an overflow. -/
def roundExact (p : Precision) (q : Rat) : Except Failure Scalar :=
  (p.encode q).map fun coding => .binary p (Datum.ofCoding p.format coding)

/-- A sum, difference, product or quotient of data of a format. -/
def datumOperation (fmt : Format) (op : Op) (x y : Datum) : Datum :=
  match op with
  | .addition => x.add fmt y
  | .subtraction => x.sub fmt y
  | .multiplication => x.mul fmt y
  | _ => x.div fmt y

/-- A sum, difference, product or quotient of two integers. -/
def integerOperation (op : Op) (m n : Int) : Except Failure Scalar :=
  match op with
  | .addition => .ok (.integer (m + n))
  | .subtraction => .ok (.integer (m - n))
  | .multiplication => .ok (.integer (m * n))
  | _ =>
    if n = 0 then .error (.plainDivisionByZero "division by zero")
    else .ok (.untyped (Number.toDouble (m / n)))

/-- A sum, product or quotient of two truth values of which one is a flag: a sum is a disjunction,
a product a conjunction. They have no difference. -/
def flagOperation (op : Op) (a b : Bool) : Except Failure Scalar :=
  match op with
  | .addition => .ok (.flag (a || b))
  | .subtraction => .error (.wrongKind "truth values have no difference")
  | .multiplication => .ok (.flag (a && b))
  | _ =>
    .ok (.binary .double (datumOperation Precision.double.format op (Scalar.ofInteger a.toInt)
      (Scalar.ofInteger b.toInt)))

/-- A sum, difference, product or quotient of a flag and an integer. -/
def flagIntegerOperation (op : Op) (m n : Int) : Except Failure Scalar :=
  if op = .division then
    .ok (.binary .double (datumOperation Precision.double.format op (Scalar.ofInteger m)
      (Scalar.ofInteger n)))
  else integerOperation op m n

/-- A **sum, difference, product or quotient** of two scalars, where their precisions meet. -/
def arithmeticOperation (op : Op) (a b : Scalar) : Except Failure Scalar :=
  match a, b with
  | .flag x, .flag y | .flag x, .truth y | .truth x, .flag y => flagOperation op x y
  | .flag x, .integer n => flagIntegerOperation op x.toInt n
  | .integer m, .flag y => flagIntegerOperation op m y.toInt
  | a, b =>
    match a.integer?, b.integer? with
    | some m, some n => integerOperation op m n
    | _, _ =>
      let p := a.meet b
      let x := a.inPrecision p
      let y := b.inPrecision p
      if !a.isTyped && !b.isTyped then
        if op = .division && y.isZero then
          .error (.plainDivisionByZero "float division by zero")
        else .ok (.untyped (datumOperation p.format op x y))
      else .ok (.binary p (datumOperation p.format op x y))

/-- Whether an integer has a place among the signed words of 64 bits. -/
def isWord (k : Int) : Bool := -Nat.pow 2 63 ≤ k && k < Nat.pow 2 63

/-- The power of two of an integral scalar. -/
def powerOfTwo (p : Precision) (x : Scalar) : Except Failure Scalar := do
  let k ← x.toInt
  if isWord k then return .binary p (Datum.powerOfTwo p.format k)
  else .error (.wrongKind "the exponent is too large")

/-- The value of an elementary function, computed with forty digits and rounded through its
coding. -/
def function (p : Precision) (f : MathFunction) (args : List Scalar) : Except Failure Scalar := do
  let bits := workingBits 40
  let xs ← args.mapM fun a => return BigFloat.ofRat bits (← a.toRat)
  match ← f.apply bits xs with
  | .complex _ _ => .error (.wrongKind "the value is complex")
  | .real x =>
    match x.toRat? with
    | some q => roundExact p q
    | none => .error (.notExact (x.text 40))

/-- A numeric operation on scalars. -/
def scalarOperation (p : Precision) (op : Op) (args : List Scalar) :
    Except Failure (Value Scalar) :=
  match op, args with
  | .constant n, [] => do return .number (← roundExact p (← n.toRat))
  | .mathConstant name, [] => do
    let x ← BigFloat.constant (workingBits 40) name
    return .number (← roundExact p (x.toRat?.getD 0))
  | .bitPattern coding, [] => .ok (.number (.integer coding))
  | .conversion (some (.binary q)), [x] => .ok (.number (.binary q (x.inPrecision q)))
  | .conversion _, [_] => .error (.missingPart "no binary format")
  | .negation, [x] => do return .number (← x.negate)
  | .absolute, [x] =>
    .ok (.number (match x with
      | .binary q x => .binary q x.abs
      | .integer n => .integer n.natAbs
      | .untyped x => .binary .double x.abs
      | .truth b | .flag b => .flag b))
  | .nearestInteger, [x] =>
    .ok (.number (.binary (x.typedFrom p).1 (x.typedFrom p).2.nearestInteger))
  | .floor, [x] =>
    .ok (.number (match x with
      | .integer n => .integer n
      | .truth b | .flag b => .flag b
      | x => .binary x.typed.1 x.typed.2.floor))
  | .isOdd, [x] =>
    .ok (.truth (match x with
      | .integer n => n % 2 ≠ 0
      | x => x.typed.2.isOdd))
  | .exponentInsertion, [x] => do return .number (← powerOfTwo p x)
  | .exponentExtraction, [x] =>
    .ok (.number (.binary p ((Scalar.integer x.typed.2.exponent).inPrecision p)))
  | .mantissaExtraction, [x] =>
    .ok (.number (.binary ((x.typedFrom p).1.wider p) (x.typedFrom p).2.mantissa))
  | .fusedMultiplyAdd, [a, b, c] => do
    let product ← arithmeticOperation .multiplication a b
    return .number (← arithmeticOperation .addition product c)
  | .mathFunction name, args =>
    match MathFunction.ofName? name with
    | none => .error (.unknownKey name)
    | some f => do return .number (← function p f args)
  | .addition, [a, b] | .subtraction, [a, b] | .multiplication, [a, b] | .division, [a, b] => do
    return .number (← arithmeticOperation op a b)
  | op, _ => .error (.notEvaluable "FormatEvaluator" op.name)

/-- A numeric operation on values. -/
def operation (p : Precision) (op : Op) (args : List (Value Scalar)) :
    Except Failure (Value Scalar) :=
  match op, args with
  | .splat _, [v] => .ok v
  | .conversion (some (.binary q)), [.nothing] => .ok (.number (.binary q .nan))
  | .custom name, _ => .error (.notEvaluable "FormatEvaluator" name)
  | .mathFunction name, args =>
    if (MathFunction.ofName? name).isNone then .error (.unknownKey name)
    else do scalarOperation p op (← args.mapM Scalar.ofValue)
  | op, args => do scalarOperation p op (← args.mapM Scalar.ofValue)

/-- The order of two scalars, where their precisions meet. -/
def order (a b : Value Scalar) : Except Failure (Option Ordering) := do
  let a ← Scalar.ofValue a
  let b ← Scalar.ofValue b
  match a, b with
  | .integer m, .integer n => return some (Ord.compare m n)
  | a, b =>
    let p := a.meet b
    return Datum.compare? (a.inPrecision p) (b.inPrecision p)

/-- Whether a relation holds between two values; never when one is not a number. -/
def compare (r : Relation) (a b : Value Scalar) : Except Failure Bool := do
  return match ← Value.order order a b with
    | some o => r.holds o
    | none => false

/-- Whether a scalar counts as true. -/
def isTrue : Scalar → Bool
  | .integer n => n != 0
  | .binary _ x | .untyped x => !x.isZero
  | .truth b | .flag b => b

/-- The datum of a coding, which has to fit the width of the format. -/
def decode (coding : Int) (format : Option ResultFormat) : Except Failure (Value Scalar) :=
  match format with
  | some (.binary p) =>
    if coding < 0 ∨ Nat.pow 2 p.format.bitSize ≤ coding then .error .integerOverflow
    else .ok (.number (.binary p (Datum.ofCoding p.format coding.toNat)))
  | _ => .error (.missingPart "no binary format")

/-- A value as an argument of a function: brought to the precision. -/
def argument (p : Precision) : Value Scalar → Except Failure (Value Scalar)
  | .nothing => .ok (.number (.binary p .nan))
  | v => do return .number (.binary p ((← Scalar.ofValue v).inPrecision p))

/-- What a selection from a scalar fails with: a scalar of a precision has no components, and
anything else is no sequence at all. -/
def selectionFailure : Scalar → Failure
  | .binary _ _ | .flag _ => .outOfBounds "invalid index to scalar variable."
  | _ => .wrongKind "a number has no components"

/-- The **arithmetic of a precision**. -/
def arithmetic (p : Precision) : Arithmetic Scalar where
  operation := operation p
  decode := decode
  argument := argument p
  compare := compare
  isTrue := isTrue
  selectionFailure := selectionFailure

/-- A decimal literal as a floating-point number of double precision. The words for infinity and
for what is no number are read in small and capital letters. -/
def parseDouble (s : String) : Except Failure Datum :=
  let cs := Text.trim Text.isSpacing s.toList
  let (negative, rest) := Literal.sign cs
  let word := String.ofList (rest.map Char.toLower)
  if word = "inf" || word = "infinity" then .ok (.infinite negative)
  else if word = "nan" then .ok .nan
  else
    match rest.contains '/', Literal.parts? cs with
    | false, some p =>
      .ok (Datum.ofRat Precision.double.format negative (p.numerator * Decimal.pow10 p.exponent))
    | _, _ =>
      .error (.custom "ValueError" ("could not convert string to float: " ++ Text.quoted s))

/-- A written number as a scalar of a precision; any but a scalar passes through double
precision. -/
def ofNumber (p : Precision) (n : Number) : Except Failure (Value Scalar) := do
  let x : Datum ← match n with
    | .absent => pure .nan
    | .truth b => pure (Number.toDouble (if b then 1 else 0))
    | .integer n => pure (Number.toDouble n)
    | .ratio q => pure (Number.toDouble q)
    | .literal s => parseDouble s
    | .double x | .single x => pure x
    | .big x _ =>
      pure (match x with
        | .nan => .nan
        | .infinite negative => .infinite negative
        | .finite x => Number.toDouble x.toRat)
    | .sequence => .error (.wrongKind "a number is needed")
  return .number (.binary p (x.convert p.format))

end Emulation

end Elementary
