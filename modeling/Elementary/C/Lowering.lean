import Elementary.C.Term
import Elementary.Evaluation.Basic
import Elementary.Format.Hexadecimal

/-!
# Expressions in C

A quantized expression is written in C with the functions of the mathematics library. The suffix
of those functions says in which precision they compute; functions that are named by the
expression itself always compute in the widest one. A constant of the format of the generated code
is given by its bits, one of another format by its exact value.

## Main definitions

* `C.lower`: the C expression of an expression.
-/

namespace Elementary.C

/-- The name of this code generator in messages. -/
def generatorName : String := "CCodeGenerator"

/-- The failure for an operation without a C form. -/
def unsupported (op : Op) (remark : String) : Failure :=
  .unsupportedNode generatorName op.name remark

/-- The type of generated values. -/
def typeName : Precision → String
  | .single => "f32"
  | .double => "f64"

/-- The standard type of a precision. -/
def scalarType : Precision → String
  | .single => "float"
  | .double => "double"

/-- The suffix of library functions and of literals in a precision. -/
def suffixOf : Precision → String
  | .single => "f"
  | .double => ""

/-- The suffix of integer literals as wide as a precision. -/
def codingSuffix : Precision → String
  | .single => "u"
  | .double => "ull"

/-- The suffix of the library functions of the widest precision. -/
def widestSuffix : String := "l"

/-- The **library functions** for mathematical functions. -/
def libraryFunction? (name : String) : Option String :=
  if name = "ln" then some "log"
  else if ["sin", "cos", "tan", "asin", "acos", "atan", "exp", "exp2", "log2", "log10", "sinh",
      "cosh", "tanh", "atanh", "sqrt", "hypot"].contains name then some name
  else none

/-- The type of a conversion. -/
def conversionType : Option ResultFormat → Except Failure String
  | some (.binary p) => .ok (scalarType p)
  | some .truth => .error (.unknownKey "1")
  | none => .error (.missingPart "no format to convert to")

/-- The **literal of a coding**; a negative one has its sign in front. -/
def codingLiteral (p : Precision) (coding : Int) : Term :=
  let literal := Term.literal ("0x" ++ Text.hex coding.natAbs ++ codingSuffix p)
  if coding < 0 then .negation literal else literal

/-- A **constant**: the bits of one of the format of the code, the exact value of any other. -/
def constant (p : Precision) (coding : Int) (format : Option ResultFormat) :
    Except Failure Term :=
  match format with
  | some (.binary q) =>
    if q = p then
      .ok (.call "from_bits" [codingLiteral q coding])
    else
      match q.format.decode? coding with
      | some v =>
        .ok (.signed (decide (v < 0))
          (Datum.ofRat Precision.double.format false v.abs).hexText)
      | none => .error (.specialCoding (Text.hexMarked coding) q.name)
  | _ => .error (.missingPart "no binary format")

/-- An operator applied to two terms, in parentheses. -/
def infixTerm (operator : String) (left right : Term) : Term :=
  .parenthesized (.binary operator left right)

/-- The symbol of an operation with two operands. -/
def operator? : Op → Option String
  | .addition => some "+"
  | .subtraction => some "-"
  | .multiplication => some "*"
  | .division => some "/"
  | .comparison r => some r.symbol
  | _ => none

/-- The literal one with the suffix of a precision. -/
def one (suffix : String) : Term :=
  .literal ("1.0" ++ if suffix = widestSuffix then "L" else suffix)

/-- The term of an **operation** on terms that stand for its operands. -/
def operation (suffix : String) (op : Op) (operands : List Term) : Except Failure Term :=
  match op, operands with
  | .negation, [x] => .ok (.parenthesized (.negation x))
  | .absolute, [x] => .ok (.call ("fabs" ++ suffix) [x])
  | .nearestInteger, [x] => .ok (.call ("rint" ++ suffix) [x])
  | .floor, [x] => .ok (.call ("floor" ++ suffix) [x])
  | .isOdd, [x] =>
    .ok (infixTerm "&" (.parenthesized (.cast "long long" x)) (.literal "1"))
  | .exponentInsertion, [x] => .ok (.call ("ldexp" ++ suffix) [one suffix, .cast "int" x])
  | .exponentExtraction, [x] => .ok (.call ("logb" ++ suffix) [x])
  | .mantissaExtraction, [x] =>
    .ok (.call ("scalbn" ++ suffix) [x, .negation (.call ("ilogb" ++ suffix) [x])])
  | .fusedMultiplyAdd, [_, _, _] => .ok (.call "mul_add" operands)
  | .select, [c, a, b] => .ok (.parenthesized (.conditional c a b))
  | .functionCall name, _ => .ok (.call name operands)
  | .tupleSelection index, [x] => .ok (.member x ("v" ++ toString index))
  | op, [x, y] =>
    match operator? op with
    | some symbol => .ok (infixTerm symbol x y)
    | none => .error (unsupported op "")
  | op, _ => .error (unsupported op "")

/-- Whether an operation may have a C form that is built from those of its operands. -/
def isOperation : Op → Bool
  | .negation | .absolute | .nearestInteger | .floor | .isOdd => true
  | .exponentInsertion | .exponentExtraction | .mantissaExtraction => true
  | .addition | .subtraction | .multiplication | .division | .comparison _ => true
  | .fusedMultiplyAdd | .select | .functionCall _ | .tupleSelection _ => true
  | _ => false

mutual

/-- The **C expression** of an expression, for code in a precision, with the library functions of
a suffix. The first operation without a C form is what it fails with. -/
def lower (p : Precision) (suffix : String) : Expr → Except Failure Term
  | .node op operands =>
    match op, operands with
    | .fromBits format, [x] => do constant p (← x.coding) format
    | .splat _, _ =>
      .error (unsupported op " (vector number types are not supported in C)")
    | .constant _, _ | .mathConstant _, _ =>
      .error (unsupported op " (constants must be quantized before code generation)")
    | .conversion format, [x] => do
      let type ← conversionType format
      return .parenthesized (.cast type (← lower p suffix x))
    | .var name _, _ => .ok (.identifier name)
    | .mathFunction name, operands =>
      match libraryFunction? name with
      | none => .error (unsupported op (" (" ++ name ++ " has no C counterpart)"))
      | some function => do
        return .call (function ++ widestSuffix) (← lowerAll p suffix operands)
    | op, operands =>
      if isOperation op then do operation suffix op (← lowerAll p suffix operands)
      else .error (unsupported op "")

/-- The C expressions of a list of expressions, from left to right. -/
def lowerAll (p : Precision) (suffix : String) : List Expr → Except Failure (List Term)
  | [] => .ok []
  | e :: es => do return (← lower p suffix e) :: (← lowerAll p suffix es)

end

end Elementary.C
