import Elementary.Evaluation.Basic
import Elementary.Native.Term

/-!
# Expressions in Python

A quantized expression is written in Python with the functions of the array library and with a few
helpers that every module defines. In the reference of a test, variables are brought to double
precision. A choice is a conditional expression, or for vectors a choice in each lane.

## Main definitions

* `Native.lower`: the Python expression of an expression.
-/

namespace Elementary.Native

/-- The name of this code generator in messages. -/
def generatorName : String := "NativeCodeGenerator"

/-- The failure for an operation without a Python form. -/
def unsupported (op : Op) (remark : String) : Failure :=
  .unsupportedNode generatorName op.name remark

/-- The scalar type of a precision. -/
def scalarType : Precision → String
  | .single => "float32"
  | .double => "float64"

/-- The helper that takes bits as a number of a precision. -/
def decodingHelper : Precision → String
  | .single => "from_bits32"
  | .double => "from_bits64"

/-- The **library functions** for mathematical functions. -/
def libraryFunction? (name : String) : Option String :=
  match [("asin", "arcsin"), ("acos", "arccos"), ("atan", "arctan"), ("ln", "log"),
      ("atanh", "arctanh")].lookup name with
  | some function => some function
  | none =>
    if ["sin", "cos", "tan", "exp", "exp2", "log2", "log10", "sinh", "cosh", "tanh", "sqrt",
        "hypot"].contains name then some name
    else none

/-- How an expression is written: the number type of the code, and whether variables are brought to
double precision first. -/
structure Style where
  numberType : NumberType
  isReference : Bool

/-- A variable in a style. -/
def Style.variableTerm (s : Style) (name : String) : Term :=
  if s.isReference then .call (.library "float64") [.name name] else .name name

/-- The bits that an operand of a bit conversion holds, as a literal. -/
def codingTerm (e : Expr) : Except Failure Term :=
  match e.op with
  | .bitPattern coding | .constant (.integer coding) => .ok (.integer coding)
  | .constant (.truth b) => .ok (.truth b)
  | .constant (.literal s) => .ok (.string s)
  | .constant (.double x) => .ok (.float x)
  | .constant .absent => .ok (.name "None")
  | .constant (.ratio q) => .ok (.callOf "Fraction" [.integer q.num, .integer q.den])
  | .constant n => .ok (.name n.text)
  | _ => .error (.missingPart (e.name ++ " holds no coding"))

/-- The **number of some bits** in a format. -/
def constant (e : Expr) : Option ResultFormat → Except Failure Term
  | some (.binary p) => do return .callOf (decodingHelper p) [← codingTerm e]
  | some .truth => .error (.unknownKey "1")
  | none => .error (.missingPart "no format")

/-- The type of a conversion. -/
def conversionType : Option ResultFormat → Except Failure Term
  | some (.binary p) => .ok (.library (scalarType p))
  | _ => .error (.missingPart "no binary format")

/-- The operator of an operation with two operands. -/
def operator? : Op → Option Operator
  | .addition => some .add
  | .subtraction => some .sub
  | .multiplication => some .mul
  | .division => some .div
  | _ => none

/-- The term of an **operation** on terms that stand for its operands. -/
def operation (nt : NumberType) (op : Op) (operands : List Term) : Except Failure Term :=
  match op, operands with
  | .negation, [x] => .ok (.negation x)
  | .absolute, [x] => .ok (.call (.library "abs") [x])
  | .nearestInteger, [x] => .ok (.call (.library "rint") [x])
  | .floor, [x] => .ok (.call (.library "floor") [x])
  | .isOdd, [x] => .ok (.callOf "is_odd" [x])
  | .exponentInsertion, [x] =>
    .ok (.callOf "exponent_insertion" [x, .library (scalarType nt.precision)])
  | .exponentExtraction, [x] => .ok (.callOf "exponent" [x])
  | .mantissaExtraction, [x] => .ok (.callOf "mantissa" [x])
  | .fusedMultiplyAdd, [_, _, _] => .ok (.callOf "mul_add" operands)
  | .comparison r, [x, y] => .ok (.comparison r x y)
  | .select, [c, a, b] =>
    .ok (if nt.isVector then .call (.library "where") [c, a, b] else .conditional c a b)
  | .functionCall name, _ => .ok (.callOf name operands)
  | .tuple, _ => .ok (.tuple operands)
  | .tupleSelection index, [x] => .ok (.component x index)
  | op, [x, y] =>
    match operator? op with
    | some operator => .ok (.binary operator x y)
    | none => .error (unsupported op "")
  | op, _ => .error (unsupported op "")

/-- Whether an operation may have a Python form that is built from those of its operands. -/
def isOperation : Op → Bool
  | .negation | .absolute | .nearestInteger | .floor | .isOdd => true
  | .exponentInsertion | .exponentExtraction | .mantissaExtraction => true
  | .addition | .subtraction | .multiplication | .division | .comparison _ => true
  | .fusedMultiplyAdd | .select | .functionCall _ | .tuple | .tupleSelection _ => true
  | _ => false

mutual

/-- The **Python expression** of an expression in a style. The first operation without a Python
form is what it fails with. -/
def lower (s : Style) : Expr → Except Failure Term
  | .node op operands =>
    match op, operands with
    | .fromBits format, [x] => constant x format
    | .splat _, [x] => do return .callOf "splat" [← lower s x]
    | .constant _, _ | .mathConstant _, _ =>
      .error (unsupported op " (constants must be quantized before code generation)")
    | .conversion format, [x] => do
      let type ← conversionType format
      return .call type [← lower s x]
    | .var name _, _ => .ok (s.variableTerm name)
    | .mathFunction name, operands =>
      match libraryFunction? name with
      | none => .error (unsupported op (" (" ++ name ++ " has no numpy counterpart)"))
      | some function => do return .call (.library function) (← lowerAll s operands)
    | op, operands =>
      if isOperation op then do operation s.numberType op (← lowerAll s operands)
      else .error (unsupported op "")

/-- The Python expressions of a list of expressions, from left to right. -/
def lowerAll (s : Style) : List Expr → Except Failure (List Term)
  | [] => .ok []
  | e :: es => do return (← lower s e) :: (← lowerAll s es)

end

end Elementary.Native
