import Elementary.BigFloat.Constant
import Elementary.Expr.Transformation

/-!
# Quantization

Quantization replaces every constant of an expression by the coding of the nearest number of the
target precision, spread over the lanes when the target is a vector. A constant that is not finite
or overflows the precision makes the quantization fail. After it every number in the expression is
exact.

## Main definitions

* `NumberType.codingOf`: the coding of a written number, or why there is none.
* `NumberType.literal`: the expression of a coding.
* `NumberType.quantizeNumber`: a written number quantized, with its messages.
* `Expr.quantize`: a tree quantized; `Node.quantize` does the same on a graph.
-/

namespace Elementary

namespace NumberType

/-- The format attribute of the operations of a number type. -/
def formatAttribute (nt : NumberType) : Option ResultFormat := some (.binary nt.precision)

/-- The expression of a coding: a bit pattern taken as a number, spread over the lanes of a
vector. -/
def literal (nt : NumberType) (coding : Nat) : Expr :=
  let scalar := Expr.node (.fromBits nt.formatAttribute) [.node (.bitPattern coding) []]
  if nt.isVector then .node (.splat nt.formatAttribute) [scalar] else scalar

/-- What becomes of a number whose value was encoded: the coding is reported, and an overflow is
reported as a failure of the quantization. -/
def afterEncoding (nt : NumberType) (n : Number) : Except Failure Nat → Traced Nat
  | .ok coding => do
    let shown ← Traced.ofExcept n.shown
    Traced.report (.info "quantization")
      ("quantizing " ++ shown ++ " to " ++ Text.hexMarked coding)
    return coding
  | .error (.overflow _ _) =>
    Traced.abort ("constant " ++ n.text ++ " overflows " ++ nt.tag) (.quantization n.text)
  | .error f => throw f

/-- The **coding of a written number** in the precision of a number type, with the messages of its
quantization. -/
def codingOf (nt : NumberType) (n : Number) : Traced Nat := do
  unless (← Traced.ofExcept n.isFinite) do
    Traced.abort ("constant " ++ n.text ++ " is not finite and can not be encoded as " ++ nt.tag)
      (.quantization n.text)
  nt.afterEncoding n (nt.precision.encode (← Traced.ofExcept n.toRat))

/-- A **written number quantized**. -/
def quantizeNumber (nt : NumberType) (n : Number) : Traced Expr :=
  return nt.literal (← nt.codingOf n)

end NumberType

/-- A named constant as a number, at the precision and with the digits at which constants are
kept. -/
def Number.ofConstant (name : String) : Except Failure Number :=
  (BigFloat.constant BigFloat.constantBits name).map fun x =>
    .big x (shownDigits BigFloat.constantBits)

/-- The number that an operation **stands for by itself**: a written number, or a named
constant. -/
def Op.number? : Op → Option (Except Failure Number)
  | .constant n => some (.ok n)
  | .mathConstant name => some (Number.ofConstant name)
  | _ => none

/-- The name of the quantization among the transformations. -/
def quantizationName : String := "use_number_type"

/-- One step of the quantization of a tree. -/
def Expr.quantizeStep (nt : NumberType) (e : Expr) : Traced Expr :=
  match e.op.number? with
  | none => return e
  | some n => do nt.quantizeNumber (← Traced.ofExcept n)

/-- A tree with **every constant quantized**. -/
def Expr.quantize (nt : NumberType) (e : Expr) : Traced Expr :=
  Expr.transform quantizationName (Expr.quantizeStep nt) e

/-- One step of the quantization of a graph. -/
def Node.quantizeStep (nt : NumberType) (n : Node) : TransformM Replacement :=
  match n.op.number? with
  | none => return .node n
  | some value => do
    let e ← TransformM.ofTraced (do nt.quantizeNumber (← Traced.ofExcept value))
    let fresh ← TransformM.withLabels fun next => .ok (Node.ofExpr e next)
    return .node fresh

/-- A graph, whose labels lie below `next`, with every constant quantized. -/
def Node.quantize (nt : NumberType) (n : Node) (next : Nat) :
    Except Failure Replacement × TransformState :=
  n.transform quantizationName (Node.quantizeStep nt) next

end Elementary
