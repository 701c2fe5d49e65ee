import Elementary.Expr.Basic
import Elementary.Polynomial.Basic

/-!
# Horner schemes as expressions

A polynomial in a variable becomes a chain of fused multiply-adds from the top degree down,
missing degrees included. An odd polynomial is the variable times a polynomial in its square, an
even one a polynomial in its square.

## Main definitions

* `Polynomial.denseHorner`: the chain over the powers of a given expression.
* `Polynomial.horner`: the scheme for a parity.
-/

namespace Elementary.Polynomial

/-- The chain of fused multiply-adds over the **powers of an expression**. -/
def denseHorner (p : Polynomial Number) (power : Expr) : Expr :=
  (downFrom (p.degree - 1)).foldl
    (fun scheme d => Expr.mulAdd scheme power (Expr.constant (p.coefficient d)))
    (Expr.constant (p.coefficient p.degree))

/-- The polynomial whose degrees are the halves of the given ones. -/
def halveDegrees (p : Polynomial Number) : Polynomial Number :=
  ofList (p.coefficients.map fun (d, c) => (d / 2, c))

/-- The **Horner scheme** of a polynomial in a variable, for a parity. The degrees have to be of
that parity. -/
def horner (p : Polynomial Number) (name : String) (parity : Parity) : Except Failure Expr :=
  let x := Expr.var name
  match parity with
  | .odd =>
    if p.coefficients.all fun (d, _) => d % 2 = 1 then
      .ok (x * (p.select (fun _ _ => true) (-1)).halveDegrees.denseHorner (x * x))
    else .error .requirement
  | .even =>
    if p.coefficients.all fun (d, _) => d % 2 = 0 then
      .ok (p.halveDegrees.denseHorner (x * x))
    else .error .requirement
  | .none => .ok (p.denseHorner x)

end Elementary.Polynomial
