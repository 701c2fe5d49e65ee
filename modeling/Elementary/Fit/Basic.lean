import Elementary.Expr.Description
import Elementary.Polynomial.Horner

/-!
# Requests for fits and their results

A fit is asked for by a target function of one variable, an interval, a number of terms and a
parity. Its result is a polynomial with the largest error found on the interval.

## Main definitions

* `Fit.Request`: what is to be approximated.
* `Fit.Result`: the polynomial and its error.
* `Fit.Request.description`: the request as text.
* `Fit.Result.expression`: the polynomial as a Horner scheme.
-/

namespace Elementary.Fit

/-- A **request for a fit**. The target is an expression; a bare number in its place is shown but
cannot be evaluated. -/
structure Request where
  target : Expr.Operand
  argument : String
  terms : Int
  low : Number
  high : Number
  parity : Parity
  digits : Int

/-- The text of a target, on one line. -/
def targetText : Expr.Operand → String
  | .expr e => String.ofList (e.describe.toList.map fun c => if c = '\n' then ' ' else c)
  | .number n => n.text

/-- A request as **text**. -/
def Request.description (r : Request) : String :=
  targetText r.target ++ " on [" ++ r.low.text ++ ", " ++ r.high.text ++ "] (" ++
    toString r.terms ++ " terms, parity=" ++ r.parity.name ++ ")"

/-- The **result of a fit**. -/
structure Result where
  request : Request
  polynomial : Polynomial Number
  /-- The largest error that was found. -/
  error : Number
  /-- The error that the last exchange levelled out. -/
  levelled : Number
  iterations : Nat

/-- The polynomial of a fit as a **Horner scheme** in the variable of the request. -/
def Result.expression (r : Result) : Except Failure Expr :=
  r.polynomial.horner r.request.argument r.request.parity

end Elementary.Fit
