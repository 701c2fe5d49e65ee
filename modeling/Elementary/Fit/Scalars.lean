import Elementary.BigFloat.Function

/-!
# Scalars of a fit

A fit computes with numbers of arbitrary precision. What it does with them is said over any kind
of numbers with an arithmetic and an order, so that it can be read in exact arithmetic too.

## Main definitions

* `Fit.Scalars`: the operations that a fit uses.
* `Fit.bigScalars`: the numbers of arbitrary precision at a working precision.
* `Fit.exactScalars`: the rationals.
-/

namespace Elementary.Fit

/-- The **operations that a fit uses** on its numbers. -/
structure Scalars (κ : Type) where
  ofInt : Int → κ
  add : κ → κ → κ
  sub : κ → κ → κ
  mul : κ → κ → κ
  div : κ → κ → κ
  neg : κ → κ
  /-- A power with a natural exponent. -/
  pow : κ → Nat → κ
  /-- The sum of a list, rounded once. -/
  sum : List κ → κ
  lt : κ → κ → Bool

namespace Scalars

variable {κ : Type} (S : Scalars κ)

/-- Zero. -/
def zero : κ := S.ofInt 0

/-- The magnitude of a number. -/
def abs (x : κ) : κ := if S.lt x S.zero then S.neg x else x

/-- Whether one number is at most another. -/
def le (x y : κ) : Bool := !S.lt y x

/-- A number, negated unless the sign is positive. -/
def signed (positive : Bool) (x : κ) : κ := if positive then x else S.neg x

/-- The larger of two numbers, the first when they are equal. -/
def max (x y : κ) : κ := if S.lt x y then y else x

end Scalars

/-- The numbers of arbitrary precision at a working precision of `bits` bits. -/
def bigScalars (bits : Nat) : Scalars BigFloat where
  ofInt n := BigFloat.round bits (.ofInt n)
  add := BigFloat.add bits
  sub := BigFloat.sub bits
  mul := BigFloat.mul bits
  div := BigFloat.div bits
  neg x := BigFloat.round bits x.negate
  pow := BigFloat.pow bits
  sum := BigFloat.sum bits
  lt := BigFloat.lt

/-- The rationals, on which every operation is exact. -/
def exactScalars : Scalars Rat where
  ofInt n := n
  add := (· + ·)
  sub := (· - ·)
  mul := (· * ·)
  div := (· / ·)
  neg x := -x
  pow x n := x ^ n
  sum xs := xs.foldl (· + ·) 0
  lt x y := decide (x < y)

end Elementary.Fit
