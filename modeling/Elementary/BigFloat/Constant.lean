import Elementary.BigFloat.Enclosure
import Elementary.Failure

/-!
# Mathematical constants

The constants that an expression may name, at any working precision.

## Main definitions

* `BigFloat.constant?`: a named constant, rounded to a precision.
* `BigFloat.constantBits`: the precision at which a constant is kept before it is rounded to a
  format.
-/

namespace Elementary.BigFloat

/-- The ratio of a circle to its diameter. -/
def pi (bits : Nat) : BigFloat := correctlyRounded bits Enclosure.pi

/-- The natural logarithm of two. -/
def ln2 (bits : Nat) : BigFloat := correctlyRounded bits Enclosure.ln2

/-- The natural logarithm of ten. -/
def ln10 (bits : Nat) : BigFloat := correctlyRounded bits Enclosure.ln10

/-- The base of the natural logarithm. -/
def e (bits : Nat) : BigFloat := correctlyRounded bits (Enclosure.exp · (Dyadic.ofInt 1))

/-- Whether a constant is a quantity of its own, and not the result of an operation on one. -/
def isPrimitiveConstant (name : String) : Bool := ["pi", "e", "ln2", "ln10"].contains name

/-- A **named constant** at a working precision. The binary logarithm of `e` is the reciprocal of
the rounded natural logarithm of two. -/
def constant? (bits : Nat) (name : String) : Option BigFloat :=
  match name with
  | "pi" => some (pi bits)
  | "e" => some (e bits)
  | "ln2" => some (ln2 bits)
  | "ln10" => some (ln10 bits)
  | "log2e" => some (div bits one (ln2 bits))
  | "sqrt2" => some (sqrt bits (ofInt 2))
  | _ => none

/-- The precision, in bits, at which a constant is evaluated before it is rounded to a format. -/
def constantBits : Nat := 256

/-- A named constant at a working precision, or the failure of an unknown name. -/
def constant (bits : Nat) (name : String) : Except Failure BigFloat :=
  match constant? bits name with
  | some x => .ok x
  | none => .error (.unknownKey name)

end Elementary.BigFloat
