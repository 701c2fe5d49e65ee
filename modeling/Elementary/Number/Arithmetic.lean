import Elementary.Number.Basic

/-!
# Arithmetic of written numbers

Sums and products of numbers as they are written. The result is of the wider of the two kinds:
integer, quotient, floating point, arbitrary precision. Of two numbers of arbitrary precision the
first sets the precision of the result.

## Main definitions

* `Number.add`, `Number.mul`: sum and product.
* `Number.isZero`: whether a number equals zero.
-/

namespace Elementary.Number

/-- The working precision of a number that shows `digits` digits. -/
def bitsOf (digits : Nat) : Nat := workingBits digits

/-- A rational as a floating-point number of double precision. -/
def toDouble (q : Rat) : Datum := Datum.ofRat Precision.double.format false q

/-- A number of the kind of another operand of arbitrary precision, rounded once. -/
def alongside (bits : Nat) : Number → Except Failure BigFloat
  | truth b => .ok (.ofInt (if b then 1 else 0))
  | integer n => .ok (.ofInt n)
  | ratio q => .ok (.nearest bits q)
  | double x =>
    .ok (match x with
      | .nan => .nan
      | .infinite negative => .infinite negative
      | .finite negative q => .nearest 64 (Datum.signed negative q))
  | big x _ => .ok x
  | n => .error (.wrongKind ("unsupported operand " ++ n.text))

/-- The exact value of a number that is an integer or a quotient. -/
def rational? : Number → Option Rat
  | truth b => some (if b then 1 else 0)
  | integer n => some n
  | ratio q => some q
  | _ => none

/-- Whether a number is a quotient by kind. -/
def isRatio : Number → Bool
  | ratio _ => true
  | _ => false

/-- An operation on two numbers, given for each kind. -/
def combine (onRat : Rat → Rat → Rat) (onDouble : Datum → Datum → Datum)
    (onBig : Nat → BigFloat → BigFloat → BigFloat) (a b : Number) : Except Failure Number :=
  match a, b with
  | big x digits, b => do
    let bits := bitsOf digits
    return big (onBig bits x (← b.alongside bits)) digits
  | a, big y digits => do
    let bits := bitsOf digits
    return big (onBig bits (← a.alongside bits) y) digits
  | a, b =>
    match a.rational?, b.rational? with
    | some p, some q =>
      let r := onRat p q
      .ok (if a.isRatio || b.isRatio then ratio r else integer r.num)
    | p, q =>
      match a, b, p, q with
      | double x, double y, _, _ => .ok (double (onDouble x y))
      | double x, _, _, some q => .ok (double (onDouble x (toDouble q)))
      | _, double y, some p, _ => .ok (double (onDouble (toDouble p) y))
      | _, _, _, _ => .error (.wrongKind "unsupported operands")

/-- The **sum** of two numbers. -/
def add : Number → Number → Except Failure Number :=
  combine (· + ·) (Datum.add Precision.double.format) BigFloat.add

/-- The **product** of two numbers. -/
def mul : Number → Number → Except Failure Number :=
  combine (· * ·) (Datum.mul Precision.double.format) BigFloat.mul

/-- Whether a number **equals zero**. -/
def isZero : Number → Bool
  | truth b => !b
  | integer n => n == 0
  | ratio q => q == 0
  | double x | single x => x.isZero
  | big x _ => x.isZero
  | absent | literal _ | sequence => false

end Elementary.Number
