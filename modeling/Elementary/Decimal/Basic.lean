import Elementary.Number.Rounding
import Elementary.Text.Quoted

/-!
# Decimal notation

A positive number in decimal notation is a row of significant digits and the power of ten of the
first of them. This module cuts a rational to a given number of digits, and lays digits out as
text; which exponents are written positionally is up to a layout.

## Main definitions

* `Decimal`: significant digits and exponent.
* `Decimal.floorLog10`: the exponent of the leading decimal digit of a positive rational.
* `Decimal.ofRat`: a rational rounded to a number of significant digits.
* `Decimal.Layout`: the choices that a notation makes, and `Decimal.render`, which follows them.
-/

namespace Elementary

/-- A positive number in **decimal notation**: the digits `d₁ d₂ …`, the first of them worth
`10 ^ exponent`. -/
structure Decimal where
  digits : List Nat
  exponent : Int

namespace Decimal

/-- The exact **power of ten** with exponent `e`. -/
def pow10 (e : Int) : Rat := (10 : Rat) ^ e

/-- Moves an estimate of the decimal exponent of `q` until `10 ^ e ≤ q < 10 ^ (e + 1)`. -/
def adjustExponent (q : Rat) : (fuel : Nat) → Int → Int
  | 0, e => e
  | fuel + 1, e =>
    if q < pow10 e then adjustExponent q fuel (e - 1)
    else if pow10 (e + 1) ≤ q then adjustExponent q fuel (e + 1)
    else e

/-- The **decimal exponent** of a positive number. The binary exponent gives an estimate that is
at most a few units off for every number of a practical size. -/
def floorLog10 (q : Rat) : Int :=
  adjustExponent q 64 (floorLog2 q * 30102999566 / 100000000000)

/-- The decimal digits of `n`, the highest first. -/
def digitsOf (n : Nat) : List Nat :=
  (Nat.toDigits 10 n).map fun c => c.toNat - '0'.toNat

/-- The notation of `n * 10 ^ scale`. -/
def ofScaled (n : Nat) (scale : Int) : Decimal :=
  let digits := digitsOf n
  ⟨digits, scale + digits.length - 1⟩

/-- The notation without the zeros at its end. -/
def stripZeros (d : Decimal) : Decimal :=
  { d with digits := (d.digits.reverse.dropWhile (· == 0)).reverse }

/-- A positive number **rounded to `count` significant digits**, a half going up. -/
def ofRat (count : Nat) (q : Rat) : Decimal :=
  let scale := floorLog10 q - count + 1
  let n := (q / pow10 scale + 1 / 2).floor.toNat
  let d := ofScaled n scale
  { d with digits := d.digits.take count }

/-- The exact value of a notation. -/
def toRat (d : Decimal) : Rat :=
  (d.digits.foldl (fun n digit => 10 * n + digit) 0 : Nat)
    * pow10 (d.exponent - d.digits.length + 1)

/-- The **choices of a notation**: which exponents are written positionally, and how many digits
the exponent has at least. -/
structure Layout where
  positional : Int → Bool
  exponentDigits : Nat

/-- The text of a row of digits. -/
def digitText (digits : List Nat) : String :=
  String.ofList (digits.map fun d => Char.ofNat (48 + d))

/-- The text of an exponent: its mark, its sign and its digits. -/
def exponentText (width : Nat) (e : Int) : String :=
  (if e < 0 then "e-" else "e+") ++ Text.padLeft width '0' (toString e.natAbs)

/-- The digits written positionally. A fraction part of at least one digit is always shown. -/
def renderPositional (d : Decimal) : String :=
  if d.exponent < 0 then
    "0." ++ digitText (List.replicate (d.exponent.natAbs - 1) 0) ++ digitText d.digits
  else
    let split := d.exponent.toNat + 1
    let whole := d.digits.take split ++ List.replicate (split - d.digits.length) 0
    let rest := d.digits.drop split
    digitText whole ++ "." ++ (if rest.isEmpty then "0" else digitText rest)

/-- The digits with a point after the first, and the exponent. A fraction part is shown when
there is one, or always when `pointed`. -/
def renderScientific (pointed : Bool) (width : Nat) (d : Decimal) : String :=
  let rest := d.digits.drop 1
  digitText (d.digits.take 1)
    ++ (if rest.isEmpty then (if pointed then ".0" else "") else "." ++ digitText rest)
    ++ exponentText width d.exponent

end Decimal

end Elementary
