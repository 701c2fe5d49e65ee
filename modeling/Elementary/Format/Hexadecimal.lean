import Elementary.Format.Datum
import Elementary.Number.Literal

/-!
# Hexadecimal text of double-precision numbers

A number of double precision is written exactly as a hexadecimal significand and a power of two:
one digit before the point, thirteen after it, and a decimal exponent. A subnormal number keeps
the smallest normal exponent and the digit zero before the point.

## Main definitions

* `Datum.hexText`: the hexadecimal text.
* `Datum.ofHexText`: the number of double precision that a hexadecimal text stands for.
-/

namespace Elementary.Datum

/-- The hexadecimal text of a significand of 53 bits and an exponent. -/
def hexSignificand (significand : Nat) (e : Int) : String :=
  let fraction := significand % Nat.pow 2 52
  "0x" ++ toString (significand / Nat.pow 2 52) ++ "." ++ Text.padLeft 13 '0' (Text.hex fraction)
    ++ "p" ++ (if e < 0 then "-" else "+") ++ toString e.natAbs

/-- The **hexadecimal text** of a datum of double precision. -/
def hexText : Datum → String
  | nan => "nan"
  | infinite negative => if negative then "-inf" else "inf"
  | finite negative q =>
    let fmt := Precision.double.format
    (if negative then "-" else "") ++
      if q = 0 then "0x0.0p+0"
      else
        let e := max (floorLog2 q) fmt.minNormalExponent
        hexSignificand (q / pow2 (e - fmt.fieldSize)).num.toNat e

/-- The number that a row of hexadecimal digits stands for. -/
def hexDigits (digits : List Char) : Nat :=
  digits.foldl (fun n c => 16 * n + (if c.isDigit then c.toNat - 48 else c.toLower.toNat - 87)) 0

/-- The magnitude of a hexadecimal significand, with or without a point, and its exponent. A digit
behind the point counts for four binary places. -/
def ofHexMagnitude (negative : Bool) (text : List Char) : Datum :=
  let significand := text.takeWhile (· != 'p')
  let fraction := (significand.dropWhile (· != '.')).drop 1
  let digits := significand.takeWhile (· != '.') ++ fraction
  let e := (Literal.integer? (String.ofList ((text.dropWhile (· != 'p')).drop 1))).getD 0
  ofMagnitude Precision.double.format negative
    (hexDigits digits * pow2 (e - 4 * fraction.length))

/-- The number of double precision that a **hexadecimal text** stands for, rounded where the text
has more digits than the precision. -/
def ofHexText (s : String) : Datum :=
  let (negative, magnitude) := match s.toList with
    | '-' :: cs => (true, cs)
    | cs => (false, cs)
  match magnitude with
  | ['i', 'n', 'f'] => infinite negative
  | ['n', 'a', 'n'] => nan
  | cs => ofHexMagnitude negative (cs.drop 2)

end Elementary.Datum
