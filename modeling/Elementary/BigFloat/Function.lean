import Elementary.BigFloat.Constant

/-!
# The elementary functions

The elementary functions on numbers of arbitrary precision, each rounded once. Outside the domain
on which a function is real its value is complex.

## Main definitions

* `MathFunction`: the functions, with their names and how many arguments they take.
* `MathValue`: a real or complex value.
* `MathFunction.apply`: the value of a function, correctly rounded.
-/

namespace Elementary

/-- A **real or complex value**. -/
inductive MathValue where
  | real (x : BigFloat)
  | complex (re im : BigFloat)

/-- The **elementary functions**. -/
inductive MathFunction where
  | sin | cos | tan | asin | acos | atan
  | exp | exp2 | ln | log2 | log10
  | sinh | cosh | tanh | atanh
  | sqrt | hypot
  deriving DecidableEq, Repr

namespace MathFunction

/-- The name of a function. -/
def name : MathFunction → String
  | sin => "sin" | cos => "cos" | tan => "tan"
  | asin => "asin" | acos => "acos" | atan => "atan"
  | exp => "exp" | exp2 => "exp2" | ln => "ln" | log2 => "log2" | log10 => "log10"
  | sinh => "sinh" | cosh => "cosh" | tanh => "tanh" | atanh => "atanh"
  | sqrt => "sqrt" | hypot => "hypot"

/-- Every function. -/
def all : List MathFunction :=
  [sin, cos, tan, asin, acos, atan, exp, exp2, ln, log2, log10, sinh, cosh, tanh, atanh, sqrt,
    hypot]

/-- The function with a given name. -/
def ofName? (s : String) : Option MathFunction := all.find? (·.name = s)

open BigFloat

/-- A value without an imaginary part, from enclosures. -/
def rounded (bits : Nat) (enclose : Nat → Dyadic → Ball) (x : Dyadic) : MathValue :=
  .real (correctlyRounded bits (enclose · x))

/-- Half the ratio of a circle to its diameter, with a sign. -/
def halfPi (bits : Nat) (negative : Bool) : BigFloat :=
  let half := (BigFloat.pi bits).scale (-1)
  if negative then half.negate else half

/-- The order of the magnitude of a dyadic and one. -/
def compareToOne (x : Dyadic) : Ordering :=
  let s := signOf ((if signOf x < 0 then -x else x) - Dyadic.ofInt 1)
  if s < 0 then .lt else if s = 0 then .eq else .gt

/-- The logarithm of a number to the base whose enclosures are given by `enclose`: minus infinity
at zero, and complex below. The imaginary part is `pi` divided by the logarithm of the base. -/
def logarithm (bits : Nat) (enclose : Nat → Dyadic → Ball) (imaginary : Nat → Ball)
    (exact : Dyadic → Option Int) : BigFloat → MathValue
  | .nan => .real .nan
  | .infinite false => .real (.infinite false)
  | .infinite true => .complex (.infinite false) (correctlyRounded bits imaginary)
  | .finite x =>
    let magnitude := if signOf x < 0 then -x else x
    let re := match exact magnitude with
      | some k => BigFloat.round bits (ofInt k)
      | none => correctlyRounded bits (enclose · magnitude)
    if signOf x = 0 then .real (.infinite true)
    else if signOf x < 0 then .complex re (correctlyRounded bits imaginary)
    else .real re

/-- The exponent of a power of two. -/
def exponentOfTwo? (x : Dyadic) : Option Int :=
  let (n, e) := parts x
  if n = 1 then some e else none

/-- The exponent of a power of ten. -/
def exponentOfTen? (x : Dyadic) : Option Int :=
  let n := (floorDyadic x).toNat
  let k := Nat.log2 n * 30103 / 100000
  if Dyadic.ofInt n = x then [k, k + 1].find? (fun k => Nat.pow 10 k = n) |>.map (↑·) else none

/-- The value of a function of one argument at a finite number. -/
def applyFinite (bits : Nat) (f : MathFunction) (x : Dyadic) : MathValue :=
  let isZero := signOf x = 0
  let negative := signOf x < 0
  let magnitude := if negative then -x else x
  match f with
  | sin => if isZero then .real zero else rounded bits Enclosure.sine x
  | cos => if isZero then .real one else rounded bits Enclosure.cosine x
  | tan => if isZero then .real zero else rounded bits Enclosure.tangent x
  | atan => if isZero then .real zero else rounded bits Enclosure.arctangent x
  | asin =>
    if isZero then .real zero
    else match compareToOne x with
      | .lt => rounded bits Enclosure.arcsine x
      | .eq => .real (halfPi bits negative)
      | .gt =>
        let im := correctlyRounded bits (Enclosure.inverseHyperbolicCosine · magnitude)
        .complex (halfPi bits negative) (if negative then im else im.negate)
  | acos =>
    match compareToOne x with
    | .lt => rounded bits Enclosure.arccosine x
    | .eq => .real (if negative then BigFloat.pi bits else zero)
    | .gt =>
      let im := correctlyRounded bits (Enclosure.inverseHyperbolicCosine · magnitude)
      if negative then .complex (BigFloat.pi bits) im.negate else .complex zero im
  | exp => if isZero then .real one else rounded bits Enclosure.exp x
  | exp2 =>
    if Dyadic.ofInt (floorDyadic x) = x then .real (scaled 1 (floorDyadic x))
    else rounded bits Enclosure.exp2 x
  | sinh => if isZero then .real zero else rounded bits Enclosure.hyperbolicSine x
  | cosh => if isZero then .real one else rounded bits Enclosure.hyperbolicCosine x
  | tanh => if isZero then .real zero else rounded bits Enclosure.hyperbolicTangent x
  | atanh =>
    if isZero then .real zero
    else match compareToOne x with
      | .lt => rounded bits Enclosure.inverseHyperbolicTangent x
      | .eq => .real (.infinite negative)
      | .gt =>
        .complex (correctlyRounded bits (Enclosure.inverseHyperbolicTangent · x))
          (halfPi bits (!negative))
  | _ => .real .nan

/-- The value of a function of one argument at an infinity. -/
def applyInfinite (bits : Nat) (f : MathFunction) (negative : Bool) : MathValue :=
  match f with
  | atan => .real (halfPi bits negative)
  | exp | exp2 => .real (if negative then zero else .infinite false)
  | sinh => .real (.infinite negative)
  | cosh => .real (.infinite false)
  | tanh => .real (ofInt (if negative then -1 else 1))
  | _ => .real .nan

/-- The value of a function of one argument. -/
def applyOne (bits : Nat) (f : MathFunction) (x : BigFloat) : MathValue :=
  match f with
  | ln => logarithm bits Enclosure.log Enclosure.pi
      (fun x => if x = Dyadic.ofInt 1 then some 0 else none) x
  | log2 => logarithm bits Enclosure.log2
      (fun w => Ball.div w (Enclosure.pi w) (Enclosure.ln2 w)) exponentOfTwo? x
  | log10 => logarithm bits Enclosure.log10
      (fun w => Ball.div w (Enclosure.pi w) (Enclosure.ln10 w)) exponentOfTen? x
  | sqrt =>
    if x.isNegative then .complex zero (BigFloat.sqrt bits x.negate)
    else .real (BigFloat.sqrt bits x)
  | f =>
    match x with
    | .finite x => applyFinite bits f x
    | .infinite negative => applyInfinite bits f negative
    | .nan => .real .nan

/-- The length of the hypotenuse over two sides. -/
def hypotenuse (bits : Nat) : BigFloat → BigFloat → BigFloat
  | .finite x, .finite y => BigFloat.sqrt bits (.finite (x * x + y * y))
  | .nan, _ => .nan
  | _, .nan => .nan
  | _, _ => .infinite false

/-- The **value of a function** at a working precision; a wrong number of arguments is a wrong
kind of call. -/
def apply (bits : Nat) (f : MathFunction) (args : List BigFloat) : Except Failure MathValue :=
  match f, args with
  | hypot, [x, y] => .ok (.real (hypotenuse bits x y))
  | hypot, _ => .error (.wrongKind "hypot takes two arguments")
  | f, [x] => .ok (applyOne bits f x)
  | f, _ => .error (.wrongKind (f.name ++ " takes one argument"))

end MathFunction

end Elementary
