import Elementary.Number.Rounding

/-!
# Numbers of arbitrary precision

A number of arbitrary precision is a dyadic rational with an unbounded exponent, or one of the
infinities, or no number at all; there is one zero. Each operation takes the working precision in
bits and rounds the exact result once, to nearest, a half going to the even neighbour.

## Main definitions

* `BigFloat`: the numbers.
* `Dyadic.roundTo`: the nearest dyadic with a given number of significant bits.
* `BigFloat.add`, `sub`, `mul`, `div`, `sqrt`: the operations, each rounded once.
* `BigFloat.ofRat`: a quotient brought to the working precision.
-/

namespace Elementary

namespace BinaryScale

/-- A natural number brought to at most `bits` significant bits, as a significand and the number
of bits dropped: to nearest, a half going to the even significand. -/
def roundSignificand (bits n : Nat) : Nat × Nat :=
  let length := bitLength n
  if length ≤ bits then (n, 0)
  else
    let drop := length - bits
    let kept := n >>> drop
    let rest := n - (kept <<< drop)
    let half := 1 <<< (drop - 1)
    if half < rest ∨ (rest = half ∧ kept % 2 = 1) then (kept + 1, drop) else (kept, drop)

/-- The dyadic `n * 2 ^ e` rounded to `bits` significant bits. -/
def round (bits : Nat) (n : Int) (e : Int) : Dyadic :=
  let (significand, drop) := roundSignificand bits n.natAbs
  let signed : Int := if n < 0 then -(significand : Int) else significand
  Dyadic.ofIntWithPrec signed (-(e + drop))

/-- The integer square root, by Newton's iteration from above; `fuel` bounds the steps. -/
def sqrtFrom (n : Nat) : (fuel : Nat) → (guess : Nat) → Nat
  | 0, guess => guess
  | fuel + 1, guess =>
    let next := (guess + n / guess) / 2
    if next < guess then sqrtFrom n fuel next else guess

/-- The **integer square root**: the largest `r` with `r * r ≤ n`. -/
def sqrt (n : Nat) : Nat :=
  if n = 0 then 0 else sqrtFrom n (bitLength n + 2) (1 <<< ((bitLength n + 1) / 2))

end BinaryScale

/-- A **number of arbitrary precision**. -/
inductive BigFloat where
  | finite (x : Dyadic)
  | infinite (negative : Bool)
  | nan
  deriving DecidableEq

namespace BigFloat

/-- The significand and exponent of a dyadic: `n * 2 ^ e` with `n` odd, or `0` and `0`. -/
def parts : Dyadic → Int × Int
  | .zero => (0, 0)
  | .ofOdd n k _ => (n, -k)

/-- A dyadic **rounded to `bits` significant bits**. -/
def roundDyadic (bits : Nat) (x : Dyadic) : Dyadic :=
  match x with
  | .zero => .zero
  | .ofOdd n k _ =>
    if bitLength n.natAbs ≤ bits then x else BinaryScale.round bits n (-k)

instance : Inhabited BigFloat := ⟨.nan⟩

/-- The number zero. -/
def zero : BigFloat := .finite .zero

/-- An integer, not rounded. -/
def ofInt (n : Int) : BigFloat := .finite (Dyadic.ofInt n)

/-- The number `n * 2 ^ e`, not rounded. -/
def scaled (n e : Int) : BigFloat := .finite (Dyadic.ofIntWithPrec n (-e))

/-- The number one. -/
def one : BigFloat := ofInt 1

/-- A number **rounded to `bits` significant bits**. -/
def round (bits : Nat) : BigFloat → BigFloat
  | finite x => finite (roundDyadic bits x)
  | x => x

/-- Whether a number is finite. -/
def isFinite : BigFloat → Bool
  | finite _ => true
  | _ => false

/-- Whether a number is zero. -/
def isZero : BigFloat → Bool
  | finite .zero => true
  | _ => false

/-- Whether a number lies below zero. -/
def isNegative : BigFloat → Bool
  | finite (.ofOdd n _ _) => n < 0
  | infinite negative => negative
  | _ => false

/-- The exact value of a finite number. -/
def toRat? : BigFloat → Option Rat
  | finite x => some x.toRat
  | _ => none

/-- The exact negation. -/
def negate : BigFloat → BigFloat
  | finite x => finite (-x)
  | infinite negative => infinite !negative
  | nan => nan

/-- The sign of a dyadic: `-1`, `0` or `1`. -/
def signOf : Dyadic → Int
  | .zero => 0
  | .ofOdd n _ _ => n.sign

/-- The exact magnitude. -/
def magnitude : BigFloat → BigFloat
  | finite x => finite (if signOf x < 0 then -x else x)
  | infinite _ => infinite false
  | nan => nan

/-- The **sum**, rounded once. -/
def add (bits : Nat) : BigFloat → BigFloat → BigFloat
  | finite x, finite y => finite (roundDyadic bits (x + y))
  | infinite a, infinite b => if a = b then infinite a else nan
  | nan, _ => nan
  | _, nan => nan
  | infinite a, _ => infinite a
  | _, infinite b => infinite b

/-- The **difference**, rounded once. -/
def sub (bits : Nat) (x y : BigFloat) : BigFloat := add bits x y.negate

/-- The exact product. -/
def mulExact : BigFloat → BigFloat → BigFloat
  | finite x, finite y => finite (x * y)
  | nan, _ => nan
  | _, nan => nan
  | x, y => if x.isZero || y.isZero then nan else infinite (x.isNegative != y.isNegative)

/-- The **product**, rounded once. -/
def mul (bits : Nat) (x y : BigFloat) : BigFloat := round bits (mulExact x y)

/-- The quotient `n * 2 ^ e / d` rounded once: the integer quotient is taken to at least two bits
more than asked for, and a last bit records whether anything was left. -/
def roundQuotient (bits : Nat) (n : Int) (d : Nat) (e : Int) : Dyadic :=
  let shift := bits + 2 + bitLength d - bitLength n.natAbs
  let numerator := n.natAbs <<< shift
  let quotient := numerator / d
  let marked := 2 * quotient + if numerator % d = 0 then 0 else 1
  BinaryScale.round bits (if n < 0 then -(marked : Int) else marked) (e - shift - 1)

/-- The **quotient** of two numbers of which the second is not zero, rounded once. -/
def div (bits : Nat) : BigFloat → BigFloat → BigFloat
  | finite x, finite y =>
    let (n, e) := parts x
    let (d, f) := parts y
    finite (roundQuotient bits (if d < 0 then -n else n) d.natAbs (e - f))
  | nan, _ => nan
  | _, nan => nan
  | infinite _, infinite _ => nan
  | infinite a, y => infinite (a != y.isNegative)
  | finite _, infinite _ => zero

/-- A rational brought to `bits` bits: its numerator is rounded first and the quotient by the
exact denominator second. -/
def ofRat (bits : Nat) (q : Rat) : BigFloat :=
  div bits (round bits (ofInt q.num)) (ofInt q.den)

/-- A rational **rounded once** to `bits` bits. -/
def nearest (bits : Nat) (q : Rat) : BigFloat := finite (roundQuotient bits q.num q.den 0)

/-- The **square root** of a number that is not negative, rounded once. -/
def sqrt (bits : Nat) : BigFloat → BigFloat
  | finite x =>
    let (n, e) := parts x
    if n ≤ 0 then zero
    else
      -- an even exponent, and enough bits for the root
      let want := 2 * bits + 4
      let length := bitLength n.natAbs
      let raise := (want - length) + if (e - (want - length : Nat)) % 2 = 0 then 0 else 1
      let radicand := n.natAbs <<< raise
      let root := BinaryScale.sqrt radicand
      let marked := 2 * root + if root * root = radicand then 0 else 1
      finite (BinaryScale.round bits marked ((e - raise) / 2 - 1))
  | infinite _ => infinite false
  | nan => nan

/-- The order of two numbers, `none` when one of them is not a number. -/
def compare? : BigFloat → BigFloat → Option Ordering
  | nan, _ => none
  | _, nan => none
  | finite x, finite y =>
    some (let s := signOf (x - y); if s < 0 then .lt else if s = 0 then .eq else .gt)
  | infinite a, infinite b =>
    some (if a = b then .eq else if a then .lt else .gt)
  | infinite a, finite _ => some (if a then .lt else .gt)
  | finite _, infinite b => some (if b then .gt else .lt)

/-- Whether the first number lies below the second. -/
def lt (x y : BigFloat) : Bool := compare? x y == some .lt

/-- Whether the first number is at most the second. -/
def le (x y : BigFloat) : Bool := compare? x y == some .lt || compare? x y == some .eq

/-- The larger of two numbers, the first when they are equal. -/
def max (x y : BigFloat) : BigFloat := if lt x y then y else x

/-- The largest integer that is not above a dyadic. -/
def floorDyadic (x : Dyadic) : Int :=
  match x with
  | .zero => 0
  | .ofOdd n k _ => if k ≤ 0 then n <<< (-k).toNat else n >>> k.toNat

/-- The integer next to a dyadic in the direction of zero. -/
def truncateDyadic (x : Dyadic) : Int :=
  if signOf x < 0 then -floorDyadic (-x) else floorDyadic x

/-- The **integral part** that is not above a number, rounded to the working precision. -/
def floor (bits : Nat) : BigFloat → BigFloat
  | finite x => round bits (ofInt (floorDyadic x))
  | x => x

/-- A number scaled by the power of two with exponent `k`, exactly. -/
def scale (x : BigFloat) (k : Int) : BigFloat :=
  match x with
  | finite (.ofOdd n e h) => finite (.ofOdd n (e - k) h)
  | x => x

/-- A power with a natural exponent, rounded once. -/
def pow (bits : Nat) (x : BigFloat) (n : Nat) : BigFloat :=
  match x with
  | finite y =>
    let (m, e) := parts y
    finite (BinaryScale.round bits (Int.pow m n) (e * n))
  | infinite negative =>
    if n = 0 then one else infinite (negative && n % 2 == 1)
  | nan => if n = 0 then one else nan

/-- The sum of a list of numbers, rounded once. -/
def sum (bits : Nat) (xs : List BigFloat) : BigFloat :=
  round bits (xs.foldl (fun total x =>
    match total, x with
    | finite a, finite b => finite (a + b)
    | total, x => add bits total x) zero)

end BigFloat

end Elementary
