import Elementary.Decimal.Shortest
import Elementary.Format.Coding

/-!
# Data of a binary format

A datum of a binary format is what a coding stands for: a number with a sign, of which zero has
both, an infinity, or no number. The operations take the exact result and round it once to the
format; a rounded result beyond the largest finite number becomes an infinity.

## Main definitions

* `Datum`: the data.
* `Datum.ofCoding`, `Datum.coding`: the correspondence with codings.
* `Datum.add`, `sub`, `mul`, `div`, `nearestInteger`, `floor`, `scaled`, `split`: the operations.
-/

namespace Elementary

/-- A **datum of a binary format**. -/
inductive Datum where
  | nan
  | infinite (negative : Bool)
  | finite (negative : Bool) (magnitude : Rat)
  deriving DecidableEq, Repr

namespace Datum

instance : Inhabited Datum := ⟨nan⟩

/-- Positive zero. -/
def zero : Datum := finite false 0

/-- The datum of a coding of the format's width. -/
def ofCoding (fmt : Format) (coding : Nat) : Datum :=
  let negative := fmt.signField coding ≠ 0
  let e := fmt.exponentField coding
  let fraction := fmt.fractionField coding
  if e = fmt.specialExponent then (if fraction = 0 then infinite negative else nan)
  else finite negative (fmt.magnitude e fraction)

/-- The coding of a datum of the format; of those that are no number, the quiet one. -/
def coding (fmt : Format) : Datum → Nat
  | nan => fmt.assemble false fmt.specialExponent (Nat.pow 2 (fmt.fieldSize - 1))
  | infinite negative => fmt.assemble negative fmt.specialExponent 0
  | finite negative q => fmt.encodeMagnitude negative q

/-- The exact value of a finite datum. -/
def toRat? : Datum → Option Rat
  | finite negative q => some (if negative then -q else q)
  | _ => none

/-- Whether a datum is a finite number. -/
def isFinite : Datum → Bool
  | finite .. => true
  | _ => false

/-- Whether a datum is a zero. -/
def isZero : Datum → Bool
  | finite _ q => q = 0
  | _ => false

/-- The sign of a datum that is a number. -/
def isNegative : Datum → Bool
  | nan => false
  | infinite negative => negative
  | finite negative _ => negative

/-- A magnitude with a sign **rounded to the format**; beyond the largest finite number it becomes
an infinity. -/
def ofMagnitude (fmt : Format) (negative : Bool) (q : Rat) : Datum :=
  let rounded := fmt.round q
  if fmt.maxValue < rounded then infinite negative else finite negative rounded

/-- An exact number **rounded to the format**, a zero taking the given sign. -/
def ofRat (fmt : Format) (negativeZero : Bool) (q : Rat) : Datum :=
  if q = 0 then finite negativeZero 0 else ofMagnitude fmt (decide (q < 0)) q.abs

/-- The datum rounded to another format. -/
def convert (fmt : Format) : Datum → Datum
  | finite negative q => ofMagnitude fmt negative q
  | x => x

/-- The datum with its sign flipped. -/
def neg : Datum → Datum
  | nan => nan
  | infinite negative => infinite !negative
  | finite negative q => finite (!negative) q

/-- The datum without its sign. -/
def abs : Datum → Datum
  | nan => nan
  | infinite _ => infinite false
  | finite _ q => finite false q

/-- The value of a sign and magnitude. -/
def signed (negative : Bool) (q : Rat) : Rat := if negative then -q else q

/-- The **sum**. A zero sum is negative only if both operands are. -/
def add (fmt : Format) : Datum → Datum → Datum
  | finite a p, finite b q => ofRat fmt (a && b) (signed a p + signed b q)
  | infinite a, infinite b => if a = b then infinite a else nan
  | infinite a, finite .. => infinite a
  | finite .., infinite b => infinite b
  | _, _ => nan

/-- The **difference**. -/
def sub (fmt : Format) (x y : Datum) : Datum := add fmt x y.neg

/-- The **product**. -/
def mul (fmt : Format) : Datum → Datum → Datum
  | finite a p, finite b q => ofMagnitude fmt (a != b) (p * q)
  | infinite a, infinite b => infinite (a != b)
  | infinite a, finite b q => if q = 0 then nan else infinite (a != b)
  | finite a p, infinite b => if p = 0 then nan else infinite (a != b)
  | _, _ => nan

/-- The **quotient**. -/
def div (fmt : Format) : Datum → Datum → Datum
  | finite a p, finite b q =>
    if q = 0 then (if p = 0 then nan else infinite (a != b))
    else ofMagnitude fmt (a != b) (p / q)
  | infinite a, finite b _ => infinite (a != b)
  | finite a _, infinite b => finite (a != b) 0
  | _, _ => nan

/-- The order of two data that are numbers; the two zeros are equal. -/
def compare? : Datum → Datum → Option Ordering
  | finite a p, finite b q =>
    let x := signed a p
    let y := signed b q
    some (if x < y then .lt else if x = y then .eq else .gt)
  | infinite a, infinite b => some (if a = b then .eq else if a then .lt else .gt)
  | infinite a, finite .. => some (if a then .lt else .gt)
  | finite .., infinite b => some (if b then .gt else .lt)
  | _, _ => none

/-- The **nearest integral** datum, a half going to the even one; the sign stays. -/
def nearestInteger : Datum → Datum
  | finite negative q => finite negative (roundHalfEven q : Int)
  | x => x

/-- The integral datum that is not above; the sign stays. -/
def floor : Datum → Datum
  | finite negative q =>
    finite negative (if negative then -((-q).floor : Rat) else (q.floor : Rat))
  | x => x

/-- Whether a datum **leaves a remainder** on division by two. An infinity leaves no number, which
is no zero either. -/
def isOdd : Datum → Bool
  | finite _ q => (q / 2).floor * 2 ≠ q
  | _ => true

/-- A power of two rounded to the format. -/
def powerOfTwo (fmt : Format) (e : Int) : Datum :=
  -- a magnitude outside these bounds overflows or vanishes however far away it is
  let e := max (fmt.minSubnormalExponent - 8) (min e (fmt.maxExponent + 8))
  ofMagnitude fmt false (pow2 e)

/-- The **exponent** `e` of the decomposition `x = m * 2 ^ e` with `1 ≤ |m| < 2`; a datum without
such a decomposition has the exponent `-1`. -/
def exponent : Datum → Int
  | finite _ q => if q = 0 then -1 else floorLog2 q
  | _ => -1

/-- The **mantissa** `m` of that decomposition; a datum without one is its own mantissa. -/
def mantissa : Datum → Datum
  | finite negative q => finite negative (if q = 0 then 0 else q / pow2 (floorLog2 q))
  | x => x

/-- The text of a datum: the fewest digits that read back. -/
def text (fmt : Format) : Datum → String
  | nan => "nan"
  | infinite negative => if negative then "-inf" else "inf"
  | finite negative q => fmt.shortestText negative q

end Datum

end Elementary
