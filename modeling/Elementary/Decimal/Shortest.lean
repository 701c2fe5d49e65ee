import Elementary.Decimal.Basic
import Elementary.Format.Rounding

/-!
# Shortest decimal text of a binary number

A finite number of a binary format is written with the fewest significant digits that read back as
the same number; of the candidates with that many digits the nearest is taken. Numbers from `1e16`
on and below `1e-4` are written with an exponent.

## Main definitions

* `Decimal.shortest`: the fewest digits that read back.
* `Format.shortestText`: the text of a signed number.
-/

namespace Elementary

namespace Decimal

/-- The **interval of numbers that round** to the positive number `q` of a format: its two ends,
and whether they belong to it. Below a power of two the gap is half as wide. -/
def roundingInterval (fmt : Format) (q : Rat) : Rat × Rat × Bool :=
  let quantum := pow2 (fmt.quantumExponent q)
  let significand := (q / quantum).num
  let narrow := significand = Nat.pow 2 fmt.fieldSize ∧ fmt.minNormalExponent < floorLog2 q
  let below := if narrow then quantum / 4 else quantum / 2
  (q - below, q + quantum / 2, significand % 2 = 0)

/-- Whether a candidate lies in the interval. -/
def inInterval (interval : Rat × Rat × Bool) (q : Rat) : Bool :=
  let (low, high, closed) := interval
  if closed then low ≤ q && q ≤ high else low < q && q < high

/-- The first grid, from `count` significant digits on, on which a neighbour of `q` lies in the
interval, and the nearer such neighbour; of two equally near ones that with the even last digit.
Seventeen digits are enough for every format; behind the last grid the neighbour above is taken. -/
def searchGrids (interval : Rat × Rat × Bool) (q : Rat) (e : Int) :
    (fuel count : Nat) → Decimal
  | 0, count =>
    let scale := e - count + 1
    ofScaled ((q / pow10 scale).floor.toNat + 1) scale
  | fuel + 1, count =>
    let scale := e - count + 1
    let unit := pow10 scale
    let below := (q / unit).floor.toNat
    let lowHit := below ≠ 0 && inInterval interval (below * unit)
    let highHit := inInterval interval ((below + 1 : Nat) * unit)
    let toHigh : Rat := (below + 1 : Nat) * unit - q
    let toLow := q - below * unit
    let highNearer := toHigh < toLow || (toHigh = toLow && below % 2 = 1)
    if lowHit && (!highHit || !highNearer) then ofScaled below scale
    else if highHit then ofScaled (below + 1) scale
    else searchGrids interval q e fuel (count + 1)

/-- The **fewest digits that read back** as the positive number `q` of a format. -/
def shortest (fmt : Format) (q : Rat) : Decimal :=
  (searchGrids (roundingInterval fmt q) q (floorLog10 q) 20 1).stripZeros

end Decimal

/-- The **shortest text** of a finite number given by sign and magnitude: positional from `1e-4`
up to `1e16`, with an exponent of at least two digits outside. -/
def Format.shortestText (fmt : Format) (negative : Bool) (q : Rat) : String :=
  let sign := if negative then "-" else ""
  if q = 0 then sign ++ "0.0"
  else
    let d := Decimal.shortest fmt q
    sign ++ if -4 ≤ d.exponent && d.exponent < 16 then d.renderPositional
      else d.renderScientific false 2

end Elementary
