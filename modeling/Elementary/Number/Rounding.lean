/-!
# Powers of two and rounding of exact numbers

Exact numbers are rationals. This module holds the three facts about them on which every format
rests: the powers of two, the binade in which a number lies, and rounding to an integer.

## Main definitions

* `pow2`: the power of two with a given, possibly negative, exponent.
* `floorLog2`: the exponent of the binade in which a positive number lies.
* `roundHalfEven`: the nearest integer, a half going to the even neighbour.
* `truncateToBits`: a number cut to its leading bits.
-/

namespace Elementary

/-- The exact **power of two** with exponent `e`. -/
def pow2 (e : Int) : Rat := (2 : Rat) ^ e

/-- The number of binary digits of `n`, none for zero. -/
def bitLength (n : Nat) : Nat := if n = 0 then 0 else n.log2 + 1

/-- The **binary exponent** of a positive number: the largest `e` with `2 ^ e ≤ q`. The lengths of
numerator and denominator give it up to one, and one comparison decides. -/
def floorLog2 (q : Rat) : Int :=
  let e : Int := (bitLength q.num.natAbs : Int) - (bitLength q.den : Int)
  if q < pow2 e then e - 1 else e

/-- The **nearest integer**; a number halfway between two integers goes to the even one. -/
def roundHalfEven (q : Rat) : Int :=
  let whole := q.floor
  let rest := q - whole
  if 1 / 2 < rest ∨ (rest = 1 / 2 ∧ whole % 2 = 1) then whole + 1 else whole

/-- The integer next to `q` in the direction of zero. -/
def truncate (q : Rat) : Int := if q < 0 then -(-q).floor else q.floor

/-- A number **cut to its `bits` leading bits**: the largest multiple, not above `q`, of the unit
of the last of them. -/
def truncateToBits (q : Rat) (bits : Int) : Rat :=
  let quantum := pow2 (floorLog2 q.abs - bits + 1)
  ((q / quantum).floor : Rat) * quantum

end Elementary
