import Elementary.BigFloat.Basic

/-!
# Balls

A ball is a real number known up to a radius: centre and radius are integer multiples of one power
of two. The elementary functions are computed on balls at a chosen working precision, and a result
is rounded only when every number of its ball rounds alike; otherwise the precision is raised.

## Main definitions

* `Ball`: centre, radius and scale.
* `Ball.add`, `mul`, `div`, `sqrt`: the operations, whose radius covers their own rounding.
* `Ball.rounded?`: the common rounding of the numbers of a ball, if they have one.
* `roundedBy`: a number given by balls of growing precision, rounded once.
-/

namespace Elementary

/-- A **ball**: the real numbers within `radius * 2 ^ exponent` of `center * 2 ^ exponent`. -/
structure Ball where
  center : Int
  radius : Nat
  exponent : Int

namespace Ball

/-- The ball that holds one integer. -/
def ofInt (n : Int) : Ball := ⟨n, 0, 0⟩

/-- The ball that holds one dyadic. -/
def ofDyadic (x : Dyadic) : Ball :=
  let (n, e) := BigFloat.parts x
  ⟨n, 0, e⟩

/-- The exponent just above the leading bit of the centre or of the radius. -/
def top (b : Ball) : Int := b.exponent + bitLength (Nat.max b.center.natAbs b.radius)

/-- The same ball, or one around it, on the scale `2 ^ e`. -/
def onScale (b : Ball) (e : Int) : Ball :=
  if e ≤ b.exponent then
    let k := (b.exponent - e).toNat
    ⟨b.center <<< k, b.radius <<< k, e⟩
  else
    let k := (e - b.exponent).toNat
    ⟨b.center >>> k, (b.radius >>> k) + 2, e⟩

/-- A ball around the given one whose centre has about `bits` bits. -/
def trim (bits : Nat) (b : Ball) : Ball :=
  let e := b.top - bits
  if e ≤ b.exponent then b else b.onScale e

/-- The ball scaled by a power of two. -/
def scale (b : Ball) (k : Int) : Ball := { b with exponent := b.exponent + k }

/-- The negated ball. -/
def neg (b : Ball) : Ball := { b with center := -b.center }

/-- The **sum** of two balls at a working precision. -/
def add (bits : Nat) (a b : Ball) : Ball :=
  let e := max a.top b.top - bits
  let x := a.onScale (max e (min a.exponent b.exponent))
  let y := b.onScale (max e (min a.exponent b.exponent))
  ⟨x.center + y.center, x.radius + y.radius, x.exponent⟩

/-- The **difference** of two balls at a working precision. -/
def sub (bits : Nat) (a b : Ball) : Ball := add bits a b.neg

/-- The **product** of two balls at a working precision. -/
def mul (bits : Nat) (a b : Ball) : Ball :=
  trim bits ⟨a.center * b.center,
    a.center.natAbs * b.radius + b.center.natAbs * a.radius + a.radius * b.radius,
    a.exponent + b.exponent⟩

/-- The **quotient** of two balls at a working precision; a divisor that may be zero makes the
radius so large that nothing is known. -/
def div (bits : Nat) (a b : Ball) : Ball :=
  let low := b.center.natAbs - b.radius
  if low = 0 then ⟨0, 1 <<< (2 * bits), 0⟩
  else
    let shift := bits + bitLength b.center.natAbs - bitLength a.center.natAbs + 2
    let numerator := a.center <<< shift
    let quotient := numerator / b.center
    -- the error of the dividend, then the error of the divisor on the quotient
    let radius := (a.radius <<< shift) / low + (quotient.natAbs + 1) * b.radius / low + 3
    ⟨quotient, radius, a.exponent - b.exponent - shift⟩

/-- The **square root** of a ball of positive numbers at a working precision. -/
def sqrt (bits : Nat) (a : Ball) : Ball :=
  if a.center ≤ a.radius then ⟨0, 1 <<< (2 * bits), 0⟩
  else
    let length := bitLength a.center.natAbs
    let raise := 2 * bits + 4 - length
    let raise := raise + if (a.exponent - raise) % 2 = 0 then 0 else 1
    let root := BinaryScale.sqrt (a.center.natAbs <<< raise)
    ⟨root, (a.radius <<< raise) / root + 2, (a.exponent - raise) / 2⟩

/-- The ball with its radius enlarged by `n` units. -/
def widen (b : Ball) (n : Nat) : Ball := { b with radius := b.radius + n }

/-- The dyadic to which **every number of the ball rounds** at `bits` bits, if there is one. -/
def rounded? (bits : Nat) (b : Ball) : Option Dyadic :=
  let low := BinaryScale.round bits (b.center - b.radius) b.exponent
  let high := BinaryScale.round bits (b.center + b.radius) b.exponent
  if low = high then some low else none

end Ball

/-- The number that `enclose` gives at every working precision, rounded to `bits` bits. The
working precision is raised by what was missing, and at least doubled when nothing was known,
until the balls decide; `fuel` bounds the attempts. -/
def roundedBy (bits : Nat) (enclose : Nat → Ball) : (fuel working : Nat) → BigFloat
  | 0, working => .finite (BinaryScale.round bits (enclose working).center
      (enclose working).exponent)
  | fuel + 1, working =>
    let ball := enclose working
    match ball.rounded? bits with
    | some x => .finite x
    | none =>
      let known := bitLength ball.center.natAbs - bitLength ball.radius
      let raised := if known = 0 then 2 * working else working + (bits + 32 - known) + 32
      roundedBy bits enclose fuel raised

/-- A function value **rounded once**, from enclosures of growing precision. -/
def correctlyRounded (bits : Nat) (enclose : Nat → Ball) : BigFloat :=
  roundedBy bits enclose 24 (bits + 32)

end Elementary
