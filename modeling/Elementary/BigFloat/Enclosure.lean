import Elementary.BigFloat.Kernel

/-!
# Enclosures of the elementary functions

For each elementary function this module gives a ball around its value at a dyadic argument, at a
chosen working precision. The argument is first reduced to the range of a series: by multiples of
`ln 2` for the exponential, by powers of two for the logarithm, by quarter turns for the circular
functions.

## Main definitions

* `Enclosure.exp`, `Enclosure.log`, `Enclosure.sine`, `Enclosure.cosine`, `Enclosure.arctangent`
  and the functions that are combinations of these.
* `Enclosure.pi`, `Enclosure.ln2`, `Enclosure.ln10`.
-/

namespace Elementary.Enclosure

/-- An integer count of `2 ^ -w` as a ball whose radius covers the error of a kernel. -/
def ofKernel (w : Nat) (n : Int) : Ball := ⟨n, 4 * w, -(w : Int)⟩

/-- The ratio of a circle to its diameter. -/
def pi (w : Nat) : Ball := ⟨Kernel.pi w, 2, -(w : Int)⟩

/-- The natural logarithm of two. -/
def ln2 (w : Nat) : Ball := ⟨Kernel.ln2 w, 2, -(w : Int)⟩

/-- The natural logarithm of ten. -/
def ln10 (w : Nat) : Ball := ⟨Kernel.ln10 w, 2, -(w : Int)⟩

/-- The integral bits of a ball: those above the point. -/
def integralBits (b : Ball) : Nat := b.top.toNat

/-- The quotient of two integers, to nearest. -/
def nearestQuotient (a : Int) (b : Int) : Int := (2 * a + b) / (2 * b)

/-- The **exponential** of a ball: the argument is `k ln 2 + r`, the value `2 ^ k exp r`. -/
def expBall (w : Nat) (x : Ball) : Ball :=
  let v := w + integralBits x + 8
  let a := x.onScale (-(v : Int))
  let k := nearestQuotient a.center (Kernel.ln2 v)
  let r := a.center - k * Kernel.ln2 v
  -- the exponential of the reduced argument is below two
  ⟨Kernel.exponential v r, 4 * v + 4 * (a.radius + 2 * k.natAbs + 2), k - v⟩

/-- The exponential of a dyadic. -/
def exp (w : Nat) (x : Dyadic) : Ball := expBall w (Ball.ofDyadic x)

/-- The power of two whose exponent is a dyadic. -/
def exp2 (w : Nat) (x : Dyadic) : Ball :=
  let k := BigFloat.floorDyadic x
  (expBall w (Ball.mul (w + 8) (Ball.ofDyadic (x - Dyadic.ofInt k)) (ln2 (w + 8)))).scale k

/-- The natural logarithm of the quotient of two positive integers times `2 ^ e`: the quotient is
brought near one by a power of two, and its logarithm is `2 artanh ((n - d) / (n + d))`. -/
def logQuotient (w : Nat) (n d : Nat) (e : Int) : Ball :=
  let gap : Int := (bitLength n : Int) - bitLength d
  let n' := if gap < 0 then n <<< (-gap).toNat else n
  let d' := if gap < 0 then d else d <<< gap.toNat
  -- now `1 / 2 < n' / d' < 2`; the middle of that range is near the square root of two
  let (n', k) := if 7 * d' < 5 * n' then (n', gap + 1) else
    if 7 * n' < 5 * d' then (2 * n', gap - 1) else (n', gap)
  let d' := if k = gap + 1 then 2 * d' else d'
  let k := k + e
  let v := w + bitLength k.natAbs + 8
  let t : Int := (((n' : Int) - d') <<< v) / ((n' : Int) + d')
  let series := 2 * Kernel.inverseHyperbolicTangent v t
  ⟨series + k * Kernel.ln2 v, 8 * v + 8 + 2 * k.natAbs, -(v : Int)⟩

/-- The **natural logarithm** of a positive ball. -/
def logBall (w : Nat) (x : Ball) : Ball :=
  let base := logQuotient w x.center.natAbs 1 x.exponent
  -- the relative radius of the argument is the absolute radius of the logarithm
  if x.radius = 0 then base
  else
    let extra := (2 * x.radius <<< base.exponent.natAbs) / x.center.natAbs + 1
    base.widen extra

/-- The natural logarithm of a positive dyadic. -/
def log (w : Nat) (x : Dyadic) : Ball := logBall w (Ball.ofDyadic x)

/-- The logarithm to base two of a positive dyadic. -/
def log2 (w : Nat) (x : Dyadic) : Ball := Ball.div (w + 8) (log (w + 8) x) (ln2 (w + 8))

/-- The logarithm to base ten of a positive dyadic. -/
def log10 (w : Nat) (x : Dyadic) : Ball := Ball.div (w + 8) (log (w + 8) x) (ln10 (w + 8))

/-- The reduction of an angle by quarter turns: how many there are, and what is left, as a count
of `2 ^ -v`. -/
def quarterTurns (v : Nat) (angle : Int) : Int × Int :=
  let quarter := Kernel.pi (v + 1)
  -- `pi / 2` in units of `2 ^ -v` is `pi` in units of `2 ^ -(v + 1)` divided by four
  let k := nearestQuotient (4 * angle) quarter
  (k, (4 * angle - k * quarter) >>> (2 : Nat))

/-- Sine (`shift = 0`) or cosine (`shift = 1`) of an angle: a quarter turn swaps the two. -/
def circular (shift : Int) (w : Nat) (x : Ball) : Ball :=
  let v := w + integralBits x + 8
  let a := x.onScale (-(v : Int))
  let (k, r) := quarterTurns v a.center
  let quadrant := (k + shift) % 4
  let value :=
    if quadrant = 0 then Kernel.sine v r
    else if quadrant = 1 then Kernel.cosine v r
    else if quadrant = 2 then -Kernel.sine v r
    else -Kernel.cosine v r
  ⟨value, 4 * v + a.radius + 2 * k.natAbs + 4, -(v : Int)⟩

/-- The **sine** of a dyadic. -/
def sine (w : Nat) (x : Dyadic) : Ball := circular 0 w (Ball.ofDyadic x)

/-- The **cosine** of a dyadic. -/
def cosine (w : Nat) (x : Dyadic) : Ball := circular 1 w (Ball.ofDyadic x)

/-- The tangent of a dyadic. -/
def tangent (w : Nat) (x : Dyadic) : Ball := Ball.div w (sine w x) (cosine w x)

/-- The **cosine of a multiple of pi**: whole turns are taken off before the multiplication. -/
def cosineOfPi (w : Nat) (x : Dyadic) : Ball :=
  let turns := BigFloat.floorDyadic (x * Dyadic.ofIntWithPrec 1 1)
  let rest := x - Dyadic.ofInt (2 * turns)
  circular 1 w (Ball.mul (w + 8) (Ball.ofDyadic rest) (pi (w + 8)))

/-- The **arctangent** of a ball: an argument above one is replaced by its reciprocal. -/
def arctangentBall (w : Nat) (x : Ball) : Ball :=
  let v := w + 8
  if x.top ≤ 0 then
    let a := x.onScale (-(v : Int))
    ⟨Kernel.arctangent v a.center, 4 * v + a.radius, -(v : Int)⟩
  else
    let a := (Ball.div v (Ball.ofInt 1) x).onScale (-(v : Int))
    let inner : Ball := ⟨Kernel.arctangent v a.center, 4 * v + a.radius, -(v : Int)⟩
    let half := (pi v).scale (-1)
    Ball.sub v (if x.center < 0 then half.neg else half) inner

/-- The arctangent of a dyadic. -/
def arctangent (w : Nat) (x : Dyadic) : Ball := arctangentBall w (Ball.ofDyadic x)

/-- The square root of `1 - x * x`. -/
def cofactor (w : Nat) (x : Dyadic) : Ball := Ball.sqrt w (Ball.ofDyadic (Dyadic.ofInt 1 - x * x))

/-- The **arcsine** of a dyadic strictly between minus one and one. -/
def arcsine (w : Nat) (x : Dyadic) : Ball :=
  arctangentBall w (Ball.div (w + 8) (Ball.ofDyadic x) (cofactor (w + 8) x))

/-- The **arccosine** of a dyadic strictly between minus one and one. -/
def arccosine (w : Nat) (x : Dyadic) : Ball :=
  if BigFloat.signOf x = 0 then (pi w).scale (-1)
  else
    let angle := arctangentBall w (Ball.div (w + 8) (cofactor (w + 8) x) (Ball.ofDyadic x))
    if BigFloat.signOf x < 0 then Ball.add (w + 8) angle (pi (w + 8)) else angle

/-- The exponential of a dyadic and its reciprocal. -/
def expPair (w : Nat) (x : Dyadic) : Ball × Ball :=
  let e := exp (w + 8) x
  (e, Ball.div (w + 8) (Ball.ofInt 1) e)

/-- The hyperbolic sine of a dyadic. -/
def hyperbolicSine (w : Nat) (x : Dyadic) : Ball :=
  let (e, r) := expPair w x
  (Ball.sub (w + 8) e r).scale (-1)

/-- The hyperbolic cosine of a dyadic. -/
def hyperbolicCosine (w : Nat) (x : Dyadic) : Ball :=
  let (e, r) := expPair w x
  (Ball.add (w + 8) e r).scale (-1)

/-- The hyperbolic tangent of a dyadic. -/
def hyperbolicTangent (w : Nat) (x : Dyadic) : Ball :=
  let (e, r) := expPair w x
  Ball.div (w + 8) (Ball.sub (w + 8) e r) (Ball.add (w + 8) e r)

/-- Half the logarithm of the magnitude of `(1 + x) / (1 - x)`: the **inverse hyperbolic tangent**
inside the unit interval, and its real part outside. -/
def inverseHyperbolicTangent (w : Nat) (x : Dyadic) : Ball :=
  let (n, _) := BigFloat.parts (Dyadic.ofInt 1 + x)
  let (_, e) := BigFloat.parts (Dyadic.ofInt 1 + x)
  let (d, f) := BigFloat.parts (Dyadic.ofInt 1 - x)
  (logQuotient w n.natAbs d.natAbs (e - f)).scale (-1)

/-- The inverse hyperbolic cosine of a dyadic above one. -/
def inverseHyperbolicCosine (w : Nat) (x : Dyadic) : Ball :=
  let root := Ball.sqrt (w + 8) (Ball.ofDyadic (x * x - Dyadic.ofInt 1))
  logBall w (Ball.add (w + 8) (Ball.ofDyadic x) root)

end Elementary.Enclosure
