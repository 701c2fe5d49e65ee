import Elementary.BigFloat.Ball

/-!
# Series kernels

The elementary functions rest on a few power series, summed on integers that count units of
`2 ^ -w`. Every kernel is given an argument that is at most one in magnitude, and its result is
within `4 * w` units of the function value.

## Main definitions

* `Kernel.exponential`, `Kernel.sine`, `Kernel.cosine`, `Kernel.arctangent`,
  `Kernel.inverseHyperbolicTangent`: the series.
* `Kernel.pi`, `Kernel.ln2`: the constants, as multiples of `2 ^ -w`.
-/

namespace Elementary.Kernel

/-- The number one, as a multiple of `2 ^ -w`. -/
def one (w : Nat) : Int := Int.pow 2 w

/-- The product of two multiples of `2 ^ -w`. -/
def mulFixed (w : Nat) (a b : Int) : Int := (a * b) >>> w

/-- The sum of `t`, `t r / n`, `t r² / (n (n + 1))`, …, until the terms vanish. -/
def exponentialTail (w : Nat) (r : Int) : (fuel : Nat) → (n : Nat) → (t total : Int) → Int
  | 0, _, _, total => total
  | fuel + 1, n, t, total =>
    if t = 0 ∨ t = -1 then total
    else exponentialTail w r fuel (n + 1) (mulFixed w t r / (n : Int)) (total + t)

/-- The **exponential** of `r * 2 ^ -w`: the argument is halved a few times, and the sum of the
series squared as often. -/
def exponential (w : Nat) (r : Int) : Int :=
  let halvings := BinaryScale.sqrt w / 2
  let v := w + 2 * halvings + 16
  let start := (r <<< (v - w)) >>> halvings
  let sum := exponentialTail v start (v + 2) 1 (one v) 0
  (Nat.repeat (fun s => mulFixed v s s) halvings sum) >>> (v - w)

/-- The alternating sum of `t`, `t s / (n (n + 1))`, … with `s` the square of the argument. -/
def circularTail (w : Nat) (s : Int) : (fuel : Nat) → (n : Nat) → (t total : Int) → Int
  | 0, _, _, total => total
  | fuel + 1, n, t, total =>
    if t = 0 ∨ t = -1 then total
    else circularTail w s fuel (n + 2) (-(mulFixed w t s / ((n * (n + 1) : Nat) : Int)))
      (total + t)

/-- The **sine** of `r * 2 ^ -w`. -/
def sine (w : Nat) (r : Int) : Int := circularTail w (mulFixed w r r) (w + 2) 2 r 0

/-- The **cosine** of `r * 2 ^ -w`. -/
def cosine (w : Nat) (r : Int) : Int := circularTail w (mulFixed w r r) (w + 2) 1 (one w) 0

/-- The sum of `t / n`, `t s / (n + 2)`, …. -/
def oddTail (w : Nat) (s : Int) : (fuel : Nat) → (n : Nat) → (t total : Int) → Int
  | 0, _, _, total => total
  | fuel + 1, n, t, total =>
    if t = 0 ∨ t = -1 then total
    else oddTail w s fuel (n + 2) (mulFixed w t s) (total + t / (n : Int))

/-- One halving of an angle: the tangent of half the angle whose tangent is `t * 2 ^ -w`. -/
def halfTangent (w : Nat) (t : Int) : Int :=
  let root : Int := BinaryScale.sqrt (Nat.pow 2 (2 * w) + t.natAbs * t.natAbs)
  (t <<< w) / (one w + root)

/-- The **arctangent** of `t * 2 ^ -w`: the angle is halved four times, then summed. -/
def arctangent (w : Nat) (t : Int) : Int :=
  let v := w + 24
  let small := Nat.repeat (halfTangent v) 4 (t <<< (v - w))
  oddTail v (-(mulFixed v small small)) (v + 2) 1 small 0 >>> (v - w - 4)

/-- The **inverse hyperbolic tangent** of `t * 2 ^ -w`, a small argument. -/
def inverseHyperbolicTangent (w : Nat) (t : Int) : Int :=
  oddTail w (mulFixed w t t) (w + 2) 1 t 0

/-- The sum of `t / n ± t / (n q²) ± …`: the arctangent (with alternating signs) or the inverse
hyperbolic tangent of `1 / q`. -/
def reciprocalTail (alternate : Bool) (square : Int) :
    (fuel : Nat) → (n : Nat) → (t total : Int) → Int
  | 0, _, _, total => total
  | fuel + 1, n, t, total =>
    if t.natAbs ≤ 1 then total
    else
      let next := t / square
      reciprocalTail alternate square fuel (n + 2) (if alternate then -next else next)
        (total + t / (n : Int))

/-- The arctangent of `1 / q`. -/
def arctangentOfReciprocal (w : Nat) (q : Int) : Int :=
  reciprocalTail true (q * q) (w + 2) 1 (one w / q) 0

/-- The inverse hyperbolic tangent of `1 / q`. -/
def inverseHyperbolicTangentOfReciprocal (w : Nat) (q : Int) : Int :=
  reciprocalTail false (q * q) (w + 2) 1 (one w / q) 0

/-- The ratio of a circle to its diameter, summed afresh by Machin's formula. -/
def sumPi (w : Nat) : Int :=
  let v := w + 32
  (16 * arctangentOfReciprocal v 5 - 4 * arctangentOfReciprocal v 239) >>> (32 : Nat)

/-- The natural logarithm of two, summed afresh. -/
def sumLn2 (w : Nat) : Int :=
  let v := w + 32
  (18 * inverseHyperbolicTangentOfReciprocal v 26
    - 2 * inverseHyperbolicTangentOfReciprocal v 4801
    + 8 * inverseHyperbolicTangentOfReciprocal v 8749) >>> (32 : Nat)

/-- The natural logarithm of ten, summed afresh. -/
def sumLn10 (w : Nat) : Int :=
  let v := w + 32
  (46 * inverseHyperbolicTangentOfReciprocal v 31
    + 34 * inverseHyperbolicTangentOfReciprocal v 49
    + 20 * inverseHyperbolicTangentOfReciprocal v 161) >>> (32 : Nat)

/-- The precision to which the constants are kept. -/
def keptBits : Nat := 2048

/-- The kept digits of the three constants. -/
def keptPi : Int := sumPi keptBits

@[inherit_doc keptPi]
def keptLn2 : Int := sumLn2 keptBits

@[inherit_doc keptPi]
def keptLn10 : Int := sumLn10 keptBits

/-- A constant at precision `w`: from its kept digits when they suffice. -/
def constantAt (kept : Int) (afresh : Nat → Int) (w : Nat) : Int :=
  if w ≤ keptBits then kept >>> (keptBits - w) else afresh w

/-- The **ratio of a circle to its diameter**, in units of `2 ^ -w`. -/
def pi (w : Nat) : Int := constantAt keptPi sumPi w

/-- The **natural logarithm of two**, in units of `2 ^ -w`. -/
def ln2 (w : Nat) : Int := constantAt keptLn2 sumLn2 w

/-- The **natural logarithm of ten**, in units of `2 ^ -w`. -/
def ln10 (w : Nat) : Int := constantAt keptLn10 sumLn10 w

end Elementary.Kernel
