import Elementary.Evaluation.Reference
import Elementary.Fit.Basic
import Elementary.Fit.Extrema
import Elementary.Fit.Levelling
import Elementary.Log.Basic

/-!
# The exchange

A fit is found by exchange. The error is levelled out on a reference, its extrema become the next
reference, and the exchange ends when the largest error is no larger than the levelled one, within
a tolerance, or is no more than noise. A target that is odd or even is fitted on the side of zero
where its domain reaches farther.

## Main definitions

* `Fit.Problem`: a request brought to its working precision.
* `Fit.Problem.exchange`: the exchange.
* `Fit.Request.solve`: the fit of a request.
-/

namespace Elementary.Fit

/-- The decimal digits by which the working precision exceeds the requested one. -/
def guardDigits : Int := 20

/-- The largest number of exchanges. -/
def maxExchanges : Nat := 60

/-- By how much the largest error may exceed the levelled one, relative to itself. -/
def tolerance : BigFloat := .nearest 53 (1 / 10000)

/-- A **request brought to its working precision**: the interval on which it is fitted, and the
target on a grid of it. -/
structure Problem where
  request : Request
  low : BigFloat
  high : BigFloat
  grid : Array (BigFloat × BigFloat)

/-- The working precision of a request in digits. -/
def Request.workingDigits (r : Request) : Int := r.digits + guardDigits

/-- The working precision of a request in bits. -/
def Request.bits (r : Request) : Nat := workingBits r.workingDigits

/-- The arithmetic of a request. -/
def Request.scalars (r : Request) : Scalars BigFloat := bigScalars r.bits

/-- How a place is shown. -/
def Request.placeText (r : Request) (x : BigFloat) : String := x.text r.workingDigits.toNat

/-- The **target at a place**, which has to be a finite real number. -/
def Request.targetAt (r : Request) (x : BigFloat) : Except Failure BigFloat :=
  match r.target with
  | .number _ => .error (.missingPart "the target is no expression")
  | .expr e =>
    match (Reference.arithmetic r.workingDigits).evaluateWith [] e
        [(r.argument, .number (.real x))] with
    | .ok (.number (.real (.finite y))) => .ok (.finite y)
    | .ok _ => .error (.approximation ("target is not finite at " ++ r.placeText x))
    | .error f =>
      if f.isArithmetic then
        .error (.approximation
          ("target can not be evaluated at " ++ r.placeText x ++ " (" ++ f.message ++ ")"))
      else .error f

/-- A computation for a request; a fit that fails is reported with the request. -/
def Request.traced {α : Type} (r : Request) : Except Failure α → Traced α
  | .ok a => pure a
  | .error (.approximation why) =>
    Traced.abort ("approximation of " ++ r.description ++ " failed: " ++ why) (.approximation why)
  | .error f => Traced.reported (.error f)

/-- The interval on which a target is fitted. For a symmetric target that is the **part on the
positive side**, as far as the domain reaches on either. -/
def foldedInterval (bits : Nat) (parity : Parity) (low high : BigFloat) : BigFloat × BigFloat :=
  let neg (x : BigFloat) := (x.round bits).negate
  match parity with
  | .none => (low, high)
  | .odd | .even =>
    if low.le .zero && BigFloat.zero.le high then (.zero, (neg low).max high)
    else if high.lt .zero then (neg high, neg low)
    else (low, high)

/-- The cosine of a rational multiple of a half-turn, the multiple being rounded first. -/
def cosineOfTurn (bits : Nat) (numerator denominator : Nat) : BigFloat :=
  match BigFloat.div bits (.ofInt numerator) (.ofInt denominator) with
  | .finite x =>
    let doubled := x + x
    if doubled = Dyadic.ofInt 1 then .zero
    else if doubled = Dyadic.ofInt 0 then .one
    else if doubled = Dyadic.ofInt 2 then .ofInt (-1)
    else correctlyRounded bits (Enclosure.cosineOfPi · x)
  | _ => .nan

/-- The point of an interval at the cosine of a multiple of a half-turn. -/
def chebyshevPoint (S : Scalars BigFloat) (bits : Nat) (low high : BigFloat)
    (numerator denominator : Nat) : BigFloat :=
  let mid := S.div (S.add low high) (S.ofInt 2)
  let half := S.div (S.sub high low) (S.ofInt 2)
  S.sub mid (S.mul half (cosineOfTurn bits numerator denominator))

/-- The number of points of the grid for a number of terms. -/
def gridSize (terms : Nat) : Nat := max (16 * (terms + 1)) 64

namespace Problem

variable (p : Problem)

/-- The number of terms. -/
def terms : Nat := p.request.terms.toNat

/-- The degrees of the fit. -/
def degrees : List Int := p.request.parity.degrees p.terms

/-- The **first reference**: the extrema of the Chebyshev polynomial with as many alternations as
the fit has. -/
def firstReference : List BigFloat :=
  let bits := p.request.bits
  let S := p.request.scalars
  let m := p.terms
  let count := m + 1
  let symmetric (denominator : Nat) :=
    (List.range count).map fun k => S.mul p.high (cosineOfTurn bits k denominator)
  let points :=
    match p.low.isZero, p.request.parity with
    | true, .odd => symmetric (2 * m + 1)
    | true, .even => symmetric (2 * m)
    | _, _ => (List.range count).map fun k => chebyshevPoint S bits p.low p.high k m
  points.mergeSort BigFloat.le

/-- The bits by which linear systems are solved more precisely. -/
def solvingBits : Nat := p.request.bits + 10

/-- The coefficients and the level that **level out the error** on a reference. -/
def level (reference : List BigFloat) : Except Failure (List BigFloat × BigFloat) := do
  let targets ← reference.mapM fun x => return (x, ← p.request.targetAt x)
  let bits := p.solvingBits
  let rows := levelledSystem p.request.scalars p.degrees targets
  let epsilon := BigFloat.scale .one (1 - (bits : Int))
  match Matrix.solve? (bigScalars bits) epsilon rows with
  | some solution => return (solution.dropLast, solution.getLast?.getD .zero)
  | none =>
    let shown := reference.filterMap fun x => x.toRat?.map fun q =>
      (Datum.ofRat Precision.double.format false q).text Precision.double.format
    .error (.approximation
      ("singular system for reference [" ++ ", ".intercalate shown ++ "]"))

/-- The error of some coefficients at a place. -/
def errorAt (coefficients : List BigFloat) (x : BigFloat) : Except Failure BigFloat :=
  let S := p.request.scalars
  return S.sub (← p.request.targetAt x) (valueAt S p.degrees coefficients x)

/-- The golden ratio's inverse at the working precision. -/
def goldenRatio : BigFloat :=
  let S := p.request.scalars
  S.div (S.sub (BigFloat.sqrt p.request.bits (.ofInt 5)) (S.ofInt 1)) (S.ofInt 2)

/-- The extrema of the error of some coefficients. -/
def extremaOf (coefficients : List BigFloat) : Except Failure (List (Peak BigFloat)) :=
  let S := p.request.scalars
  extrema S p.goldenRatio (p.errorAt coefficients)
    (p.grid.map fun (x, target) => ⟨x, S.sub target (valueAt S p.degrees coefficients x)⟩)

/-- The error that counts as **noise**: as small against the target as the digits asked for. -/
def noise : BigFloat :=
  let S := p.request.scalars
  let scale := p.grid.foldl (fun m (_, t) => S.max m (S.abs t)) (S.ofInt 1)
  S.mul scale (S.div (S.ofInt 1) (S.pow (S.ofInt 10) p.request.digits.toNat))

/-- The largest error among some extrema. -/
def largestError (peaks : List (Peak BigFloat)) : BigFloat :=
  peaks.foldl (fun m peak => p.request.scalars.max m (p.request.scalars.abs peak.error)) .zero

/-- The result with some coefficients. -/
def result (coefficients : List BigFloat) (largest level : BigFloat) (iterations : Nat) : Result :=
  let digits := p.request.workingDigits.toNat
  { request := p.request
    polynomial := .ofList (p.degrees.zip (coefficients.map fun c => .big c digits))
    error := .big largest digits
    levelled := .big level digits
    iterations := iterations }

/-- Whether an exchange has **converged**. -/
def converged (largest level : BigFloat) : Bool :=
  let S := p.request.scalars
  largest.le p.noise || (S.sub largest level).le (S.mul tolerance largest)

/-- The **exchange** from a reference on; `left` is the number of exchanges that may be made. -/
def exchange : (left : Nat) → (done : Nat) → (reference : List BigFloat) → Traced Result
  | 0, done, _ =>
    p.request.traced
      (.error (.approximation ("no convergence after " ++ toString done ++ " iterations")))
  | left + 1, done, reference => do
    let (coefficients, level) ← p.request.traced (p.level reference)
    let peaks ← p.request.traced (p.extremaOf coefficients)
    let largest := p.largestError peaks
    let level := p.request.scalars.abs level
    Traced.report (.info "approx") ("iteration " ++ toString done ++ ": max error " ++
      largest.text 6 ++ ", levelled error " ++ level.text 6)
    if p.converged largest level then
      return p.result coefficients largest level (done + 1)
    else if peaks.length < p.terms + 1 then
      p.request.traced (.error (.approximation
        ("only " ++ toString peaks.length ++ " alternation(s) found, " ++
          toString (p.terms + 1) ++ " required")))
    else
      exchange left (done + 1) ((trim p.request.scalars (p.terms + 1) peaks).map Peak.place)

end Problem

namespace Request

/-- The problem of a request. -/
def problem (r : Request) (low high : Rat) : Traced Problem := do
  let bits := r.bits
  let (low, high) := foldedInterval bits r.parity (.ofRat bits low) (.ofRat bits high)
  let size := gridSize r.terms.toNat
  let grid ← (List.range size).mapM fun k => do
    let x := chebyshevPoint r.scalars bits low high k (size - 1)
    return (x, ← r.traced (r.targetAt x))
  return ⟨r, low, high, grid.toArray⟩

/-- The **fit of a request**, or why there is none. -/
def solve (r : Request) : Traced Result := do
  if r.terms < 1 then
    Traced.abort ("approximation requires at least one term, " ++ toString r.terms ++ " requested")
      (.approximation "invalid number of terms")
  if r.digits < 1 then
    Traced.abort ("invalid working precision " ++ toString r.digits)
      (.approximation "invalid working precision")
  let low ← Traced.ofExcept r.low.toRat
  let high ← Traced.ofExcept r.high.toRat
  if high ≤ low then
    Traced.abort ("empty approximation domain [" ++ r.low.text ++ ", " ++ r.high.text ++ "]")
      (.approximation "empty domain")
  Traced.report (.info "approx") ("approximating " ++ r.description)
  let p ← r.problem low high
  let fit ← p.exchange maxExchanges 0 p.firstReference
  let shown := match fit.error with | .big x _ => x.text 6 | n => n.text
  Traced.report (.info "approx")
    ("approximation error " ++ shown ++ " after " ++ toString fit.iterations ++ " iteration(s)")
  return fit

end Request

end Elementary.Fit
