import Elementary.Family.Hyperbolic
import Elementary.Family.InverseTrigonometric
import Elementary.Family.Root
import Elementary.Family.Trigonometric
import Elementary.Proofs.Evaluation.Symmetry
import Elementary.Proofs.Fit.Solver
import Elementary.Proofs.Polynomial.Scheme

/-!
# Odd and even functions

The sine and the cosine over a period, the tangent, the arctangent, the arcsine, the hyperbolic
functions and the reciprocal have exactly the symmetry of the functions they approximate, whatever
polynomial was fitted. A symmetric scheme is a scheme in the square, the reductions subtract odd
values from odd values, and where a body works with a magnitude the sign is put back at the end.

## Main definitions

* `SymmetricFunction`: the functions, with their generators and bodies.
* `SymmetricFunction.Builds`: a function built from any fit that its generator could have asked for.

## Main results

* `SymmetricFunction.bodyHasSymmetry`: the symmetry of the bodies.
* `SymmetricFunction.call_neg`: the symmetry of the functions.
-/

namespace Elementary

open Expr (HasSymmetry BodyHasSymmetry)
open Setting (variableIn)

/-! ### Schemes -/

namespace Polynomial

variable {symmetries : Symmetries} {p : Polynomial Number} {name : String} {parity : Parity}
  {e power : Expr}

/-- The chain over the powers of one value is one number. -/
theorem hasSymmetry_denseHorner (h : power.HasSymmetry symmetries .same) :
    (p.denseHorner power).HasSymmetry symmetries .even :=
  denseHorner_of_forall (Q := fun scheme => scheme.HasSymmetry symmetries .even)
    (fun _ => .constant _) fun _ _ hscheme => .mulAdd hscheme.same h (.constant _)

/-- A scheme in a variable with **one value** has one value. -/
theorem hasSymmetry_horner_same (h : (Expr.var name).HasSymmetry symmetries .same)
    (hscheme : p.horner name parity = .ok e) : e.HasSymmetry symmetries .even := by
  have hsquare : (Expr.var name * Expr.var name).HasSymmetry symmetries .same :=
    .operation rfl rfl (by simpa using h)
  cases parity with
  | odd =>
    obtain ⟨inner, rfl⟩ := exists_of_horner_odd hscheme
    exact .right .multiplication h (hasSymmetry_denseHorner hsquare)
  | even =>
    obtain ⟨inner, rfl⟩ := exists_of_horner_even hscheme
    exact hasSymmetry_denseHorner hsquare
  | none =>
    cases hscheme
    exact hasSymmetry_denseHorner h

/-- An **odd scheme** in an odd variable is odd. -/
theorem hasSymmetry_horner_odd (h : (Expr.var name).HasSymmetry symmetries .odd)
    (hscheme : p.horner name .odd = .ok e) : e.HasSymmetry symmetries .odd := by
  obtain ⟨inner, rfl⟩ := exists_of_horner_odd hscheme
  exact .product h.opposite (hasSymmetry_denseHorner h.square.same)

/-- An **even scheme** in an odd variable has one value. -/
theorem hasSymmetry_horner_even (h : (Expr.var name).HasSymmetry symmetries .odd)
    (hscheme : p.horner name .even = .ok e) : e.HasSymmetry symmetries .even := by
  obtain ⟨inner, rfl⟩ := exists_of_horner_even hscheme
  exact hasSymmetry_denseHorner h.square.same

end Polynomial

/-! ### Bodies -/

/-- The argument of a function is a number that is not zero. -/
abbrev signedArgument : Symmetries := [("arg", .signed)]

variable {nt : NumberType} {polynomial : Expr}

namespace Trigonometric

/-- What is left of an argument in units is **odd**. -/
theorem bodyHasSymmetry_reduction {unit : BigFloat} {rest : List Expr} {c : Symmetry}
    (h : BodyHasSymmetry [("x", .odd), ("scaled", .odd), ("arg", .signed)] rest c) :
    BodyHasSymmetry signedArgument (reduction nt unit ++ rest) c := by
  refine .assignment (.product (HasSymmetry.variable rfl).odd.opposite (.constant _)) ?_
  refine .assignment (.difference (.variable rfl) (.nearestInteger (.variable rfl))) ?_
  exact h

theorem bodyHasSymmetry_singlePass {c : Symmetry}
    (h : polynomial.HasSymmetry [("x", .odd), ("scaled", .odd), ("arg", .signed)] c) :
    BodyHasSymmetry signedArgument (singlePassBody nt polynomial) c :=
  bodyHasSymmetry_reduction (.result h)

theorem bodyHasSymmetry_tangent
    (h : polynomial.HasSymmetry
      [("recip", .even), ("x", .odd), ("scaled", .odd), ("arg", .signed)] .odd) :
    BodyHasSymmetry signedArgument (tangentBody nt polynomial) .odd := by
  refine bodyHasSymmetry_reduction (.assignment ?_ (.assignment h (.result ?_)))
  · exact .left .division (.constant _)
      (.same (.left .subtraction (.square (.variable rfl)) (.same (.constant _))))
  · exact .product (.opposite (.variable rfl)) (.variable rfl)

end Trigonometric

namespace InverseTrigonometric

/-- An even value with the **sign of the argument** is odd. -/
theorem hasSymmetry_withSign {symmetries : Symmetries} {r : Expr}
    (harg : symmetries.lookup "arg" = some .signed) (hr : r.HasSymmetry symmetries .even) :
    (withSign nt r).HasSymmetry symmetries .odd :=
  .withSign (.variable harg) hr

theorem bodyHasSymmetry_arctangent
    (h : ∀ symmetries : Symmetries, symmetries.lookup "t" = some .even →
      polynomial.HasSymmetry symmetries .even) :
    BodyHasSymmetry signedArgument (arctangentBody nt polynomial) .odd := by
  refine .assignment (.absolute (HasSymmetry.variable rfl).odd) ?_
  refine .assignment (.comparison (.same (.variable rfl)) (.same (.constant _))) ?_
  refine .assignment (.select (.variable rfl)
    (.left .division (.constant _) (.same (.variable rfl))) (.variable rfl)) ?_
  refine .assignment (h _ rfl) ?_
  refine .assignment (.select (.variable rfl)
    (.left .subtraction (.constant _) (.same (.variable rfl))) (.variable rfl)) ?_
  exact .result (hasSymmetry_withSign rfl (.variable rfl))

/-- The square root may be any function. -/
theorem bodyHasSymmetry_arcsine
    (h : ∀ symmetries : Symmetries, symmetries.lookup "t" = some .same →
      polynomial.HasSymmetry symmetries .even) :
    BodyHasSymmetry signedArgument (arcsineBody nt polynomial) .odd := by
  refine .assignment (.absolute (HasSymmetry.variable rfl).odd) ?_
  refine .assignment (.comparison (.same (.variable rfl)) (.same (.constant _))) ?_
  refine .assignment (.select (.variable rfl) (.same (.variable rfl))
    (.call (List.forall_mem_singleton.mpr (.same (.right .multiplication
      (.same (.left .subtraction (.constant _) (.same (.variable rfl)))) (.constant _)))))) ?_
  refine .assignment (h _ rfl) ?_
  refine .assignment (.select (.variable rfl) (.variable rfl) (.left .subtraction (.constant _)
    (.same (.left .multiplication (.constant _) (.same (.variable rfl)))))) ?_
  exact .result (hasSymmetry_withSign rfl (.variable rfl))

end InverseTrigonometric

namespace Hyperbolic

theorem bodyHasSymmetry_sine
    (h : polynomial.HasSymmetry signedArgument .odd) :
    BodyHasSymmetry signedArgument (sineBody nt polynomial) .odd := by
  refine .assignment h ?_
  refine .assignment (.product (.callDifference (.variable rfl)) (.constant _)) ?_
  exact .result (.select (.comparison (.same (.absolute (HasSymmetry.variable rfl).odd))
    (.same (.constant _))) (.variable rfl) (.variable rfl))

theorem bodyHasSymmetry_cosine
    (h : polynomial.HasSymmetry signedArgument .even) :
    BodyHasSymmetry signedArgument (cosineBody nt polynomial) .even := by
  refine .assignment h ?_
  refine .assignment (.right .multiplication (.callSum (.variable rfl)) (.constant _)) ?_
  exact .result (.select (.comparison (.same (.absolute (HasSymmetry.variable rfl).odd))
    (.same (.constant _))) (.variable rfl) (.variable rfl))

theorem bodyHasSymmetry_tangent
    (h : polynomial.HasSymmetry [("ax", .even), ("arg", .signed)] .odd) :
    BodyHasSymmetry signedArgument (tangentBody nt polynomial) .odd := by
  refine .assignment (.absolute (HasSymmetry.variable rfl).odd) ?_
  refine .assignment h ?_
  refine .assignment (.left .subtraction (.constant _) (.same (.left .division (.constant _)
    (.same (.right .addition (.call (List.forall_mem_singleton.mpr
      (.same (.left .multiplication (.constant _) (.same (.variable rfl)))))) (.constant _)))))) ?_
  refine .assignment (.withSign (.variable rfl) (.variable rfl)) ?_
  exact .result (.select (.comparison (.same (.variable rfl)) (.same (.constant _)))
    (.variable rfl) (.variable rfl))

end Hyperbolic

namespace Root

/-- What is known of the variables of a reciprocal from the seed on. -/
def RefinedSymmetries (symmetries : Symmetries) : Prop :=
  symmetries.lookup "y" = some .even ∧ symmetries.lookup "am" = some .even ∧
    symmetries.lookup "m" = some .signed ∧ symmetries.lookup "e" = some .even

theorem bodyHasSymmetry_reciprocal {refinements : Int}
    (h : polynomial.HasSymmetry
      [("am", .even), ("m", .signed), ("e", .even), ("arg", .signed)] .even) :
    BodyHasSymmetry signedArgument (reciprocalBody nt polynomial refinements) .odd := by
  refine .assignment (.exponentExtraction (HasSymmetry.variable rfl).odd) ?_
  refine .assignment (.mantissaExtraction (.variable rfl)) ?_
  refine .assignment (.absolute (HasSymmetry.variable rfl).odd) ?_
  refine .assignment h ?_
  refine BodyHasSymmetry.replicate (c := .even) (P := RefinedSymmetries) ?_ ?_ _
    ⟨rfl, rfl, rfl, rfl⟩
  · rintro symmetries ⟨hy, ham, hm, he⟩
    refine ⟨?_, rfl, ham, hm, he⟩
    exact .left .multiplication (.variable hy) (.same (.left .subtraction (.constant _)
      (.same (.left .multiplication (.variable ham) (.same (.variable hy))))))
  · rintro symmetries ⟨hy, ham, hm, he⟩
    refine .assignment (.withSign (.variable hm) (.variable hy)) (.result ?_)
    have hminus : HasSymmetry (("y", .odd) :: symmetries) (-variableIn nt "e") .same :=
      .operation rfl rfl (List.forall_mem_singleton.mpr (.same (.variable he)))
    exact .product (.opposite (.variable rfl)) (.exponentInsertion hminus)

end Root

/-! ### Functions -/

/-- The generated functions that are **odd or even**. -/
inductive SymmetricFunction where
  | sine
  | cosine
  | tangent
  | arctangent
  | arcsine
  | hyperbolicSine
  | hyperbolicCosine
  | hyperbolicTangent
  | reciprocal
  deriving DecidableEq, Repr

namespace SymmetricFunction

/-- The name of a function. -/
def name : SymmetricFunction → String
  | sine => "sin"
  | cosine => "cos"
  | tangent => "tan"
  | arctangent => "atan"
  | arcsine => "asin"
  | hyperbolicSine => "sinh"
  | hyperbolicCosine => "cosh"
  | hyperbolicTangent => "tanh"
  | reciprocal => "recip"

/-- The variable in which a function is fitted. -/
def fitArgument : SymmetricFunction → String
  | sine | cosine | tangent => "x"
  | arctangent | arcsine => "t"
  | hyperbolicSine | hyperbolicCosine | hyperbolicTangent => "arg"
  | reciprocal => "am"

/-- The parity for which a function is fitted. The seed of the reciprocal has none. -/
def fitParity : SymmetricFunction → Parity
  | cosine | hyperbolicCosine => .even
  | reciprocal => .none
  | _ => .odd

/-- The **body** of a function, and for the reciprocal how often its seed is refined. -/
def body (nt : NumberType) (polynomial : Expr) (refinements : Int) :
    SymmetricFunction → List Expr
  | sine | cosine => Trigonometric.singlePassBody nt polynomial
  | tangent => Trigonometric.tangentBody nt polynomial
  | arctangent => InverseTrigonometric.arctangentBody nt polynomial
  | arcsine => InverseTrigonometric.arcsineBody nt polynomial
  | hyperbolicSine => Hyperbolic.sineBody nt polynomial
  | hyperbolicCosine => Hyperbolic.cosineBody nt polynomial
  | hyperbolicTangent => Hyperbolic.tangentBody nt polynomial
  | reciprocal => Root.reciprocalBody nt polynomial refinements

/-- The **generator** of a function; the reciprocal finds its number of terms in the setting. -/
def generate (s : Setting) (terms : Int) : SymmetricFunction → Traced GeneratedFunction
  | sine => Trigonometric.singlePassSine s terms
  | cosine => Trigonometric.singlePassCosine s terms
  | tangent => Trigonometric.tangent s terms
  | arctangent => InverseTrigonometric.arctangent s terms
  | arcsine => InverseTrigonometric.arcsine s terms
  | hyperbolicSine => Hyperbolic.sine s terms
  | hyperbolicCosine => Hyperbolic.cosine s terms
  | hyperbolicTangent => Hyperbolic.tangent s terms
  | reciprocal => Root.reciprocal s

/-- A function **built from a fit** in the variable and for the parity of the generator, whatever
polynomial was fitted. -/
structure Builds (F : SymmetricFunction) (nt : NumberType) (fit : Fit.Result)
    (f : GeneratedFunction) : Prop where
  argument : fit.request.argument = F.fitArgument
  parity : fit.request.parity = F.fitParity
  built : ∃ polynomial refinements, fit.expression = .ok polynomial ∧
    (GeneratedFunction.quantize
      ⟨F.name, nt, ["arg"], F.body nt polynomial refinements, 1, [fit]⟩).outcome = .ok f

/-- Whether a function is even or odd. -/
def symmetry : SymmetricFunction → Symmetry
  | cosine | hyperbolicCosine => .even
  | _ => .odd

/-- What becomes of the value of a function when its argument changes its sign: it stays, or changes
its sign too. -/
def mirror : SymmetricFunction → Datum → Datum
  | cosine | hyperbolicCosine => id
  | _ => Datum.neg

open Computation

variable {F : SymmetricFunction} {s : Setting} {f : GeneratedFunction} {fit : Fit.Result}

/-- A function is built from a fit by the **last steps of its generator**. -/
theorem builds_of_runs {request : Fit.Request} {polynomial : Expr} (refinements : Int)
    {events₀ events₁ events₂ events₃ events₄ : Array Event}
    (hargument : request.argument = F.fitArgument) (hparity : request.parity = F.fitParity)
    (hfit : runFrom request.solve events₀ = (.ok fit, events₁))
    (hscheme : runFrom (Setting.scheme fit) events₁ = (.ok polynomial, events₂))
    (hbuild : runFrom (s.build F.name ["arg"] (F.body s.numberType polynomial refinements) [fit])
      events₃ = (.ok f, events₄)) : F.Builds s.numberType fit f := by
  have hrequest := Fit.Request.request_of_solve hfit
  refine ⟨hrequest ▸ hargument, hrequest ▸ hparity, polynomial, refinements, ?_, ?_⟩
  · rw [Setting.scheme] at hscheme
    cases hexpression : fit.expression with
    | ok e =>
      rw [hexpression] at hscheme
      cases hscheme
      rfl
    | error f =>
      rw [hexpression] at hscheme
      cases hscheme
  · exact GeneratedFunction.quantizeFor_eq_ok_iff.mpr
      ((GeneratedFunction.quantizeFor_ends _ _ _).ok hbuild)

/-- **What a generator gives** is built from a fit. -/
theorem builds_of_generate {terms : Int} (h : (F.generate s terms).outcome = .ok f) :
    ∃ fit, F.Builds s.numberType fit f := by
  obtain ⟨events, hrun⟩ : ∃ events, runFrom (F.generate s terms) #[] = (.ok f, events) :=
    ⟨_, Prod.ext h rfl⟩
  cases F with
  | reciprocal =>
    obtain ⟨count, _, -, hrun⟩ := runFrom_bind_eq_ok.mp hrun
    obtain ⟨fit, _, hfit, hrun⟩ := runFrom_bind_eq_ok.mp hrun
    obtain ⟨polynomial, _, hscheme, hrun⟩ := runFrom_bind_eq_ok.mp hrun
    obtain ⟨refinements, _, -, hbuild⟩ := runFrom_bind_eq_ok.mp hrun
    exact ⟨fit, builds_of_runs refinements rfl rfl hfit hscheme hbuild⟩
  | _ =>
    obtain ⟨fit, _, hfit, hrun⟩ := runFrom_bind_eq_ok.mp hrun
    obtain ⟨polynomial, _, hscheme, hbuild⟩ := runFrom_bind_eq_ok.mp hrun
    exact ⟨fit, builds_of_runs 0 rfl rfl hfit hscheme hbuild⟩

/-- **The bodies** have the symmetries of the functions. -/
theorem bodyHasSymmetry {F : SymmetricFunction} {nt : NumberType} {fit : Fit.Result}
    {polynomial : Expr} {refinements : Int} (hargument : fit.request.argument = F.fitArgument)
    (hparity : fit.request.parity = F.fitParity) (hscheme : fit.expression = .ok polynomial) :
    BodyHasSymmetry signedArgument (F.body nt polynomial refinements) F.symmetry := by
  rw [Fit.Result.expression, hargument, hparity] at hscheme
  cases F with
  | sine =>
    exact Trigonometric.bodyHasSymmetry_singlePass
      (Polynomial.hasSymmetry_horner_odd (.variable rfl) hscheme)
  | cosine =>
    exact Trigonometric.bodyHasSymmetry_singlePass
      (Polynomial.hasSymmetry_horner_even (.variable rfl) hscheme)
  | tangent =>
    exact Trigonometric.bodyHasSymmetry_tangent
      (Polynomial.hasSymmetry_horner_odd (.variable rfl) hscheme)
  | arctangent =>
    exact InverseTrigonometric.bodyHasSymmetry_arctangent fun _ ht =>
      Polynomial.hasSymmetry_horner_same (HasSymmetry.variable ht).same hscheme
  | arcsine =>
    exact InverseTrigonometric.bodyHasSymmetry_arcsine fun _ ht =>
      Polynomial.hasSymmetry_horner_same (.variable ht) hscheme
  | hyperbolicSine =>
    exact Hyperbolic.bodyHasSymmetry_sine
      (Polynomial.hasSymmetry_horner_odd (HasSymmetry.variable rfl).odd hscheme)
  | hyperbolicCosine =>
    exact Hyperbolic.bodyHasSymmetry_cosine
      (Polynomial.hasSymmetry_horner_even (HasSymmetry.variable rfl).odd hscheme)
  | hyperbolicTangent =>
    exact Hyperbolic.bodyHasSymmetry_tangent
      (Polynomial.hasSymmetry_horner_odd (HasSymmetry.variable rfl).odd hscheme)
  | reciprocal =>
    exact Root.bodyHasSymmetry_reciprocal
      (Polynomial.hasSymmetry_horner_same (HasSymmetry.variable rfl).same hscheme)

/-- **Exact symmetry.** What the generator of such a function gives is built from a fit; and in a
function that is built from any fit, with whatever coefficients, the value at a finite number other
than zero and the value at its negation are the same number or opposite numbers, or both are none,
under the emulation of the precision whenever both are given. What the function calls may be any
functions. -/
theorem call_neg (F : SymmetricFunction) (s : Setting) :
    (∀ terms f, (F.generate s terms).outcome = .ok f → ∃ fit, F.Builds s.numberType fit f) ∧
    ∀ fit f, F.Builds s.numberType fit f →
      ∀ (find : String → Option GeneratedFunction) (depth : Nat) (negative : Bool) (q : Rat),
        (Datum.finite negative q).IsMember s.numberType.precision.format → q ≠ 0 →
        ∀ v w,
          (Emulation.arithmetic s.numberType.precision).call find depth f
            [.number (.binary s.numberType.precision (.finite negative q))] = .ok v →
          (Emulation.arithmetic s.numberType.precision).call find depth f
            [.number (.binary s.numberType.precision (.finite (!negative) q))] = .ok w →
          ∃ p x y, v = .number (.binary p x) ∧ w = .number (.binary p y) ∧
            y.SameNumber (F.mirror x) := by
  refine ⟨fun terms f => builds_of_generate, ?_⟩
  intro fit f hbuilds find depth negative q hq hne v w hv hw
  obtain ⟨polynomial, refinements, hscheme, hf⟩ := hbuilds.built
  have hmirrored := (bodyHasSymmetry hbuilds.argument hbuilds.parity hscheme).call_quantized rfl hf
    hq hne hv hw
  have hodd : Value.Mirrored s.numberType.precision .odd v w →
      ∃ p x y, v = .number (.binary p x) ∧ w = .number (.binary p y) ∧ y.SameNumber x.neg :=
    fun ⟨p, x, y, hxy, hv, hw⟩ => ⟨p, x, y, hv, hw, hxy.sameNumber⟩
  have heven : Value.Mirrored s.numberType.precision .even v w →
      ∃ p x y, v = .number (.binary p x) ∧ w = .number (.binary p y) ∧ y.SameNumber x :=
    fun ⟨hvw, p, x, hv⟩ => ⟨p, x, x, hv, hvw ▸ hv, x.sameNumber_self⟩
  cases F with
  | cosine | hyperbolicCosine => exact heven hmirrored
  | _ => exact hodd hmirrored

/-- A fit of the reciprocal by the number one. -/
def unitFit : Fit.Result where
  request := ⟨.expr (1 / .var "am"), "am", 1, .literal "1", .literal "2", .none, 32⟩
  polynomial := ⟨[(0, .integer 1)]⟩
  error := .integer 1
  levelled := .integer 1
  iterations := 1

/-- The reciprocal from that fit, refined once, in single precision. -/
def unitReciprocal : GeneratedFunction where
  name := "recip"
  numberType := ⟨.single, false⟩
  arguments := ["arg"]
  statements := (Root.reciprocalBody ⟨.single, false⟩ (.constant (.integer 1)) 1).map
    (Expr.coded ⟨.single, false⟩)
  outputs := 1
  fits := [unitFit]

theorem builds_unitReciprocal : reciprocal.Builds ⟨.single, false⟩ unitFit unitReciprocal := by
  refine ⟨rfl, rfl, .constant (.integer 1), 1, rfl, ?_⟩
  refine GeneratedFunction.quantizeFor_eq_ok_iff.mpr ⟨?_, rfl⟩
  have hzero : NumberType.codingOutcome ⟨.single, false⟩ (.integer 0) = .ok 0 := by
    decide +kernel
  have hone : NumberType.codingOutcome ⟨.single, false⟩ (.integer 1) = .ok 0x3f800000 := by
    decide +kernel
  have htwo : NumberType.codingOutcome ⟨.single, false⟩
      (.double (Datum.ofRat Precision.double.format false ((20 : Nat) / 10 ^ 1))) =
        .ok 0x40000000 := by
    decide +kernel
  refine List.forall_mem_cons.mpr ⟨⟨_, _, rfl, hone⟩, ?_⟩
  refine List.forall_mem_cons.mpr ⟨⟨_, _, rfl, htwo⟩, ?_⟩
  exact List.forall_mem_singleton.mpr ⟨_, _, rfl, hzero⟩

/-- The call of that function with a number. -/
def callUnitReciprocal (x : Datum) : Except Failure (Value Scalar) :=
  (Emulation.arithmetic .single).call (fun _ => none) 1 unitReciprocal
    [.number (.binary .single x)]

/-- The number in a precision that a computation gives, if it gives one. -/
def binary? : Except Failure (Value Scalar) → Option (Precision × Datum)
  | .ok (.number (.binary p x)) => some (p, x)
  | _ => none

theorem eq_ok_of_binary? {x : Except Failure (Value Scalar)} {p : Precision} {y : Datum}
    (h : binary? x = some (p, y)) : x = .ok (.number (.binary p y)) := by
  unfold binary? at h
  split at h
  · cases h
    rfl
  · cases h

/-- The reciprocals of three halves and of its negation, from the one seed. -/
theorem call_neg_threeHalves :
    callUnitReciprocal (.finite false (3 / 2)) =
        .ok (.number (.binary .single (.finite false (1 / 2)))) ∧
      callUnitReciprocal (.finite true (3 / 2)) =
        .ok (.number (.binary .single (.finite true (1 / 2)))) ∧
      (Datum.finite true (1 / 2)).SameNumber (Datum.finite false (1 / 2)).neg := by
  have hmember : (Datum.finite false (3 / 2)).IsMember Precision.single.format := by
    rw [Datum.isMember_finite]
    decide +kernel
  have hv : callUnitReciprocal (.finite false (3 / 2)) =
      .ok (.number (.binary .single (.finite false (1 / 2)))) :=
    eq_ok_of_binary? (by decide +kernel)
  have hw : callUnitReciprocal (.finite true (3 / 2)) =
      .ok (.number (.binary .single (.finite true (1 / 2)))) :=
    eq_ok_of_binary? (by decide +kernel)
  obtain ⟨p, x, y, hx, hy, hsame⟩ := (call_neg reciprocal
    ⟨⟨.single, false⟩, 32, .standard⟩).2 unitFit unitReciprocal builds_unitReciprocal
    (fun _ => none) 1 false (3 / 2) hmember (by norm_num) _ _ hv hw
  cases hx
  cases hy
  exact ⟨hv, hw, hsame⟩

end SymmetricFunction

end Elementary
