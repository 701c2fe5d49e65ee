import Elementary.Proofs.Family.Generation
import Elementary.Proofs.Format.Remainder
import Elementary.Proofs.Polynomial.Scheme

/-!
# Arguments without their nearest integers

The sine and the cosine over a period measure the argument in periods and take the nearest integer
off; the binary exponential takes the nearest integer off the argument itself. In the emulation of a
precision this is exact for every finite argument, and what is left lies in the domain of the fit
whose polynomial is evaluated there. Only the measuring rounds.

## Main definitions

* `Fit.Request.Contains`: the domain of a fit.
* `BindsNumber`: variables that are bound to numbers of a precision.
* `IsCentredFit`: fits between a bound and its opposite.
* `LandsIn`: what is left of a number, bound to the variable of a fit.
* `Trigonometric.IsMeasured`: what an argument measures in units.

## Main results

* `Emulation.exists_remainder`: the nearest integer is taken off exactly.
* `LibraryFunction.remainder_exact`: the functions that take the nearest integer off.
-/

namespace Elementary

open Expr (Assigns)

/-- A number lies **in the domain of a fit**. -/
def Fit.Request.Contains (r : Fit.Request) (q : Rat) : Prop :=
  ∃ low high, r.low.toRat = .ok low ∧ r.high.toRat = .ok high ∧ low ≤ q ∧ q ≤ high

/-- A variable **is bound to a number** of a precision. -/
def BindsNumber (p : Precision) (env : Bindings Scalar) (name : String) (q : Rat) : Prop :=
  ∃ v, env.lookup name = some v ∧ v.Denotes p q

/-- A **centred fit** in a variable: its domain lies between a bound and the opposite, and its
polynomial has a codable scheme. -/
structure IsCentredFit (nt : NumberType) (fit : Fit.Result) (name : String) (bound : Rat)
    (scheme : Expr) : Prop where
  argument : fit.request.argument = name
  low : fit.request.low.toRat = .ok (-bound)
  high : fit.request.high.toRat = .ok bound
  expression : fit.expression = .ok scheme
  codable : scheme.Codable nt

namespace IsCentredFit

variable {nt : NumberType} {fit : Fit.Result} {name : String} {bound q : Rat} {scheme : Expr}
  {v : Value Scalar}

theorem contains (h : IsCentredFit nt fit name bound scheme) (hq : |q| ≤ bound) :
    fit.request.Contains q :=
  ⟨-bound, bound, h.low, h.high, neg_le_of_abs_le hq, le_of_abs_le hq⟩

/-- **The scheme has a value** wherever its variable is bound to a number. -/
theorem exists_gives (h : IsCentredFit nt fit name bound scheme) (hv : v.Denotes nt.precision q) :
    ∃ y : Datum, y.IsMember nt.precision.format ∧ ∀ calls env, env.lookup name = some v →
      (scheme.coded nt).Gives (Emulation.arithmetic nt.precision) calls env
        (.number (.binary nt.precision y)) := by
  obtain ⟨x, -, hx, rfl⟩ := hv
  have hscheme := Polynomial.isScheme_horner h.expression
  rw [h.argument] at hscheme
  exact hscheme.exists_gives h.codable hx

end IsCentredFit

/-- What is left of a number without its nearest integer **lands in the domain of a fit**: the
variable of the fit is bound to it, without any error. -/
structure LandsIn (p : Precision) (env : Bindings Scalar) (r : Fit.Request) (q : Rat) : Prop where
  isBound : BindsNumber p env r.argument (remainder q)
  le_half : |remainder q| ≤ 1 / 2
  contains : r.Contains (remainder q)

/-- What comes about when a function reduces an argument: its fit with the scheme, the bindings
under which the scheme is evaluated, the number whose nearest integer was taken off, and the value
of the scheme. -/
structure ReducedRun where
  fit : Fit.Result
  scheme : Expr
  bindings : Bindings Scalar
  number : Rat
  value : Value Scalar

/-- A function **reduces an argument in two statements**, before the scheme of the only fit that it
asks for is evaluated: the body begins with two assignments, which lead to bindings under which what
is left of a number lands in the domain of the fit and the scheme has a value. -/
structure Reduces (F : LibraryFunction) (s : Setting) (body : Expr → List Expr)
    (f : GeneratedFunction) (x : Datum) (run : ReducedRun) : Prop where
  requests : F.requests s = [run.fit.request]
  fits : f.fits = [run.fit]
  expression : run.fit.expression = .ok run.scheme
  statements : f.statements = (body run.scheme).map (Expr.coded s.numberType)
  assigns : ∀ calls, Assigns (Emulation.arithmetic s.numberType.precision) calls
    (((body run.scheme).take 2).map (Expr.coded s.numberType))
    [("arg", .number (.binary s.numberType.precision x))] run.bindings
  lands : LandsIn s.numberType.precision run.bindings run.fit.request run.number
  gives : ∀ calls, (run.scheme.coded s.numberType).Gives
    (Emulation.arithmetic s.numberType.precision) calls run.bindings run.value

/-- **The nearest integer is taken off** a number exactly. -/
theorem Emulation.exists_remainder {p : Precision} {v : Value Scalar} {q : Rat}
    (hv : v.Denotes p q) :
    ∃ k w, (arithmetic p).operation .nearestInteger [v] = .ok k ∧
      k.Denotes p (roundHalfEven q : Int) ∧
      (arithmetic p).operation .subtraction [v, k] = .ok w ∧ w.Denotes p (remainder q) := by
  obtain ⟨k, hk, hinteger⟩ := exists_nearestInteger hv
  obtain ⟨w, hw, hleft⟩ := exists_subtraction_exact hv hinteger hv.has.sub_nearestInteger
  exact ⟨k, w, hk, hinteger, hw, hleft⟩

namespace Trigonometric

variable {nt : NumberType} {unit : BigFloat} {a : Rat} {arg : Value Scalar}

/-- **The units** in which an argument is measured have codings, and of each unit one has at most
one. -/
theorem exists_unit (hunit : unit ∈ [perPeriod, perHalfPeriod]) (nt : NumberType) :
    ∃ c u, nt.codingOutcome (ExactConstant.number unit) = .ok c ∧
      (ExactConstant.number unit).toRat = .ok u ∧ |u| ≤ 1 := by
  have hmeasuring {unit : BigFloat} {target : Expr} {rest : List Expr} (h : ∀ e ∈ Expr.assign target
      (Setting.variableIn nt "arg" * ExactConstant.expr unit) :: rest, e.Codable nt) :
      (ExactConstant.expr unit).Codable nt :=
    ((h _ List.mem_cons_self).operand (List.mem_cons_of_mem _ List.mem_cons_self)).operand
      (List.mem_cons_of_mem _ List.mem_cons_self)
  have hcodable : ∀ unit ∈ [perPeriod, perHalfPeriod],
      (ExactConstant.expr unit).Codable nt := by
    rw [List.forall_mem_cons, List.forall_mem_singleton]
    exact ⟨hmeasuring (LibraryFunction.codable_template nt (.sine .singlePass)),
      hmeasuring (LibraryFunction.codable_template nt (.sine .quadrant))⟩
  have hsmall : ∀ unit ∈ [perPeriod, perHalfPeriod],
      unit.toRat?.all (fun u => decide (u.abs ≤ 1)) = true ∧ unit.toRat?.isSome = true := by
    decide +kernel
  obtain ⟨c, hc⟩ := Expr.codable_constant.mp (hcodable unit hunit)
  obtain ⟨hall, hsome⟩ := hsmall unit hunit
  obtain ⟨u, hu⟩ := Option.isSome_iff_exists.mp hsome
  rw [hu] at hall
  refine ⟨c, u, hc, ?_, rat_abs_eq u ▸ of_decide_eq_true hall⟩
  rw [ExactConstant.number, Number.toRat, hu]

/-- What an argument **measures** in units: the product with the rounded constant, rounded. -/
def IsMeasured (p : Precision) (unit : BigFloat) (a q : Rat) : Prop :=
  ∃ u, (ExactConstant.number unit).toRat = .ok u ∧ q = p.format.round (a * p.format.round u)

/-- **Measuring** an argument: the result may be rounded, but it does not overflow. -/
theorem exists_measured (hunit : unit ∈ [perPeriod, perHalfPeriod])
    (harg : arg.Denotes nt.precision a) :
    ∃ q v, IsMeasured nt.precision unit a q ∧ v.Denotes nt.precision q ∧
      ∀ calls env, env.lookup "arg" = some arg →
        ((Setting.variableIn nt "arg" * ExactConstant.expr unit).coded nt).Gives
          (Emulation.arithmetic nt.precision) calls env v := by
  obtain ⟨c, u, hcoding, hu, hsmall⟩ := exists_unit hunit nt
  obtain ⟨w, hw, hgives⟩ := Emulation.exists_coded_constant hcoding hu
  have hmagnitude : nt.precision.Has |a| := rat_abs_eq a ▸ harg.has.abs
  have hproduct : |a * nt.precision.format.round u| ≤ |a| := by
    rw [abs_mul]
    exact mul_le_of_le_one_right (abs_nonneg a) (Precision.abs_round_le Precision.has_one hsmall)
  obtain ⟨v, hv, hdenotes⟩ := Emulation.exists_multiplication harg hw
    ((Precision.abs_round_le hmagnitude hproduct).trans harg.has.abs_le_maxValue)
  exact ⟨_, v, ⟨u, hu, rfl⟩, hdenotes, fun calls env henv =>
    (changesConstants_coded nt).gives_mul ((changesConstants_coded nt).gives_var henv)
      (hgives calls env) hv⟩

/-- **The reduction**: the argument is measured, and the nearest integer is taken off exactly. -/
theorem exists_assigns_reduction (hunit : unit ∈ [perPeriod, perHalfPeriod])
    (harg : arg.Denotes nt.precision a) :
    ∃ q scaled left, IsMeasured nt.precision unit a q ∧ scaled.Denotes nt.precision q ∧
      left.Denotes nt.precision (remainder q) ∧
      ∀ calls, Assigns (Emulation.arithmetic nt.precision) calls
        ((reduction nt unit).map (Expr.coded nt)) [("arg", arg)]
        [("x", left), ("scaled", scaled), ("arg", arg)] := by
  have hτ := changesConstants_coded nt
  obtain ⟨q, scaled, hq, hscaled, hmeasured⟩ := exists_measured hunit harg
  obtain ⟨k, left, hk, -, hsub, hleft⟩ := Emulation.exists_remainder hscaled
  refine ⟨q, scaled, left, hq, hscaled, hleft, fun calls => ?_⟩
  refine hτ.assigns_cons (hmeasured calls _ rfl) (hτ.assigns_cons ?_ .nil)
  exact hτ.gives_sub (hτ.gives_var rfl) (hτ.gives_nearestInteger (hτ.gives_var rfl) hk) hsub

end Trigonometric

namespace LibraryFunction

variable {s : Setting} {F : LibraryFunction} {f : GeneratedFunction} {r : Fit.Request}

/-- The scheme at a place is the one of **the fit at this place**. -/
theorem expression_polynomial {fits : List Fit.Result} {c : Ingredients} {i : Nat}
    {fit : Fit.Result} (h : List.Forall₂ (fun fit e => fit.expression = .ok e) fits c.polynomials)
    (hi : fits[i]? = some fit) : fit.expression = .ok (c.polynomial i) := by
  unfold Ingredients.polynomial
  generalize c.polynomials = es at h
  induction h generalizing i with
  | nil => cases hi
  | cons he _ ih =>
    cases i with
    | zero =>
      cases hi
      exact he
    | succ i => exact ih hi

/-- A function that was built from **one fit**, centred up to one half. -/
theorem Builds.exists_centredFit (h : F.Builds s f) (hr : F.requests s = [r])
    (hlow : r.low = .literal "-0.5") (hhigh : r.high = .literal "0.5")
    (hpolynomial : ∀ c : Ingredients, (∀ e ∈ F.body s.numberType c, e.Codable s.numberType) →
      (c.polynomial 0).Codable s.numberType) :
    ∃ (fit : Fit.Result) (c : Ingredients), F.requests s = [fit.request] ∧ f.fits = [fit] ∧
      IsCentredFit s.numberType fit r.argument (1 / 2) (c.polynomial 0) ∧
      f.statements = (F.body s.numberType c).map (Expr.coded s.numberType) := by
  obtain ⟨fits, c, hrequests, hschemes, hcodable, rfl⟩ := h.exists_ingredients
  obtain ⟨fit, rfl, rfl⟩ := List.map_eq_singleton_iff.mp (hrequests.trans hr)
  refine ⟨fit, c, hr, rfl,
    ⟨rfl, ?_, ?_, expression_polynomial hschemes rfl, hpolynomial c hcodable⟩, rfl⟩
  · rw [hlow]
    decide +kernel
  · rw [hhigh]
    decide +kernel

/-- Where a body reduces an argument to what is left of a number, the scheme of a fit that is
centred up to one half has a value there. -/
theorem exists_reduces (body : Expr → List Expr) {x : Datum} {fit : Fit.Result} {name : String}
    {scheme : Expr} {env : Bindings Scalar} {q : Rat} {left : Value Scalar}
    (hrequests : F.requests s = [fit.request]) (hfits : f.fits = [fit])
    (hfit : IsCentredFit s.numberType fit name (1 / 2) scheme)
    (hstatements : f.statements = (body scheme).map (Expr.coded s.numberType))
    (hassigns : ∀ calls, Assigns (Emulation.arithmetic s.numberType.precision) calls
      (((body scheme).take 2).map (Expr.coded s.numberType))
      [("arg", .number (.binary s.numberType.precision x))] env)
    (hlookup : env.lookup name = some left)
    (hleft : left.Denotes s.numberType.precision (remainder q)) :
    ∃ v, Reduces F s body f x ⟨fit, scheme, env, q, v⟩ := by
  have hhalf : |remainder q| ≤ 1 / 2 := abs_remainder_le_half q
  obtain ⟨v, -, hgives⟩ := hfit.exists_gives hleft
  have hlands : LandsIn s.numberType.precision env fit.request q :=
    ⟨hfit.argument.symm ▸ ⟨left, hlookup, hleft⟩, hhalf, hfit.contains hhalf⟩
  exact ⟨_, hrequests, hfits, hfit.expression, hstatements, hassigns, hlands,
    fun calls => hgives calls env hlookup⟩

/-- The sine and the cosine over a period have **a centred fit** in the variable for what is left of
the measured argument. -/
theorem exists_singlePassFit (hF : F ∈ [sine .singlePass, cosine .singlePass])
    (h : F.Builds s f) :
    ∃ (fit : Fit.Result) (scheme : Expr), F.requests s = [fit.request] ∧ f.fits = [fit] ∧
      IsCentredFit s.numberType fit "x" (1 / 2) scheme ∧
      f.statements = (Trigonometric.singlePassBody s.numberType scheme).map
        (Expr.coded s.numberType) := by
  have hpolynomial {scheme : Expr} (hcodable : ∀ e ∈ Trigonometric.singlePassBody s.numberType
      scheme, e.Codable s.numberType) : scheme.Codable s.numberType :=
    (hcodable _ (List.mem_append_right _ List.mem_cons_self)).operand List.mem_cons_self
  simp only [List.mem_cons, List.not_mem_nil, or_false] at hF
  rcases hF with rfl | rfl
  · obtain ⟨fit, c, hfit⟩ := h.exists_centredFit rfl rfl rfl fun c => hpolynomial
    exact ⟨fit, c.polynomial 0, hfit⟩
  · obtain ⟨fit, c, hfit⟩ := h.exists_centredFit rfl rfl rfl fun c => hpolynomial
    exact ⟨fit, c.polynomial 0, hfit⟩

/-- **A single pass runs**: the reduction, then the scheme of the fit. -/
theorem singlePass_reduces {x : Datum} {a : Rat} (hx : x.Denotes a)
    (hmember : x.IsMember s.numberType.precision.format)
    (hF : F ∈ [sine .singlePass, cosine .singlePass]) (h : F.Builds s f) :
    ∃ run, Reduces F s (Trigonometric.singlePassBody s.numberType) f x run ∧
      BindsNumber s.numberType.precision run.bindings "scaled" run.number ∧
      ∀ find depth, (Emulation.arithmetic s.numberType.precision).call find (depth + 1) f
        [.number (.binary s.numberType.precision x)] = .ok run.value := by
  obtain ⟨fit, scheme, hrequests, hfits, hfit, hstatements⟩ := exists_singlePassFit hF h
  obtain ⟨q, scaled, left, -, hscaled, hleft, hassigns⟩ :=
    Trigonometric.exists_assigns_reduction List.mem_cons_self ⟨x, hx, hmember, rfl⟩
  obtain ⟨v, hreduces⟩ := exists_reduces (Trigonometric.singlePassBody s.numberType)
    hrequests hfits hfit hstatements hassigns rfl hleft
  have hrun (calls : Calls Scalar) :
      Expr.evaluateSequence (Emulation.arithmetic s.numberType.precision) calls f.statements
        [("arg", .number (.binary s.numberType.precision x))] = .ok (v, [("x", left),
          ("scaled", scaled), ("arg", .number (.binary s.numberType.precision x))]) := by
    rw [hstatements, Trigonometric.singlePassBody, List.map_append,
      (hassigns calls).evaluateSequence_append]
    exact (changesConstants_coded _).evaluateSequence_result (hreduces.gives calls) []
  have hargs : f.arguments = ["arg"] := by
    simp only [List.mem_cons, List.not_mem_nil, or_false] at hF
    rcases hF with rfl | rfl <;> exact h.isBuilt.arguments
  have hbound := Arithmetic.bindArguments_singleton (Emulation.argument_binary hmember) "arg"
  rw [← hargs] at hbound
  exact ⟨_, hreduces, ⟨scaled, rfl, hscaled⟩, fun find depth => Arithmetic.call_eq hbound (hrun _)⟩

/-- **The binary exponential runs**: the nearest integer is taken off the argument, then the scheme
of the fit is evaluated. -/
theorem binaryExponential_reduces {x : Datum} {a : Rat} (hx : x.Denotes a)
    (hmember : x.IsMember s.numberType.precision.format) (h : binaryExponential.Builds s f) :
    ∃ run, Reduces binaryExponential s (Exponential.binaryBody s.numberType) f x run ∧
      run.number = a ∧
      BindsNumber s.numberType.precision run.bindings "k" (roundHalfEven a : Int) := by
  obtain ⟨fit, c, hrequests, hfits, hfit, hstatements⟩ :=
    h.exists_centredFit rfl rfl rfl fun c hcodable =>
      (hcodable _ (List.mem_of_getElem? (i := 2) rfl)).operand
        (List.mem_cons_of_mem _ List.mem_cons_self)
  have hτ := changesConstants_coded s.numberType
  have harg : (Value.number (.binary s.numberType.precision x)).Denotes s.numberType.precision a :=
    ⟨x, hx, hmember, rfl⟩
  obtain ⟨k, left, hk, hinteger, hsub, hleft⟩ := Emulation.exists_remainder harg
  have hassigns (calls : Calls Scalar) : Assigns (Emulation.arithmetic s.numberType.precision) calls
      (((Exponential.binaryBody s.numberType (c.polynomial 0)).take 2).map
        (Expr.coded s.numberType)) [("arg", .number (.binary s.numberType.precision x))]
      [("r", left), ("k", k), ("arg", .number (.binary s.numberType.precision x))] := by
    refine hτ.assigns_cons (hτ.gives_nearestInteger (hτ.gives_var rfl) hk)
      (hτ.assigns_cons ?_ .nil)
    exact hτ.gives_sub (hτ.gives_var rfl) (hτ.gives_var rfl) hsub
  obtain ⟨v, hreduces⟩ := exists_reduces (Exponential.binaryBody s.numberType) hrequests hfits hfit
    hstatements hassigns rfl hleft
  exact ⟨_, hreduces, rfl, k, rfl, hinteger⟩

/-- **Taking the nearest integer off is exact**, and what is left lies in the domain of the fit. For
every finite argument, in the emulation of the precision, the sine and the cosine over a period
measure the argument, take the nearest integer off the number that they get, and give what the
scheme of their fit gives at what is left. The binary exponential takes the nearest integer off the
argument itself, and the two parts make up the argument. -/
theorem remainder_exact (s : Setting) {x : Datum} {a : Rat} (hx : x.Denotes a)
    (hmember : x.IsMember s.numberType.precision.format) :
    (∀ F ∈ [sine .singlePass, cosine .singlePass], ∀ f, F.Builds s f →
      ∃ run, Reduces F s (Trigonometric.singlePassBody s.numberType) f x run ∧
        BindsNumber s.numberType.precision run.bindings "scaled" run.number ∧
        ∀ find depth, (Emulation.arithmetic s.numberType.precision).call find (depth + 1) f
          [.number (.binary s.numberType.precision x)] = .ok run.value) ∧
    ∀ f, binaryExponential.Builds s f →
      ∃ run, Reduces binaryExponential s (Exponential.binaryBody s.numberType) f x run ∧
        ∃ k r, BindsNumber s.numberType.precision run.bindings "k" k ∧
          BindsNumber s.numberType.precision run.bindings "r" r ∧
          k = roundHalfEven a ∧ k + r = a ∧ run.number = a := by
  refine ⟨fun F hF f h => singlePass_reduces hx hmember hF h, fun f h => ?_⟩
  obtain ⟨run, hreduces, hnumber, hk⟩ := binaryExponential_reduces hx hmember h
  have hleft := hreduces.lands.isBound
  have hargument : run.fit.request.argument = "r" := by
    rw [← List.singleton_inj.mp hreduces.requests]
    rfl
  rw [hargument, hnumber] at hleft
  exact ⟨run, hreduces, _, _, hk, hleft, rfl, add_sub_cancel _ a, hnumber⟩

/-- At a tie, in single precision: a sine gives what its scheme gives, and the binary exponential
splits `-5/2` into an even integer and `-1/2`. -/
theorem remainder_exact_tie :
    ∃ sin exp2, (sine .singlePass).Builds ⟨⟨.single, true⟩, 32, .standard⟩ sin ∧
      binaryExponential.Builds ⟨⟨.single, true⟩, 32, .standard⟩ exp2 ∧
      (∃ v, (Emulation.arithmetic .single).call (fun _ => none) 1 sin
        [.number (.binary .single (.finite true (5 / 2)))] = .ok v) ∧
      ∃ env, BindsNumber .single env "k" (-2) ∧ BindsNumber .single env "r" (-1 / 2) := by
  obtain ⟨sin, hsin⟩ := Library.exists_builds ⟨⟨.single, true⟩, 32, .standard⟩ (sine .singlePass)
  obtain ⟨exp2, hexp2⟩ := Library.exists_builds ⟨⟨.single, true⟩, 32, .standard⟩ binaryExponential
  have hx : (Datum.finite true (5 / 2)).Denotes (-(5 / 2)) := .finite true (by norm_num)
  have hmember : (Datum.finite true (5 / 2)).IsMember Precision.single.format :=
    Datum.isMember_finite.mpr ⟨by norm_num, by decide +kernel, by decide +kernel⟩
  have hinteger : roundHalfEven (-(5 / 2)) = -2 := by decide +kernel
  obtain ⟨hsine, hexponential⟩ := remainder_exact ⟨⟨.single, true⟩, 32, .standard⟩ hx hmember
  obtain ⟨run, -, -, hcall⟩ := hsine _ List.mem_cons_self sin hsin
  obtain ⟨run', -, k, r, hk, hr, hround, hsum, -⟩ := hexponential exp2 hexp2
  rw [hinteger] at hround
  have hr' : r = -1 / 2 := by
    rw [hround] at hsum
    push_cast at hsum
    linarith
  subst hr'
  refine ⟨sin, exp2, hsin, hexp2, ⟨run.value, hcall _ 0⟩, run'.bindings, ?_, hr⟩
  rw [hround] at hk
  exact_mod_cast hk

end LibraryFunction

end Elementary
