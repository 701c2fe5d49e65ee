import Elementary.Proofs.Family.Reduction
import Elementary.Proofs.Polynomial.Bound

/-!
# The tangent at its poles

The fit of the tangent is free of poles: the function is multiplied by `x² - 1/4`, and the body
divides by the same factor. An argument can be so near to a pole that, measured in half periods, it
is rounded to half an integer. Then the factor is zero and the quotient is not finite. Of all the
other arguments what is left keeps so far away from the poles that the reciprocal of the factor
stays small, and with it the value of the tangent, unless the coefficients of the fit are huge.

## Main definitions

* `Trigonometric.TangentRuns`: what a tangent computes.
* `Trigonometric.coefficientLimit`: how large coefficients may be next to the poles.

## Main results

* `Trigonometric.exists_tangentRuns`: every tangent runs.
* `Trigonometric.tangent_spec`: where the tangent is finite.
* `Trigonometric.tangent_pole`: an argument at which the factor is zero.
-/

namespace Elementary

open Expr (Assigns)
open Setting (variableIn)

/-! ### The function -/

namespace Trigonometric

variable {nt : NumberType} {env : Bindings Scalar} {left : Value Scalar} {q : Rat}

/-- The **factor that removes the poles**. -/
abbrev poleFactor (nt : NumberType) : Expr := variableIn nt "x" * variableIn nt "x" - 0.25

/-- **The factor is computed** without an overflow. -/
theorem denotes_poleFactor (hleft : left.Denotes nt.precision q) (hx : env.lookup "x" = some left)
    (hq : |q| ≤ 1 / 2) : (poleFactor nt).Denotes nt env (nt.precision.poleFactor q) := by
  have hvar : (variableIn nt "x").Denotes nt env q := .var hleft hx
  have hsquare := hvar.binary .multiplication hvar rfl
    (Precision.abs_round_le_maxValue Precision.has_quarter (Precision.abs_square_le_quarter hq))
  exact hsquare.binary .subtraction (.exact_constant (Expr.isExactConstant_written nt).2.1) rfl
    (Precision.abs_round_le_maxValue Precision.has_quarter
      (nt.precision.abs_square_sub_quarter_le hq))

/-- What comes about when a tangent is called: its fit with the scheme, the measured argument, the
bindings after the reduction, and the data that the scheme, the factor and the call give. -/
structure TangentRun where
  fit : Fit.Result
  scheme : Expr
  number : Rat
  bindings : Bindings Scalar
  polynomial : Datum
  factor : Datum
  value : Datum

/-- **What a tangent computes**: the argument is measured in half periods, and the nearest integer
is taken off; the value is that of the scheme, times the reciprocal of the factor. -/
structure TangentRuns (s : Setting) (f : GeneratedFunction) (x : Datum) (a : Rat)
    (run : TangentRun) : Prop where
  requests : LibraryFunction.tangent.requests s = [run.fit.request]
  fits : f.fits = [run.fit]
  expression : run.fit.expression = .ok run.scheme
  statements : f.statements = (tangentBody s.numberType run.scheme).map (Expr.coded s.numberType)
  measured : IsMeasured s.numberType.precision perHalfPeriod a run.number
  assigns : ∀ calls, Assigns (Emulation.arithmetic s.numberType.precision) calls
    ((reduction s.numberType perHalfPeriod).map (Expr.coded s.numberType))
    [("arg", .number (.binary s.numberType.precision x))] run.bindings
  scaled : BindsNumber s.numberType.precision run.bindings "scaled" run.number
  left : BindsNumber s.numberType.precision run.bindings "x" (remainder run.number)
  factor : ∀ calls, ((poleFactor s.numberType).coded s.numberType).Gives
    (Emulation.arithmetic s.numberType.precision) calls run.bindings
    (.number (.binary s.numberType.precision run.factor))
  denotes : run.factor.Denotes (s.numberType.precision.poleFactor (remainder run.number))
  polynomial : ∀ calls, (run.scheme.coded s.numberType).Gives
    (Emulation.arithmetic s.numberType.precision) calls run.bindings
    (.number (.binary s.numberType.precision run.polynomial))
  quotient : ∃ one : Datum, one.Denotes 1 ∧
    run.value = run.polynomial.mul s.numberType.precision.format
      (one.div s.numberType.precision.format run.factor)
  call : ∀ find depth, (Emulation.arithmetic s.numberType.precision).call find (depth + 1) f
    [.number (.binary s.numberType.precision x)] =
      .ok (.number (.binary s.numberType.precision run.value))

variable {s : Setting} {f : GeneratedFunction} {x : Datum} {a : Rat} {run : TangentRun}

/-- The dividend is exact. -/
theorem isExactConstant_dividend (nt : NumberType) : Expr.IsExactConstant nt 1.0 1 :=
  ⟨_, rfl, by decide +kernel, Expr.codable_of_all (by decide +kernel) nt, Precision.has_one⟩

/-- **After the reduction** a tangent gives the value of the scheme, times the reciprocal of the
factor. -/
theorem exists_evaluateSequence {scheme : Expr} {args : Bindings Scalar} {y z : Datum}
    (hassigns : ∀ calls, Assigns (Emulation.arithmetic nt.precision) calls
      ((reduction nt perHalfPeriod).map (Expr.coded nt)) args env)
    (hz : z.IsMember nt.precision.format) (hy : y.IsMember nt.precision.format)
    (hfactor : ∀ calls, ((poleFactor nt).coded nt).Gives (Emulation.arithmetic nt.precision) calls
      env (.number (.binary nt.precision z)))
    (hscheme : ∀ calls recip, (scheme.coded nt).Gives (Emulation.arithmetic nt.precision) calls
      (("recip", recip) :: env) (.number (.binary nt.precision y))) :
    ∃ (one : Datum) (env' : Bindings Scalar), one.Denotes 1 ∧ ∀ calls,
      Expr.evaluateSequence (Emulation.arithmetic nt.precision) calls
        ((tangentBody nt scheme).map (Expr.coded nt)) args =
          .ok (.number (.binary nt.precision
            (y.mul nt.precision.format (one.div nt.precision.format z))), env') := by
  have hτ := changesConstants_coded nt
  obtain ⟨_, ⟨one, hone, hmember, rfl⟩, hgives⟩ :=
    Emulation.exists_coded_exact (isExactConstant_dividend nt)
  refine ⟨one, ("y", .number (.binary nt.precision y)) ::
    ("recip", .number (.binary nt.precision (one.div nt.precision.format z))) :: env, hone,
    fun calls => hτ.evaluateSequence_body ?_ rfl ?_⟩
  · refine (hassigns calls).append (hτ.assigns_cons ?_ (hτ.assigns_cons (hscheme calls _) .nil))
    exact hτ.gives_binary rfl rfl (hgives calls env) (hfactor calls)
      (Emulation.operation_datum .division hmember hz)
  · exact hτ.gives_mul (hτ.gives_var rfl) (hτ.gives_var rfl)
      (Emulation.operation_multiplication hy (hmember.div hz))

/-- **A tangent runs.** -/
theorem exists_tangentRuns (h : LibraryFunction.tangent.Builds s f) (hx : x.Denotes a)
    (hmember : x.IsMember s.numberType.precision.format) :
    ∃ run, TangentRuns s f x a run ∧ run.scheme.Codable s.numberType := by
  obtain ⟨fits, c, hrequests, hschemes, hcodable, rfl⟩ := h.exists_ingredients
  obtain ⟨fit, rfl, hfit⟩ := List.map_eq_singleton_iff.mp hrequests
  have hexpression := LibraryFunction.expression_polynomial hschemes (i := 0) rfl
  have hpolynomial : (c.polynomial 0).Codable s.numberType :=
    (hcodable _ (List.mem_of_getElem? (i := 3) rfl)).operand
      (List.mem_cons_of_mem _ List.mem_cons_self)
  have hunit : perHalfPeriod ∈ [perPeriod, perHalfPeriod] :=
    List.mem_cons_of_mem _ List.mem_cons_self
  have hargument : (Value.number (.binary s.numberType.precision x)).Denotes
      s.numberType.precision a := ⟨x, hx, hmember, rfl⟩
  obtain ⟨q, scaled, left, hmeasured, hscaled, hleft, hassigns⟩ :=
    exists_assigns_reduction hunit hargument
  have hbound : BindsNumber s.numberType.precision [("x", left), ("scaled", scaled),
      ("arg", .number (.binary s.numberType.precision x))] "x" (remainder q) := ⟨left, rfl, hleft⟩
  obtain ⟨_, ⟨z, hz, hmemberZ, rfl⟩, hfactor⟩ : (poleFactor s.numberType).Denotes s.numberType
      [("x", left), ("scaled", scaled), ("arg", .number (.binary s.numberType.precision x))]
      (s.numberType.precision.poleFactor (remainder q)) :=
    denotes_poleFactor hleft rfl (abs_remainder_le_half q)
  have hscheme := Polynomial.isScheme_horner hexpression
  rw [show fit.request.argument = "x" by rw [hfit]; rfl] at hscheme
  obtain ⟨d, -, hmemberLeft, rfl⟩ := hleft
  obtain ⟨y, hmemberY, hgives⟩ := hscheme.exists_gives hpolynomial hmemberLeft
  obtain ⟨one, env', hone, hrun⟩ := exists_evaluateSequence hassigns hmemberZ hmemberY hfactor
    fun calls recip => hgives calls _ rfl
  have harg := Arithmetic.bindArguments_singleton (Emulation.argument_binary hmember) "arg"
  exact ⟨⟨fit, c.polynomial 0, q, _, y, z,
      y.mul s.numberType.precision.format (one.div s.numberType.precision.format z)⟩,
    ⟨hrequests.symm, rfl, hexpression, rfl, hmeasured, hassigns, ⟨scaled, rfl, hscaled⟩, hbound,
      hfactor, hz, fun calls => hgives calls _ rfl, ⟨one, hone, rfl⟩,
      fun find depth => Arithmetic.call_eq harg (hrun _)⟩, hpolynomial⟩

/-- How large the coefficients of a tangent may be, so that **nothing overflows** next to the
poles. -/
def coefficientLimit (p : Precision) : Rat :=
  pow2 (p.format.maxExponent - (p.format.fieldSize + 3))

/-- **Away from the poles** a tangent whose coefficients are not huge is finite. -/
theorem TangentRuns.exists_denotes (h : TangentRuns s f x a run)
    (hcodable : run.scheme.Codable s.numberType) (hpole : |remainder run.number| < 1 / 2)
    (hbound : run.fit.HasCoefficientsUpTo (coefficientLimit s.numberType.precision)) :
    ∃ v, run.value.Denotes v := by
  have hrequest : run.fit.request.parity = .odd ∧ run.fit.request.argument = "x" := by
    rw [← List.singleton_inj.mp h.requests]
    exact ⟨rfl, rfl⟩
  have hexpression := h.expression
  rw [Fit.Result.expression, hrequest.1, hrequest.2] at hexpression
  obtain ⟨left, hlookup, hleft⟩ := h.left
  have hvar : (Expr.var "x").Denotes s.numberType run.bindings (remainder run.number) :=
    .var hleft hlookup
  obtain ⟨y, ⟨_, ⟨d, hd, -, rfl⟩, hgives⟩, hle⟩ :=
    Polynomial.exists_denotes_odd (by cases s.numberType.precision <;> decide)
      (by cases s.numberType.precision <;> decide) hexpression hcodable hvar hpole.le hbound
  -- a scheme gives one value
  obtain rfl : d = run.polynomial := by
    have hvalue := (hgives fun _ => none).symm.trans (h.polynomial fun _ => none)
    cases hvalue
    rfl
  obtain ⟨one, hone, hvalue⟩ := h.quotient
  rw [hvalue]
  have hfactor := hleft.has.poleFactor_le hpole
  refine Datum.exists_denotes_mul_div (j := s.numberType.precision.format.fieldSize + 3) hd
    h.denotes hone hle (le_abs.mpr (.inr (le_neg.mpr hfactor))) ?_ ?_
  · exact Precision.has_pow2 (by cases s.numberType.precision <;> decide)
      (by cases s.numberType.precision <;> decide)
  · rw [sub_add_cancel]
    exact Precision.has_pow2 (by cases s.numberType.precision <;> decide) le_rfl

/-- **At a pole** a tangent is not finite. -/
theorem TangentRuns.not_denotes (h : TangentRuns s f x a run) (hpole : run.factor.Denotes 0)
    (v : Rat) : ¬ run.value.Denotes v := by
  obtain ⟨one, hone, hvalue⟩ := h.quotient
  obtain ⟨negative, hinfinite⟩ :=
    Datum.div_zero s.numberType.precision.format hone one_ne_zero hpole
  rw [hvalue, hinfinite]
  exact Datum.not_denotes_mul_infinite _ _ negative v

/-- The factor is zero when what is left is **half a unit**. -/
theorem TangentRuns.factor_zero_iff (h : TangentRuns s f x a run) :
    run.factor.Denotes 0 ↔ |remainder run.number| = 1 / 2 := by
  obtain ⟨left, -, hleft⟩ := h.left
  rw [← hleft.has.poleFactor_eq_zero_iff (abs_remainder_le_half _)]
  have hdenotes := h.denotes
  constructor
  · intro hzero
    exact Option.some.inj (hdenotes.toRat?_eq.symm.trans hzero.toRat?_eq)
  · intro hzero
    rwa [hzero] at hdenotes

/-- **The tangent divides by zero only at its poles.** The generator builds tangents, and every one
that is built, whatever its fit is, measures a finite argument in half periods without an overflow
and takes the nearest integer off exactly, which leaves at most one half. The factor that it divides
by is zero if one half is left, and only then. There the value is an infinity or not a number.
Everywhere else it is finite, when the coefficients of the fit are finite and not huge. -/
theorem tangent_spec (s : Setting) :
    (∀ f, (tangent s (s.counted .tangent)).outcome = .ok f →
      LibraryFunction.tangent.Builds s f) ∧
    ∀ f, LibraryFunction.tangent.Builds s f → ∀ (x : Datum) (a : Rat), x.Denotes a →
      x.IsMember s.numberType.precision.format →
        ∃ run, TangentRuns s f x a run ∧ |remainder run.number| ≤ 1 / 2 ∧
          (run.factor.Denotes 0 ↔ |remainder run.number| = 1 / 2) ∧
          (run.factor.Denotes 0 → ∀ v, ¬ run.value.Denotes v) ∧
          (¬ run.factor.Denotes 0 →
            run.fit.HasCoefficientsUpTo (coefficientLimit s.numberType.precision) →
              ∃ v, run.value.Denotes v) := by
  refine ⟨fun f h => ?_, fun f h x a hx hmember => ?_⟩
  · rw [Traced.outcome_eq] at h
    have hends := isGenerated_tangent (s := s) (E := True) (fun _ _ => .inl trivial) #[]
    exact hends.ok (Prod.ext h rfl)
  · obtain ⟨run, hruns, hcodable⟩ := exists_tangentRuns h hx hmember
    have hhalf := abs_remainder_le_half run.number
    refine ⟨run, hruns, hhalf, hruns.factor_zero_iff, hruns.not_denotes, fun hfactor => ?_⟩
    exact hruns.exists_denotes hcodable
      (hhalf.lt_of_ne fun hpole => hfactor (hruns.factor_zero_iff.mpr hpole))

/-! ### Linear fits -/

/-- Single precision, where the tangent has one term. -/
def poleSetting : Setting :=
  ⟨⟨.single, false⟩, 32, TermTables.standard.set .tangent 32 (some 1)⟩

/-- A fit of the tangent without its poles by a multiple of the argument. -/
def linearTangent (slope : Rat) : Fit.Result where
  request := ⟨.expr (ofHalfPeriods "tan" (.var "x") * (.var "x" * .var "x" - 0.25)), "x", 1,
    .literal "-0.499999", .literal "0.499999", .odd, 32⟩
  polynomial := .ofList [(1, .ratio slope)]
  error := .ratio 1
  levelled := .ratio 1
  iterations := 1

theorem expression_linearTangent (slope : Rat) :
    (linearTangent slope).expression = .ok (.var "x" * .constant (.ratio slope)) := rfl

/-- A tangent **can be built** from a slope with a coding. -/
theorem exists_linearTangent (slope : Rat)
    (h : (Expr.constant (.ratio slope)).Codable poleSetting.numberType) :
    ∃ f, LibraryFunction.tangent.Builds poleSetting f ∧ f.fits = [linearTangent slope] := by
  have hcodable : (Expr.var "x" * Expr.constant (.ratio slope)).Codable poleSetting.numberType :=
    (Expr.codable_operation rfl).mpr (by simpa using ⟨(Expr.codable_operation rfl).mpr nofun, h⟩)
  obtain ⟨f, hf, hfits⟩ := Library.exists_buildsFrom_of_fit (F := .tangent)
    (show LibraryFunction.tangent.requests poleSetting = [(linearTangent slope).request] from rfl)
    (expression_linearTangent slope) hcodable 0
  exact ⟨f, hf.builds, hfits⟩

/-- What an argument measures in half periods, **by computation**. -/
theorem IsMeasured.eq_of_all {p : Precision} {r : Rat} (h : IsMeasured p perHalfPeriod a q)
    (hall : perHalfPeriod.toRat?.all
      (fun u => decide (p.format.round (a * p.format.round u) = r)) = true) : q = r := by
  obtain ⟨u, hu, rfl⟩ := h
  rw [ExactConstant.number, Number.toRat] at hu
  cases hvalue : perHalfPeriod.toRat? with
  | none => rw [hvalue] at hu; cases hu
  | some u' =>
    rw [hvalue] at hu hall
    cases hu
    exact of_decide_eq_true hall

/-- The number of single precision next to a quarter of the period, which measures **one half**. -/
def nextToPole : Rat := 13176795 / 8388608

/-- The arguments of the examples, and what they measure. -/
theorem isMember_examples :
    ∀ m ∈ [nextToPole, 1], (Datum.finite false m).Denotes m ∧
      (Datum.finite false m).IsMember Precision.single.format := by
  have hmember (m : Rat) (h : 0 ≤ m ∧ Precision.single.format.round m = m ∧
      m ≤ Precision.single.format.maxValue) : (Datum.finite false m).Denotes m ∧
      (Datum.finite false m).IsMember Precision.single.format :=
    ⟨.finite false h.1, Datum.isMember_finite.mpr h⟩
  refine List.forall_mem_cons.mpr ⟨hmember _ (by decide +kernel), ?_⟩
  exact List.forall_mem_singleton.mpr (hmember _ (by decide +kernel))

/-- **At the pole** and at `1`, a tangent with a slope. -/
theorem tangent_spec_linear :
    ∃ f, LibraryFunction.tangent.Builds poleSetting f ∧
      (∃ z, (∀ v, ¬ Datum.Denotes z v) ∧
        (Emulation.arithmetic .single).call (fun _ => none) 1 f
          [.number (.binary .single (.finite false nextToPole))] =
            .ok (.number (.binary .single z))) ∧
      ∃ z v, Datum.Denotes z v ∧
        (Emulation.arithmetic .single).call (fun _ => none) 1 f
          [.number (.binary .single (.finite false 1))] = .ok (.number (.binary .single z)) := by
  obtain ⟨f, hbuilds, hfits⟩ :=
    exists_linearTangent (-3 / 4) (Expr.codable_of_all (by decide +kernel) _)
  obtain ⟨hdenotes, hmember⟩ := isMember_examples nextToPole List.mem_cons_self
  obtain ⟨hdenotes', hmember'⟩ := isMember_examples 1 (by simp)
  obtain ⟨run, hruns, -, hfactor, hpole, -⟩ :=
    (tangent_spec poleSetting).2 f hbuilds _ _ hdenotes hmember
  obtain ⟨run', hruns', -, hfactor', -, hfinite⟩ :=
    (tangent_spec poleSetting).2 f hbuilds _ _ hdenotes' hmember'
  have hnumber : run.number = 1 / 2 := hruns.measured.eq_of_all (by decide +kernel)
  have hnumber' : run'.number = 10680707 / 33554432 := hruns'.measured.eq_of_all (by decide +kernel)
  have hleft : |remainder (1 / 2)| = 1 / 2 := by decide +kernel
  have hleft' : ¬ |remainder (10680707 / 33554432)| = 1 / 2 := by decide +kernel
  have hbound : run'.fit.HasCoefficientsUpTo (coefficientLimit .single) := by
    rw [← List.singleton_inj.mp (hfits.symm.trans hruns'.fits)]
    exact List.forall_mem_singleton.mpr ⟨-3 / 4, rfl, by decide +kernel⟩
  refine ⟨f, hbuilds, ⟨run.value, hpole (hfactor.mpr (hnumber ▸ hleft)), hruns.call _ 0⟩, ?_⟩
  obtain ⟨v, hv⟩ := hfinite (mt hfactor'.mp (hnumber' ▸ hleft')) hbound
  exact ⟨run'.value, v, hv, hruns'.call _ 0⟩

/-- A slope that is finite in single precision, but huge. -/
def hugeSlope : Rat := pow2 127

/-- A tangent with a **huge slope** overflows at `1`, far from the poles. -/
theorem TangentRuns.overflows {f : GeneratedFunction} {run : TangentRun}
    (h : TangentRuns poleSetting f (.finite false 1) 1 run)
    (hfit : run.fit = linearTangent hugeSlope) (v : Rat) : ¬ run.value.Denotes v := by
  have hscheme : run.scheme = Expr.var "x" * Expr.constant (.ratio hugeSlope) := by
    have hexpression := h.expression
    rw [hfit, expression_linearTangent] at hexpression
    exact (Except.ok.inj hexpression).symm
  have hnumber : run.number = 10680707 / 33554432 := h.measured.eq_of_all (by decide +kernel)
  obtain ⟨left, hlookup, hleft⟩ := h.left
  have hslope : (Expr.constant (.ratio hugeSlope)).Denotes poleSetting.numberType run.bindings
      (Precision.single.format.round hugeSlope) :=
    .constant (Expr.codable_of_all (by decide +kernel) _) rfl
  have hvar : (Expr.var "x").Denotes poleSetting.numberType run.bindings
      (remainder (10680707 / 33554432)) := hnumber ▸ .var hleft hlookup
  obtain ⟨_, ⟨y, hy, -, rfl⟩, hgives⟩ :=
    hvar.binary .multiplication hslope rfl (by decide +kernel)
  obtain rfl : y = run.polynomial := by
    have hvalue := h.polynomial fun _ => none
    rw [hscheme] at hvalue
    cases (hgives fun _ => none).symm.trans hvalue
    rfl
  obtain ⟨one, hone, hvalue⟩ := h.quotient
  have hfactor := h.denotes
  rw [hnumber] at hfactor
  have hreciprocal := hone.div (p := .single) hfactor (by decide +kernel) (by decide +kernel)
  obtain ⟨negative, hinfinite⟩ := hy.mul_overflow (p := .single) hreciprocal (by decide +kernel)
  rw [hvalue]
  show ¬ (run.polynomial.mul Precision.single.format
    (one.div Precision.single.format run.factor)).Denotes v
  rw [hinfinite]
  exact nofun

/-- **A tangent divides by zero**: what is left of the number next to a quarter of the period is one
half, outside of the domain of the fit. And a finite coefficient alone does not make the value
finite. -/
theorem tangent_pole :
    (∃ f, LibraryFunction.tangent.Builds poleSetting f ∧
      ∃ run, TangentRuns poleSetting f (.finite false nextToPole) nextToPole run ∧
        remainder run.number = 1 / 2 ∧ ¬ run.fit.request.Contains (remainder run.number) ∧
        run.factor.Denotes 0 ∧ ∀ v, ¬ run.value.Denotes v) ∧
    ∃ f, LibraryFunction.tangent.Builds poleSetting f ∧
      ∃ run, TangentRuns poleSetting f (.finite false 1) 1 run ∧ ¬ run.factor.Denotes 0 ∧
        run.fit.HasCoefficientsUpTo Precision.single.format.maxValue ∧
        ∀ v, ¬ run.value.Denotes v := by
  constructor
  · obtain ⟨f, hbuilds, hfits⟩ :=
      exists_linearTangent (-3 / 4) (Expr.codable_of_all (by decide +kernel) _)
    obtain ⟨hdenotes, hmember⟩ := isMember_examples nextToPole List.mem_cons_self
    obtain ⟨run, hruns, -⟩ := exists_tangentRuns hbuilds hdenotes hmember
    have hnumber : run.number = 1 / 2 := hruns.measured.eq_of_all (by decide +kernel)
    have hleft : remainder run.number = 1 / 2 := by
      rw [hnumber]
      decide +kernel
    have hpole : run.factor.Denotes 0 :=
      hruns.factor_zero_iff.mpr (by rw [hleft]; exact abs_of_pos one_half_pos)
    have houtside : ¬ run.fit.request.Contains (1 / 2) := by
      rw [← List.singleton_inj.mp (hfits.symm.trans hruns.fits)]
      rintro ⟨low, high, -, hhigh, -, hto⟩
      obtain rfl : 499999 / 1000000 = high := Except.ok.inj (Eq.trans (by decide +kernel) hhigh)
      exact absurd hto (by norm_num)
    exact ⟨f, hbuilds, run, hruns, hleft, hleft ▸ houtside, hpole, hruns.not_denotes hpole⟩
  · obtain ⟨f, hbuilds, hfits⟩ :=
      exists_linearTangent hugeSlope (Expr.codable_of_all (by decide +kernel) _)
    obtain ⟨hdenotes, hmember⟩ := isMember_examples 1 (by simp)
    obtain ⟨run, hruns, -⟩ := exists_tangentRuns hbuilds hdenotes hmember
    have hfit := (List.singleton_inj.mp (hfits.symm.trans hruns.fits)).symm
    have hnumber : run.number = 10680707 / 33554432 := hruns.measured.eq_of_all (by decide +kernel)
    have hfactor : ¬ run.factor.Denotes 0 := by
      rw [hruns.factor_zero_iff, hnumber]
      decide +kernel
    refine ⟨f, hbuilds, run, hruns, hfactor, ?_, hruns.overflows hfit⟩
    rw [hfit]
    exact List.forall_mem_singleton.mpr ⟨hugeSlope, rfl, by decide +kernel⟩

end Trigonometric

end Elementary
