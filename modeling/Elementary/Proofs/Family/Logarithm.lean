import Elementary.Proofs.Family.Exponential
import Elementary.Proofs.Family.Reduction

/-!
# The reduction of a logarithm

A logarithm splits a positive argument into a mantissa and a power of two, and halves a mantissa
above the square root of two. Both assignments that this takes are made under one condition, so the
two parts still make up the argument. Taking one off the mantissa is exact, since the mantissa is at
most twice and at least half as large. Only the denominator and the quotient are rounded, and there
is room for that between the quotient and the bound of the fit.

## Main definitions

* `Exponential.ReducesLogarithm`: what comes about when a logarithm reduces an argument.

## Main results

* `Exponential.abs_quotient_le`: the rounded quotient lies in the domain of the fit.
* `Exponential.logarithm_reduces`: the logarithms reduce every positive number exactly.
-/

namespace Elementary

open Expr (Assigns)
open Setting (variableIn)

namespace Exponential

variable {p : Precision} {nt : NumberType} {env : Bindings Scalar} {s : Setting}
  {f : GeneratedFunction} {base : Base} {a m : Rat}

/-! ### The mantissa around one -/

/-- The square root of two, quantized, and a bound for the quotient that is a number of both
precisions and leaves room for the rounded denominator. -/
theorem sqrt2_facts (p : Precision) :
    1 ≤ ExactConstant.quantized p "sqrt2" ∧ ExactConstant.quantized p "sqrt2" ≤ 3 / 2 ∧
      ExactConstant.quantized p "sqrt2" - 1 ≤
        11245 / 65536 * (ExactConstant.quantized p "sqrt2" + 1 - pow2 (-23)) ∧
      1 - ExactConstant.quantized p "sqrt2" / 2 ≤
        11245 / 65536 * (ExactConstant.quantized p "sqrt2" / 2 + 1 - pow2 (-23)) := by
  cases p <;> decide +kernel

/-- A mantissa **around one**: between half of the quantized square root of two and all of it. -/
def IsCentredMantissa (p : Precision) (m : Rat) : Prop :=
  ExactConstant.quantized p "sqrt2" / 2 ≤ m ∧ m ≤ ExactConstant.quantized p "sqrt2"

namespace IsCentredMantissa

/-- **Taking one off** is exact. -/
theorem has_sub_one (h : IsCentredMantissa p m) (hm : p.Has m) : p.Has (m - 1) := by
  obtain ⟨hone, htwo, -, -⟩ := sqrt2_facts p
  obtain ⟨hlow, hhigh⟩ := h
  refine hm.sub_of_near Precision.has_one ?_ ?_
  · rw [abs_of_pos (by linarith : 0 < m), abs_le]
    constructor <;> linarith
  · rw [abs_one, abs_le]
    constructor <;> linarith

/-- The rounded denominator is between one and three, near to the exact one. -/
theorem round_add_one (h : IsCentredMantissa p m) :
    1 ≤ p.format.round (m + 1) ∧ p.format.round (m + 1) ≤ 3 ∧
      m + 1 - pow2 (-23) ≤ p.format.round (m + 1) := by
  obtain ⟨hone, htwo, -, -⟩ := sqrt2_facts p
  obtain ⟨hlow, hhigh⟩ := h
  have hthree : p.Has 3 := by
    exact_mod_cast Precision.has_intCast (n := 3) (by cases p <;> decide)
  refine ⟨Precision.has_one.le_round (by linarith), hthree.round_le (by linarith), ?_⟩
  · have hbelow : |m + 1| < pow2 2 := by
      rw [pow2_two, abs_lt]
      constructor <;> linarith
    have herror := Format.abs_sub_round_le_pow2 hbelow
      (by cases p <;> decide : p.format.minNormalExponent < 2)
    have hunit : pow2 (2 - p.format.fieldSize - 2) ≤ pow2 (-23) :=
      pow2_le_pow2.mpr (by cases p <;> decide)
    linarith [(abs_le.mp (herror.trans hunit)).2]

/-- **The quotient** is bounded by a number of the precision. -/
theorem abs_quotient_le (h : IsCentredMantissa p m) :
    |(m - 1) / p.format.round (m + 1)| ≤ 11245 / 65536 := by
  obtain ⟨hone, -, habove, hbelow⟩ := sqrt2_facts p
  obtain ⟨hpos, -, hdenominator⟩ := h.round_add_one
  obtain ⟨hlow, hhigh⟩ := h
  rw [abs_div, abs_of_pos (by linarith : 0 < p.format.round (m + 1)),
    div_le_iff₀ (by linarith), abs_le]
  constructor <;> linarith

/-- **The rounded quotient** lies in the domain of the fit. -/
theorem abs_round_quotient_le (h : IsCentredMantissa p m) :
    |p.format.round ((m - 1) / p.format.round (m + 1))| ≤ 11245 / 65536 := by
  have hbits : pow2 (-16) = 1 / 65536 := by norm_num [pow2]
  have hcount : ((11245 : Int) : Rat) * pow2 (-16) = 11245 / 65536 := by
    rw [hbits]
    norm_num
  have hbound : p.Has (11245 / 65536) := by
    rw [← hcount]
    exact Precision.has_intCast_mul (by cases p <;> decide) (by cases p <;> decide)
      (by cases p <;> decide +kernel)
  exact Precision.abs_round_le hbound h.abs_quotient_le

end IsCentredMantissa

/-- The **exponent and the mantissa** of a positive number, the mantissa around one. -/
def centred (p : Precision) (a : Rat) : Int × Rat :=
  if ExactConstant.quantized p "sqrt2" < a * pow2 (-floorLog2 a) then
    (floorLog2 a + 1, a * pow2 (-(floorLog2 a + 1)))
  else (floorLog2 a, a * pow2 (-floorLog2 a))

theorem centred_fst (p : Precision) (a : Rat) : ((centred p a).1 : Rat) =
    if ExactConstant.quantized p "sqrt2" < a * pow2 (-floorLog2 a) then (floorLog2 a : Rat) + 1
    else (floorLog2 a : Rat) := by
  unfold centred
  split
  · exact Int.cast_add _ 1
  · rfl

theorem centred_snd (p : Precision) (a : Rat) : (centred p a).2 =
    if ExactConstant.quantized p "sqrt2" < a * pow2 (-floorLog2 a) then
      a * pow2 (-(floorLog2 a + 1))
    else a * pow2 (-floorLog2 a) :=
  apply_ite Prod.snd _ _ _

/-- Half of a mantissa belongs to the next exponent. -/
theorem half_mantissa (a : Rat) :
    a * pow2 (-floorLog2 a) * (1 / 2) = a * pow2 (-(floorLog2 a + 1)) := by
  have htwice := pow2_add_one (-(floorLog2 a + 1))
  rw [show -(floorLog2 a + 1) + 1 = -floorLog2 a by ring] at htwice
  rw [htwice]
  ring

/-- **They make up the number**, and the mantissa is around one. -/
theorem centred_spec (ha : 0 < a) :
    a = (centred p a).2 * pow2 (centred p a).1 ∧ IsCentredMantissa p (centred p a).2 := by
  obtain ⟨hone, htwo, -, -⟩ := sqrt2_facts p
  obtain ⟨hlow, hhigh⟩ := mantissa_bounds ha
  unfold centred
  split
  · next hbig =>
    have hhalf := half_mantissa a
    refine ⟨?_, ?_, ?_⟩
    · rw [mul_assoc, ← pow2_add, neg_add_cancel, pow2_zero, mul_one]
    · linarith
    · linarith
  · next hsmall =>
    exact ⟨(mantissa_mul_pow2 a).symm, by linarith, not_lt.mp hsmall⟩

/-! ### The statements -/

/-- What comes about when a logarithm reduces an argument: its fit with the scheme, the bindings
under which the scheme is evaluated, and the numbers that are bound. -/
structure LogarithmRun where
  fit : Fit.Result
  scheme : Expr
  bindings : Bindings Scalar
  exponent : Int
  mantissa : Rat
  quotient : Rat

/-- A logarithm **reduces an argument**: six assignments split it into a power of two and a mantissa
around one, from which one is taken off without any error, and the rounded quotient lies in the
domain of the fit. -/
structure ReducesLogarithm (base : Base) (s : Setting) (f : GeneratedFunction) (x : Datum) (a : Rat)
    (run : LogarithmRun) : Prop where
  requests : (LibraryFunction.logarithm base).requests s = [run.fit.request]
  fits : f.fits = [run.fit]
  expression : run.fit.expression = .ok run.scheme
  statements : f.statements = (logarithmBody s.numberType (ExactConstant.expr base.logarithmOfTwo)
    run.scheme).map (Expr.coded s.numberType)
  assigns : ∀ calls, Assigns (Emulation.arithmetic s.numberType.precision) calls
    (f.statements.take 6) [("arg", .number (.binary s.numberType.precision x))] run.bindings
  bindsExponent : BindsNumber s.numberType.precision run.bindings "e" run.exponent
  bindsMantissa : BindsNumber s.numberType.precision run.bindings "m" run.mantissa
  bindsQuotient : BindsNumber s.numberType.precision run.bindings "t" run.quotient
  split : a = run.mantissa * pow2 run.exponent
  centred : IsCentredMantissa s.numberType.precision run.mantissa
  difference : ∀ env, BindsNumber s.numberType.precision env "m" run.mantissa →
    (variableIn s.numberType "m" - 1).Denotes s.numberType env (run.mantissa - 1)
  rounded : run.quotient = s.numberType.precision.format.round
    ((run.mantissa - 1) / s.numberType.precision.format.round (run.mantissa + 1))
  bounded : |run.quotient| ≤ 1716 / 10000
  contains : run.fit.request.Contains run.quotient

/-- **Taking one off** a mantissa around one. -/
theorem denotes_sub_one (hm : (variableIn nt "m").Denotes nt env m)
    (h : IsCentredMantissa nt.precision m) : (variableIn nt "m" - 1).Denotes nt env (m - 1) :=
  hm.exact .subtraction Expr.Denotes.one rfl (h.has_sub_one hm.has)

/-- **The quotient**, whose denominator is rounded. -/
theorem denotes_quotient (hm : (variableIn nt "m").Denotes nt env m)
    (h : IsCentredMantissa nt.precision m) :
    ((variableIn nt "m" - 1) / (variableIn nt "m" + 1)).Denotes nt env
      (nt.precision.format.round ((m - 1) / nt.precision.format.round (m + 1))) := by
  obtain ⟨hpos, hthree, -⟩ := h.round_add_one
  have hmax : (4 : Rat) ≤ nt.precision.format.maxValue := by
    cases nt.precision <;> decide +kernel
  have hsum : |nt.precision.format.round (m + 1)| ≤ nt.precision.format.maxValue := by
    rw [abs_of_pos (by linarith)]
    linarith
  have hdenominator := hm.binary .addition Expr.Denotes.one rfl hsum
  refine (denotes_sub_one hm h).binary .division hdenominator ?_ ?_
  · rw [Rational.numberOperation, if_neg (by linarith)]
  · linarith [h.abs_round_quotient_le]

/-- The exponents of a precision, and the next one, are numbers of it. -/
theorem has_exponent_add_one (hp : p.Has a) (ha : 0 < a) : p.Has ((floorLog2 a : Rat) + 1) := by
  have hcount := hp.two_mul_natAbs_exponent_le ha
  have hroom : 2 ≤ 2 ^ p.format.fieldSize := by cases p <;> decide
  have hnext : p.Has ((floorLog2 a + 1 : Int) : Rat) := Precision.has_intCast (by omega)
  rwa [Int.cast_add, Int.cast_one] at hnext

/-- **A choice between two numbers.** -/
theorem denotes_ite {v w : Value Scalar} {q r : Rat} (c : Prop) [Decidable c]
    (hv : v.Denotes p q) (hw : w.Denotes p r) :
    (if decide c then v else w).Denotes p (if c then q else r) := by
  by_cases hc : c
  · rwa [decide_eq_true hc, if_pos rfl, if_pos hc]
  · rwa [decide_eq_false hc, if_neg Bool.false_ne_true, if_neg hc]

/-- **The statements of the reduction** bind the exponent, the mantissa and the quotient. -/
theorem exists_assigns_logarithm {arg : Value Scalar} (harg : arg.Denotes nt.precision a)
    (ha : 0 < a) (constant scheme : Expr) :
    ∃ env : Bindings Scalar, (∀ calls, Assigns (Emulation.arithmetic nt.precision) calls
        (((logarithmBody nt constant scheme).take 6).map (Expr.coded nt)) [("arg", arg)] env) ∧
      BindsNumber nt.precision env "e" (centred nt.precision a).1 ∧
      BindsNumber nt.precision env "m" (centred nt.precision a).2 ∧
      BindsNumber nt.precision env "t" (nt.precision.format.round
        (((centred nt.precision a).2 - 1) /
          nt.precision.format.round ((centred nt.precision a).2 + 1))) := by
  have hτ := changesConstants_coded nt
  have hx (env : Bindings Scalar) (h : env.lookup "arg" = some arg) :
      (variableIn nt "arg").Denotes nt env a := .var harg h
  obtain ⟨e, he, hexponent⟩ := (hx [("arg", arg)] rfl).exponent ha
  obtain ⟨m, hm, hmantissa⟩ := (hx [("e", e), ("arg", arg)] rfl).mantissa ha
  -- the condition of both choices
  have hnamed : (ExactConstant.named "sqrt2").Denotes nt [("m", m), ("e", e), ("arg", arg)]
      (ExactConstant.quantized nt.precision "sqrt2") :=
    .named (Expr.codable_of_all (by decide +kernel) nt)
  obtain ⟨w, hw, hsqrt2⟩ := hnamed
  have hbig := Emulation.compare_eq .greater hm hw
  rw [Relation.between] at hbig
  generalize hc : decide (ExactConstant.quantized nt.precision "sqrt2" <
    a * pow2 (-floorLog2 a)) = big at hbig
  -- both are evaluated, whatever is chosen
  have hmvar : (variableIn nt "m").Denotes nt [("big", .truth big), ("m", m), ("e", e),
      ("arg", arg)] (a * pow2 (-floorLog2 a)) := .var hm rfl
  obtain ⟨m', hm', hhalved⟩ := hmvar.exact .multiplication Expr.Denotes.half
    (congrArg (fun q => Except.ok (Value.number q)) (half_mantissa a))
    (harg.has.scaled ha zero_le_one le_rfl)
  have hmchosen := denotes_ite (ExactConstant.quantized nt.precision "sqrt2" <
    a * pow2 (-floorLog2 a)) hm' hm
  rw [hc, ← centred_snd] at hmchosen
  have hevar : (variableIn nt "e").Denotes nt [("m", if big then m' else m), ("big", .truth big),
      ("m", m), ("e", e), ("arg", arg)] (floorLog2 a : Int) := .var he rfl
  obtain ⟨e', he', hnext⟩ := hevar.exact .addition Expr.Denotes.one rfl
    (has_exponent_add_one harg.has ha)
  have hechosen := denotes_ite (ExactConstant.quantized nt.precision "sqrt2" <
    a * pow2 (-floorLog2 a)) he' he
  rw [hc, ← centred_fst] at hechosen
  -- the quotient of what was chosen
  have hcentred : (variableIn nt "m").Denotes nt [("e", if big then e' else e),
      ("m", if big then m' else m), ("big", .truth big), ("m", m), ("e", e), ("arg", arg)]
      (centred nt.precision a).2 := .var hmchosen rfl
  obtain ⟨t, ht, hquotient⟩ := denotes_quotient hcentred (centred_spec ha).2
  refine ⟨[("t", t), ("e", if big then e' else e), ("m", if big then m' else m),
    ("big", .truth big), ("m", m), ("e", e), ("arg", arg)], fun calls => ?_, ⟨_, rfl, hechosen⟩,
    ⟨_, rfl, hmchosen⟩, ⟨t, rfl, ht⟩⟩
  refine hτ.assigns_cons (hexponent calls) (hτ.assigns_cons (hmantissa calls) (hτ.assigns_cons
    (hτ.gives_compare (hτ.gives_var rfl) (hsqrt2 calls) hbig) ?_))
  refine hτ.assigns_cons (hτ.gives_select (hτ.gives_var rfl) (hhalved calls) (hτ.gives_var rfl)) ?_
  refine hτ.assigns_cons (hτ.gives_select (hτ.gives_var rfl) (hnext calls) (hτ.gives_var rfl)) ?_
  exact hτ.assigns_cons (hquotient calls) .nil

/-- **Every logarithm** reduces the positive numbers. -/
theorem exists_reducesLogarithm (h : (LibraryFunction.logarithm base).Builds s f) {x : Datum}
    (hx : x.Denotes a) (hmember : x.IsMember s.numberType.precision.format) (ha : 0 < a) :
    ∃ run, ReducesLogarithm base s f x a run := by
  obtain ⟨fits, c, hrequests, hschemes, -, rfl⟩ := h.exists_ingredients
  obtain ⟨fit, rfl, hfit⟩ := List.map_eq_singleton_iff.mp hrequests
  obtain ⟨env, hassigns, hexponent, hmantissa, hquotient⟩ :=
    exists_assigns_logarithm ⟨x, hx, hmember, rfl⟩ ha (ExactConstant.expr base.logarithmOfTwo)
      (c.polynomial 0)
  obtain ⟨hsplit, hcentred⟩ := centred_spec (p := s.numberType.precision) ha
  have hbounded := hcentred.abs_round_quotient_le
  have hbounds : (Number.literal ("-" ++ reducedBound)).toRat = .ok (-(1716 / 10000)) ∧
      (Number.literal reducedBound).toRat = .ok (1716 / 10000) := by decide +kernel
  refine ⟨⟨fit, c.polynomial 0, env, _, _, _⟩, hfit ▸ rfl, rfl,
    LibraryFunction.expression_polynomial hschemes rfl, rfl, fun calls => ?_, hexponent, hmantissa,
    hquotient, hsplit, hcentred, ?_, rfl, hbounded.trans (by norm_num), ?_⟩
  · exact List.map_take ▸ hassigns calls
  · rintro env ⟨v, hlookup, hv⟩
    exact denotes_sub_one (.var hv hlookup) hcentred
  · have hroom := abs_le.mp (hbounded.trans (by norm_num : (11245 / 65536 : Rat) ≤ 1716 / 10000))
    rw [hfit]
    exact ⟨_, _, hbounds.1, hbounds.2, hroom.1, hroom.2⟩

/-! ### Exact arithmetic -/

section Exact

variable {τ : Expr → Expr} {calls : Calls Rat} {bindings : Bindings Rat}

/-- **The quotient in exact arithmetic**, with the constants quantized or not. -/
theorem hasValue_quotient (hτ : τ = id ∨ τ = Expr.coded nt) (hm : m ≠ -1)
    (h : bindings.lookup "m" = some (.number m)) :
    (τ ((variableIn nt "m" - 1) / (variableIn nt "m" + 1))).HasValue calls bindings
      ((m - 1) / (m + 1)) := by
  have hchanges := changesConstants_of_quantized hτ
  have hone : (τ 1).HasValue calls bindings 1 := Rational.hasValue_one hτ calls bindings
  have hmvar : (τ (variableIn nt "m")).HasValue calls bindings m := hchanges.gives_var h
  have hdivision : Rational.arithmetic.operation .division [.number (m - 1), .number (m + 1)] =
      .ok (.number ((m - 1) / (m + 1))) :=
    (Rational.operation_numbers .division [m - 1, m + 1]).trans
      (if_neg fun hzero => hm (eq_neg_of_add_eq_zero_left hzero))
  exact hchanges.gives_binary rfl rfl (hchanges.gives_sub hmvar hone rfl)
    (hchanges.gives_add hmvar hone rfl) hdivision

/-- **The target** takes the logarithm of the mantissa, where its variable is bound to the
quotient. -/
theorem exists_logarithmTarget (base : Base) (calls : Calls Rat) (hm : m ≠ -1) :
    ∃ operand, logarithmTarget base = .mathFunction base.name [operand] ∧
      ∀ bindings : Bindings Rat, bindings.lookup "t" = some (.number ((m - 1) / (m + 1))) →
        operand.HasValue calls bindings m := by
  refine ⟨(1 + .var "t") / (1 - .var "t"), rfl, fun bindings h => ?_⟩
  have hone : (1 : Expr).HasValue calls bindings 1 := .constant rfl
  have ht : (Expr.var "t").HasValue calls bindings ((m - 1) / (m + 1)) := .var h
  have hsum : (1 + Expr.var "t").HasValue calls bindings (1 + (m - 1) / (m + 1)) :=
    .operation rfl (.cons hone (.cons ht .nil)) rfl
  have hdifference : (1 - Expr.var "t").HasValue calls bindings (1 - (m - 1) / (m + 1)) :=
    .operation rfl (.cons hone (.cons ht .nil)) rfl
  have hdenominator : m + 1 ≠ 0 := fun hzero => hm (eq_neg_of_add_eq_zero_left hzero)
  have htwo : 1 - (m - 1) / (m + 1) = 2 / (m + 1) := by
    field_simp
    ring
  have hmantissa : (1 + (m - 1) / (m + 1)) / (1 - (m - 1) / (m + 1)) = m := by
    rw [htwo]
    field_simp
    ring
  refine .operation rfl (.cons hsum (.cons hdifference .nil)) ?_
  rw [Rational.numberOperation, if_neg (htwo ▸ div_ne_zero two_ne_zero hdenominator), hmantissa]

end Exact

/-- **The reduction of a logarithm is exact and stays in the domain of the fit.** Every logarithm
that was built splits every positive number of its precision into a power of two and a mantissa
around one, takes one off the mantissa without any error, and rounds a quotient that lies in the
domain of the fit. Without rounding the quotient is the one from which the target of the fit takes
the logarithm of the mantissa. -/
theorem logarithm_reduces (s : Setting) (base : Base) :
    (∀ f, (LibraryFunction.logarithm base).Builds s f → ∀ (x : Datum) (a : Rat), x.Denotes a →
      x.IsMember s.numberType.precision.format → 0 < a → ∃ run, ReducesLogarithm base s f x a run) ∧
    ∀ (τ : Expr → Expr), τ = id ∨ τ = Expr.coded s.numberType → ∀ (calls : Calls Rat) (m : Rat),
      m ≠ -1 →
        (∀ bindings : Bindings Rat, bindings.lookup "m" = some (.number m) →
          (τ ((variableIn s.numberType "m" - 1) / (variableIn s.numberType "m" + 1))).HasValue calls
            bindings ((m - 1) / (m + 1))) ∧
        ∃ operand, logarithmTarget base = .mathFunction base.name [operand] ∧
          ∀ bindings : Bindings Rat, bindings.lookup "t" = some (.number ((m - 1) / (m + 1))) →
            operand.HasValue calls bindings m :=
  ⟨fun _ h _ _ hx hmember ha => exists_reducesLogarithm h hx hmember ha,
    fun _ hτ calls _ hm =>
      ⟨fun _ h => hasValue_quotient hτ hm h, exists_logarithmTarget base calls hm⟩⟩

/-- Three of the smallest subnormal numbers of single precision, whose mantissa is halved, and the
mantissa three in exact arithmetic. -/
theorem logarithm_reduces_subnormal :
    ∃ (f : GeneratedFunction) (run : LogarithmRun),
      (LibraryFunction.logarithm .two).Builds ⟨⟨.single, false⟩, 32, .standard⟩ f ∧
      3 * pow2 (-149) = run.mantissa * pow2 run.exponent ∧ |run.quotient| ≤ 1716 / 10000 ∧
      run.fit.request.Contains run.quotient ∧
      ((variableIn ⟨.single, false⟩ "m" - 1) / (variableIn ⟨.single, false⟩ "m" + 1)).HasValue
        (fun _ => none) [("m", .number 3)] (1 / 2) := by
  obtain ⟨f, hf⟩ := Library.exists_builds ⟨⟨.single, false⟩, 32, .standard⟩ (.logarithm .two)
  have hpos : (0 : Rat) < 3 * pow2 (-149) := mul_pos three_pos (pow2_pos _)
  have hmember : (Datum.finite false (3 * pow2 (-149))).IsMember Precision.single.format :=
    Datum.isMember_finite.mpr ⟨hpos.le, by decide +kernel, by decide +kernel⟩
  obtain ⟨hruns, hexact⟩ := logarithm_reduces ⟨⟨.single, false⟩, 32, .standard⟩ .two
  obtain ⟨run, hrun⟩ := hruns f hf _ _ (.finite false hpos.le) hmember hpos
  obtain ⟨hquotient, -⟩ := hexact id (.inl rfl) (fun _ => none) 3 (by norm_num)
  have hhalf : ((3 : Rat) - 1) / (3 + 1) = 1 / 2 := by norm_num
  exact ⟨f, run, hf, hrun.split, hrun.bounded, hrun.contains, hhalf ▸ hquotient _ rfl⟩

end Exponential

end Elementary
