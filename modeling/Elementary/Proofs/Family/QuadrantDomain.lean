import Elementary.Proofs.Family.Quadrant
import Elementary.Proofs.Family.Reduction

/-!
# Quadrants in the emulation

The sine and the cosine over quadrants take the nearest integers off the measured argument and off
half a unit more. In the emulation of a precision the half unit is added with rounding, but both
integers are taken off exactly, and of what is left one is a quarter at most. So the scheme whose
value is chosen is evaluated in the domain of its fit, for every finite argument.

## Main definitions

* `SplitsTwice`: a number and half a unit more, with their integers taken off.
* `FitGives`: what the scheme of a fit gives in the domain of the fit, or the opposite.
* `ReducesQuadrants`: what comes about when a function over quadrants runs.

## Main results

* `Emulation.exists_quadrantValues`: the values on the way.
* `LibraryFunction.quadrant_remainders`: the functions over quadrants.
-/

namespace Elementary

open Expr (Gives Assigns)

variable {p : Precision} {q : Rat}

/-- A number **is split twice**: it is bound to `x`, with half a unit more it is rounded and bound
to `xh`, and what is left of the two without their nearest integers is bound without any error.
Neither is more than one half, and one is a quarter at most. -/
structure SplitsTwice (p : Precision) (env : Bindings Scalar) (near far : String) (q : Rat) :
    Prop where
  measured : BindsNumber p env "x" q
  shifted : BindsNumber p env "xh" (p.format.round (q + 1 / 2))
  nearest : BindsNumber p env "xr" (roundHalfEven q : Int)
  shiftedNearest : BindsNumber p env "xhr" (roundHalfEven (p.format.round (q + 1 / 2)) : Int)
  left : BindsNumber p env near (remainder q)
  shiftedLeft : BindsNumber p env far (remainder (p.format.round (q + 1 / 2)))
  le_half : |remainder q| ≤ 1 / 2
  shifted_le_half : |remainder (p.format.round (q + 1 / 2))| ≤ 1 / 2
  le_quarter : |remainder q| ≤ 1 / 4 ∨ |remainder (p.format.round (q + 1 / 2))| ≤ 1 / 4

/-- A value comes **from a fit in its domain**: the variable of the fit is bound to a number in the
domain, and the value is the one that the scheme of the fit gives there, or its opposite. -/
def FitGives (nt : NumberType) (calls : Calls Scalar) (env : Bindings Scalar) (fit : Fit.Result)
    (value : Value Scalar) : Prop :=
  ∃ scheme r y, fit.expression = .ok scheme ∧
    BindsNumber nt.precision env fit.request.argument r ∧ fit.request.Contains r ∧
    (scheme.coded nt).Gives (Emulation.arithmetic nt.precision) calls env
      (.number (.binary nt.precision y)) ∧
    (value = .number (.binary nt.precision y) ∨ value = .number (.binary nt.precision y.neg))

/-- What comes about when a function over quadrants runs: the bindings after its assignments, the
measured argument, the fit that is chosen, and the value. -/
structure QuadrantRun where
  bindings : Bindings Scalar
  number : Rat
  fit : Fit.Result
  value : Value Scalar

/-- A function **reduces an argument to quadrants**: its assignments split the measured argument
twice, and the value comes from the fit in whose variable a quarter at most is left. -/
structure ReducesQuadrants (s : Setting) (near far : String) (calls : Calls Scalar)
    (f : GeneratedFunction) (x : Datum) (run : QuadrantRun) : Prop where
  requests : f.fits.map (·.request) = LibraryFunction.quadrantRequests s
  assigns : Assigns (Emulation.arithmetic s.numberType.precision) calls f.statements.dropLast
    [("arg", .number (.binary s.numberType.precision x))] run.bindings
  splits : SplitsTwice s.numberType.precision run.bindings near far run.number
  isFit : run.fit ∈ f.fits
  chosen : run.fit.request.argument = if |remainder run.number| ≤ 1 / 4 then near else far
  gives : FitGives s.numberType calls run.bindings run.fit run.value

/-! ### The values on the way -/

namespace Trigonometric.QuadrantValues

/-- The values on the way **denote numbers** of a precision, all exact but half a unit more. -/
structure Denotes (p : Precision) (w : QuadrantValues Scalar) (q : Rat) : Prop where
  x : w.x.Denotes p q
  xh : w.xh.Denotes p (p.format.round (q + 1 / 2))
  xr : w.xr.Denotes p (roundHalfEven q : Int)
  xhr : w.xhr.Denotes p (roundHalfEven (p.format.round (q + 1 / 2)) : Int)
  near : w.near.Denotes p (remainder q)
  far : w.far.Denotes p (remainder (p.format.round (q + 1 / 2)))
  isSmall : w.isSmall = decide (|remainder q| ≤ 1 / 4)

/-- The two fits of a body are for what is left of the measured argument, and for what is left of
half a unit more. -/
theorem Denotes.splitsTwice {w : QuadrantValues Scalar} (hw : w.Denotes p q) {near far : String}
    (hnames : (near, far) ∈ [("s", "c"), ("c", "s")]) (sr cr ss cs : Value Scalar)
    (env : Bindings Scalar) :
    SplitsTwice p (w.bindings near far sr cr ss cs env) near far q := by
  have hquarter : |remainder q| ≤ 1 / 4 ∨ |remainder (p.format.round (q + 1 / 2))| ≤ 1 / 4 :=
    or_iff_not_imp_left.mpr fun hlarge => hw.x.has.remainder_add_half (not_le.mp hlarge)
  simp only [List.mem_cons, List.not_mem_nil, or_false, Prod.mk.injEq] at hnames
  rcases hnames with ⟨rfl, rfl⟩ | ⟨rfl, rfl⟩ <;>
    exact ⟨⟨_, rfl, hw.x⟩, ⟨_, rfl, hw.xh⟩, ⟨_, rfl, hw.xr⟩, ⟨_, rfl, hw.xhr⟩, ⟨_, rfl, hw.near⟩,
      ⟨_, rfl, hw.far⟩, abs_remainder_le_half _, abs_remainder_le_half _, hquarter⟩

end Trigonometric.QuadrantValues

/-- **The values on the way in the emulation**: every finite number can be split twice. -/
theorem Emulation.exists_quadrantValues {v half quarter : Value Scalar} (hv : v.Denotes p q)
    (hhalf : half.Denotes p (1 / 2)) (hquarter : quarter.Denotes p (1 / 4)) :
    ∃ w : Trigonometric.QuadrantValues Scalar, w.Follows (arithmetic p) ∧ w.Denotes p q ∧
      w.x = v ∧ w.half = half ∧ w.quarter = quarter := by
  obtain ⟨xh, hshift, hxh⟩ := exists_addition hv hhalf hv.has.abs_round_add_half_le
  obtain ⟨xr, near, hnearest, hxr, hleft, hnear⟩ := exists_remainder hv
  obtain ⟨xhr, far, hshiftedNearest, hxhr, hshiftedLeft, hfar⟩ := exists_remainder hxh
  obtain ⟨size, habsolute, hsize⟩ := exists_absolute hnear
  exact ⟨⟨v, half, xh, xr, xhr, near, far, size, quarter, _⟩,
    ⟨hshift, hnearest, hshiftedNearest, hleft, hshiftedLeft, habsolute,
      compare_eq .lessOrEqual hsize hquarter⟩,
    ⟨hv, hxh, hxr, hxhr, hnear, hfar, rfl⟩, rfl, rfl, rfl⟩

namespace Trigonometric

variable {nt : NumberType} {arg : Value Scalar} {a : Rat}

/-- **The values on the way of a quantized body**: the argument is measured in half periods, and the
measured argument is split twice. -/
theorem exists_follows (harg : arg.Denotes nt.precision a) :
    ∃ q w, QuadrantValues.Follows (Emulation.arithmetic nt.precision) w ∧
      w.Denotes nt.precision q ∧
      (∀ calls env, env.lookup "arg" = some arg →
        ((Setting.variableIn nt "arg" * ExactConstant.expr perHalfPeriod).coded nt).Gives
          (Emulation.arithmetic nt.precision) calls env w.x) ∧
      (∀ calls env, ((0.5 : Expr).coded nt).Gives (Emulation.arithmetic nt.precision) calls env
        w.half) ∧
      ∀ calls env, ((0.25 : Expr).coded nt).Gives (Emulation.arithmetic nt.precision) calls env
        w.quarter := by
  obtain ⟨-, hexactQuarter, hexactHalf, -⟩ := Expr.isExactConstant_written nt
  obtain ⟨q, v, -, hv, hmeasured⟩ :=
    exists_measured (List.mem_cons_of_mem _ List.mem_cons_self) harg
  obtain ⟨half, hhalf, hgivesHalf⟩ := Emulation.exists_coded_exact hexactHalf
  obtain ⟨quarter, hquarter, hgivesQuarter⟩ := Emulation.exists_coded_exact hexactQuarter
  obtain ⟨w, hfollows, hw, rfl, rfl, rfl⟩ := Emulation.exists_quadrantValues hv hhalf hquarter
  exact ⟨q, w, hfollows, hw, hmeasured, hgivesHalf, hgivesQuarter⟩

end Trigonometric

/-! ### The fits -/

/-- Where a number in the domain of a centred fit is bound to the variable, **the fit gives** the
value of its scheme, or the opposite. -/
theorem IsCentredFit.fitGives {nt : NumberType} {fit : Fit.Result} {name : String} {bound : Rat}
    {scheme : Expr} {calls : Calls Scalar} {env : Bindings Scalar} {y y' : Datum}
    (h : IsCentredFit nt fit name bound scheme) (hbinds : BindsNumber nt.precision env name q)
    (hq : |q| ≤ bound)
    (hy : (scheme.coded nt).Gives (Emulation.arithmetic nt.precision) calls env
      (.number (.binary nt.precision y))) (hy' : y' = y ∨ y' = y.neg) :
    FitGives nt calls env fit (.number (.binary nt.precision y')) := by
  refine ⟨scheme, q, y, h.expression, h.argument.symm ▸ hbinds, h.contains hq, hy, ?_⟩
  exact hy'.imp (fun h => by rw [h]) fun h => by rw [h]

namespace LibraryFunction

variable {s : Setting} {F : LibraryFunction} {f g : GeneratedFunction}

/-- A **function over quadrants** that was built has two fits, the first for the sine and the second
for the cosine. -/
theorem exists_quarterFits (hF : F ∈ [sine .quadrant, cosine .quadrant]) (h : F.Builds s f) :
    ∃ (first second : Fit.Result) (c : Ingredients), f.fits = [first, second] ∧
      f.fits.map (·.request) = quadrantRequests s ∧
      IsCentredFit s.numberType first "s" (1 / 4) (c.polynomial 0) ∧
      IsCentredFit s.numberType second "c" (1 / 4) (c.polynomial 1) ∧
      f.statements = (F.body s.numberType c).map (Expr.coded s.numberType) := by
  obtain ⟨fits, c, hfits, hschemes, hcodable, rfl⟩ := h.exists_ingredients
  have hrequests : F.requests s = quadrantRequests s := by
    simp only [List.mem_cons, List.not_mem_nil, or_false] at hF
    rcases hF with rfl | rfl <;> rfl
  have hpolynomials : (c.polynomial 0).Codable s.numberType ∧
      (c.polynomial 1).Codable s.numberType := by
    have hvalue {i : Nat} {target e : Expr}
        (hi : (F.body s.numberType c)[i]? = some (.assign target e)) : e.Codable s.numberType :=
      (hcodable _ (List.mem_of_getElem? hi)).operand (List.mem_cons_of_mem _ List.mem_cons_self)
    simp only [List.mem_cons, List.not_mem_nil, or_false] at hF
    rcases hF with rfl | rfl
    · exact ⟨hvalue (i := 6) rfl, (hvalue (i := 7) rfl).operand List.mem_cons_self⟩
    · exact ⟨hvalue (i := 6) rfl, hvalue (i := 7) rfl⟩
  have hbounds : (Number.literal "-0.25").toRat = .ok (-(1 / 4)) ∧
      (Number.literal "0.25").toRat = .ok (1 / 4) := by decide +kernel
  rw [hrequests] at hfits
  obtain ⟨first, rest, rfl, hfirst, hrest⟩ := List.map_eq_cons_iff.mp hfits
  obtain ⟨second, rfl, hsecond⟩ := List.map_eq_singleton_iff.mp hrest
  have hsine : IsCentredFit s.numberType first "s" (1 / 4) (c.polynomial 0) :=
    ⟨congrArg (·.argument) hfirst, (congrArg (·.low.toRat) hfirst).trans hbounds.1,
      (congrArg (·.high.toRat) hfirst).trans hbounds.2, expression_polynomial hschemes rfl,
      hpolynomials.1⟩
  have hcosine : IsCentredFit s.numberType second "c" (1 / 4) (c.polynomial 1) :=
    ⟨congrArg (·.argument) hsecond, (congrArg (·.low.toRat) hsecond).trans hbounds.1,
      (congrArg (·.high.toRat) hsecond).trans hbounds.2, expression_polynomial hschemes rfl,
      hpolynomials.2⟩
  exact ⟨first, second, c, rfl, hfits, hsine, hcosine, rfl⟩

/-- **A sign may be changed** in the emulation. -/
theorem exists_negated {k : Value Scalar} {n : Int} {y : Datum} (hg : negateOnOdd.Builds s g)
    (hk : k.Denotes s.numberType.precision n) (hy : y.IsMember s.numberType.precision.format)
    (find : String → Option GeneratedFunction) (depth : Nat) :
    ∃ y' : Datum, (y' = y ∨ y' = y.neg) ∧
      (Emulation.arithmetic s.numberType.precision).call find (depth + 1) g
        [k, .number (.binary s.numberType.precision y)] =
          .ok (.number (.binary s.numberType.precision y')) := by
  have hodd := Emulation.operation_isOdd hk
  have hargument : (Emulation.arithmetic s.numberType.precision).argument k = .ok k := by
    obtain ⟨_, -, hmember, rfl⟩ := hk
    exact Emulation.argument_binary hmember
  have hcall := call_negateOnOdd hg hargument (Emulation.argument_binary hy) hodd rfl find depth
  by_cases hn : n % 2 = 1
  · rw [decide_eq_true hn] at hcall
    exact ⟨_, .inr rfl, hcall⟩
  · rw [decide_eq_false hn] at hcall
    exact ⟨_, .inl rfl, hcall⟩

/-! ### Runs -/

section Runs

variable {near far : String} {nearFit farFit : Fit.Result} {e e' : Expr} {x y z y' z' : Datum}
  {a : Rat} {sr cr ss cs : Value Scalar} {calls : Calls Scalar}
  {find : String → Option GeneratedFunction}

/-- **The choice** is the one for the domains: of two values with signs, the one is chosen that
comes from the fit in whose variable a quarter at most is left. -/
theorem reducesQuadrants {w : Trigonometric.QuadrantValues Scalar} {env : Bindings Scalar}
    (hw : w.Denotes s.numberType.precision q) (hnames : (near, far) ∈ [("s", "c"), ("c", "s")])
    (hrequests : f.fits.map (·.request) = quadrantRequests s)
    (henv : env = w.bindings near far sr cr ss cs
      [("arg", .number (.binary s.numberType.precision x))])
    (hassigns : Assigns (Emulation.arithmetic s.numberType.precision) calls f.statements.dropLast
      [("arg", .number (.binary s.numberType.precision x))] env)
    (hnear : IsCentredFit s.numberType nearFit near (1 / 4) e) (hnearFit : nearFit ∈ f.fits)
    (hfar : IsCentredFit s.numberType farFit far (1 / 4) e') (hfarFit : farFit ∈ f.fits)
    (hy : (e.coded s.numberType).Gives (Emulation.arithmetic s.numberType.precision) calls env
      (.number (.binary s.numberType.precision y)))
    (hz : (e'.coded s.numberType).Gives (Emulation.arithmetic s.numberType.precision) calls env
      (.number (.binary s.numberType.precision z)))
    (hy' : y' = y ∨ y' = y.neg) (hz' : z' = z ∨ z' = z.neg) :
    ReducesQuadrants s near far calls f x ⟨env, q, if w.isSmall then nearFit else farFit,
      if w.isSmall then .number (.binary s.numberType.precision y')
        else .number (.binary s.numberType.precision z')⟩ := by
  have hsplits : SplitsTwice s.numberType.precision env near far q :=
    henv ▸ hw.splitsTwice hnames ..
  have hchoice := hw.isSmall
  by_cases hsmall : |remainder q| ≤ 1 / 4
  · rw [decide_eq_true hsmall] at hchoice
    rw [hchoice, if_pos rfl, if_pos rfl]
    exact ⟨hrequests, hassigns, hsplits, hnearFit, by rw [if_pos hsmall, hnear.argument],
      hnear.fitGives hsplits.left hsmall hy hy'⟩
  · -- too much is left of the number, so half a unit more leaves a quarter at most
    rw [decide_eq_false hsmall] at hchoice
    rw [hchoice, if_neg Bool.false_ne_true, if_neg Bool.false_ne_true]
    exact ⟨hrequests, hassigns, hsplits, hfarFit, by rw [if_neg hsmall, hfar.argument],
      hfar.fitGives hsplits.shiftedLeft (hsplits.le_quarter.resolve_left hsmall) hz hz'⟩

section Reductions

variable (hx : x.Denotes a) (hmember : x.IsMember s.numberType.precision.format)
  (hg : negateOnOdd.Builds s g) (calls : Calls Scalar) {depth : Nat}
  (hcalls : calls "negate_on_odd" =
    some ((Emulation.arithmetic s.numberType.precision).call find (depth + 1) g))

include hx hmember hg hcalls

/-- **The sine over quadrants runs.** -/
theorem quadrantSine_reduces (h : (sine .quadrant).Builds s f) :
    ∃ run, ReducesQuadrants s "s" "c" calls f x run ∧
      Expr.evaluateSequence (Emulation.arithmetic s.numberType.precision) calls f.statements
        [("arg", .number (.binary s.numberType.precision x))] = .ok (run.value, run.bindings) := by
  have hτ := changesConstants_coded s.numberType
  obtain ⟨first, second, c, hfits, hrequests, hfirst, hsecond, hstatements⟩ :=
    exists_quarterFits List.mem_cons_self h
  obtain ⟨q, w, hfollows, hw, hmeasured, hhalf, hquarter⟩ :=
    Trigonometric.exists_follows ⟨x, hx, hmember, rfl⟩
  obtain ⟨y, hy, hsine⟩ := hfirst.exists_gives hw.near
  obtain ⟨z, hz, hcosine⟩ := hsecond.exists_gives hw.far
  obtain ⟨y', hy', hss⟩ := exists_negated hg hw.xr hy find depth
  obtain ⟨z', hz', hcs⟩ := exists_negated hg hw.xhr hz.neg find depth
  -- the cosine was negated before its sign was changed once more
  rw [Datum.neg_neg, or_comm] at hz'
  have hassigns := Trigonometric.assigns_quadrantSine s.numberType hτ hfollows
    (hmeasured _ [("arg", _)] rfl) (hhalf _) hcalls (hsine _) (hcosine _) rfl hss hcs
  have hrun := Trigonometric.evaluate_quadrantSine hτ hfollows (hquarter _) hassigns
  rw [List.map_dropLast] at hassigns
  exact ⟨_, reducesQuadrants hw (by simp) hrequests rfl (hstatements ▸ hassigns) hfirst
    (hfits ▸ List.mem_cons_self) hsecond (hfits ▸ List.mem_cons_of_mem _ List.mem_cons_self)
    (hsine _ _ rfl) (hcosine _ _ rfl) hy' hz', hstatements ▸ hrun⟩

/-- **The cosine over quadrants runs.** -/
theorem quadrantCosine_reduces (h : (cosine .quadrant).Builds s f) :
    ∃ run, ReducesQuadrants s "c" "s" calls f x run ∧
      Expr.evaluateSequence (Emulation.arithmetic s.numberType.precision) calls f.statements
        [("arg", .number (.binary s.numberType.precision x))] = .ok (run.value, run.bindings) := by
  have hτ := changesConstants_coded s.numberType
  obtain ⟨first, second, c, hfits, hrequests, hfirst, hsecond, hstatements⟩ :=
    exists_quarterFits (List.mem_cons_of_mem _ List.mem_cons_self) h
  obtain ⟨q, w, hfollows, hw, hmeasured, hhalf, hquarter⟩ :=
    Trigonometric.exists_follows ⟨x, hx, hmember, rfl⟩
  obtain ⟨y, hy, hcosine⟩ := hsecond.exists_gives hw.near
  obtain ⟨z, hz, hsine⟩ := hfirst.exists_gives hw.far
  obtain ⟨y', hy', hcs⟩ := exists_negated hg hw.xr hy find depth
  obtain ⟨z', hz', hss⟩ := exists_negated hg hw.xhr hz find depth
  have hassigns := Trigonometric.assigns_quadrantCosine s.numberType hτ hfollows
    (hmeasured _ [("arg", _)] rfl) (hhalf _) hcalls (hcosine _) (hsine _) hss hcs
  have hrun := Trigonometric.evaluate_quadrantCosine hτ hfollows (hquarter _) hassigns
  rw [List.map_dropLast] at hassigns
  exact ⟨_, reducesQuadrants hw (by simp) hrequests rfl (hstatements ▸ hassigns) hsecond
    (hfits ▸ List.mem_cons_of_mem _ List.mem_cons_self) hfirst (hfits ▸ List.mem_cons_self)
    (hcosine _ _ rfl) (hsine _ _ rfl) hy' hz', hstatements ▸ hrun⟩

end Reductions

/-- **The quadrants cover every argument**, in the emulation of a precision. For every finite
argument the sine and the cosine over quadrants take the nearest integers off the measured argument
and off half a unit more without any error, although the half unit is added with rounding. What is
left is never more than one half, and once a quarter at most. So the value that is chosen comes from
a scheme that is evaluated in the domain of its fit. -/
theorem quadrant_remainders (s : Setting) (hx : x.Denotes a)
    (hmember : x.IsMember s.numberType.precision.format) (hg : negateOnOdd.Builds s g)
    (find : String → Option GeneratedFunction) (hfind : find "negate_on_odd" = some g) (depth : Nat)
    {near far : String}
    (hF : (F, near, far) ∈ [(sine .quadrant, "s", "c"), (cosine .quadrant, "c", "s")])
    (h : F.Builds s f) :
    ∃ run, ReducesQuadrants s near far (fun name => (find name).map
        ((Emulation.arithmetic s.numberType.precision).call find (depth + 1))) f x run ∧
      (Emulation.arithmetic s.numberType.precision).call find (depth + 2) f
        [.number (.binary s.numberType.precision x)] = .ok run.value := by
  have hcalls : (find "negate_on_odd").map
      ((Emulation.arithmetic s.numberType.precision).call find (depth + 1)) =
        some ((Emulation.arithmetic s.numberType.precision).call find (depth + 1) g) :=
    congrArg (Option.map _) hfind
  have hbound (hargs : f.arguments = ["arg"]) :
      (Emulation.arithmetic s.numberType.precision).bindArguments f.arguments
        [.number (.binary s.numberType.precision x)] =
          .ok [("arg", .number (.binary s.numberType.precision x))] :=
    hargs ▸ Arithmetic.bindArguments_singleton (Emulation.argument_binary hmember) "arg"
  simp only [List.mem_cons, List.not_mem_nil, or_false, Prod.mk.injEq] at hF
  rcases hF with ⟨rfl, rfl, rfl⟩ | ⟨rfl, rfl, rfl⟩
  · obtain ⟨run, hreduces, hrun⟩ :=
      quadrantSine_reduces hx hmember hg (fun name => (find name).map _) hcalls h
    exact ⟨run, hreduces, Arithmetic.call_eq (hbound h.isBuilt.arguments) hrun⟩
  · obtain ⟨run, hreduces, hrun⟩ :=
      quadrantCosine_reduces hx hmember hg (fun name => (find name).map _) hcalls h
    exact ⟨run, hreduces, Arithmetic.call_eq (hbound h.isBuilt.arguments) hrun⟩

/-- A large argument in single precision, where the measured argument counts quarters: the sine has
a value that comes from a fit in its domain. -/
theorem quadrant_remainders_large :
    ∃ sin negate, (sine .quadrant).Builds ⟨⟨.single, false⟩, 32, .standard⟩ sin ∧
      negateOnOdd.Builds ⟨⟨.single, false⟩, 32, .standard⟩ negate ∧
      ∃ run : QuadrantRun, (Emulation.arithmetic .single).call (fun _ => some negate) 2 sin
          [.number (.binary .single (.finite true 6588400))] = .ok run.value ∧
        SplitsTwice .single run.bindings "s" "c" run.number ∧
        FitGives ⟨.single, false⟩ (fun _ => some ((Emulation.arithmetic .single).call
          (fun _ => some negate) 1 negate)) run.bindings run.fit run.value := by
  obtain ⟨sin, hsin⟩ := Library.exists_builds ⟨⟨.single, false⟩, 32, .standard⟩ (sine .quadrant)
  obtain ⟨negate, hnegate⟩ := Library.exists_builds ⟨⟨.single, false⟩, 32, .standard⟩ negateOnOdd
  have hx : (Datum.finite true 6588400).Denotes (-6588400) := .finite true (by norm_num)
  have hmember : (Datum.finite true 6588400).IsMember Precision.single.format :=
    Datum.isMember_finite.mpr ⟨by norm_num, by decide +kernel, by decide +kernel⟩
  obtain ⟨run, hreduces, hcall⟩ := quadrant_remainders ⟨⟨.single, false⟩, 32, .standard⟩ hx hmember
    hnegate (fun _ => some negate) rfl 0 List.mem_cons_self hsin
  exact ⟨sin, negate, hsin, hnegate, run, hcall, hreduces.splits, hreduces.gives⟩

end Runs

end LibraryFunction

end Elementary
