import Elementary.Proofs.Family.Reduction

/-!
# The decomposition for a square root

The square root and its reciprocal write a positive argument as a mantissa between one and four
times an even power of two. The exponent is halved and rounded down, and what is left of it, zero or
one, goes to the mantissa. In the emulation of a precision none of these steps rounds, subnormal
arguments included, and the mantissa lies in the domain of the fit of the seed.

## Main definitions

* `Root.halfExponent`, `Root.evenMantissa`: the decomposition of a number.
* `Root.DecomposesExactly`: the steps of the decomposition, none of which rounds.
* `Root.DecomposesArgument`: what comes about when a function decomposes an argument.

## Main results

* `Root.evenMantissa_spec`: the mantissa lies between one and four.
* `Root.root_decomposes`: both functions decompose every positive number exactly.
-/

namespace Elementary

open Expr (Assigns)
open Setting (variableIn)

namespace Root

variable {p : Precision} {nt : NumberType} {env : Bindings Scalar} {s : Setting}
  {f : GeneratedFunction} {F : LibraryFunction} {a : Rat}

/-! ### The decomposition of a number -/

/-- **Half of the exponent** of a number, rounded down. -/
def halfExponent (a : Rat) : Int := floorLog2 a / 2

/-- **The mantissa** of a number that belongs to an even exponent. -/
def evenMantissa (a : Rat) : Rat := a * pow2 (-(2 * halfExponent a))

/-- What is left of an exponent goes to the mantissa. -/
theorem evenMantissa_eq (a : Rat) :
    evenMantissa a = a * pow2 (-floorLog2 a) * pow2 (floorLog2 a - 2 * halfExponent a) := by
  rw [evenMantissa, mul_assoc, ← pow2_add]
  congr 2
  ring

/-- **Nothing or one** is left of an exponent. -/
theorem left_of_exponent (a : Rat) :
    floorLog2 a - 2 * halfExponent a = 0 ∨ floorLog2 a - 2 * halfExponent a = 1 := by
  rw [halfExponent]
  omega

/-- **The decomposition**: the two parts make up the number, and the mantissa lies between one and
four. -/
theorem evenMantissa_spec (ha : 0 < a) :
    a = evenMantissa a * pow2 (2 * halfExponent a) ∧ 1 ≤ evenMantissa a ∧ evenMantissa a < 4 := by
  obtain ⟨hlow, hhigh⟩ := mantissa_bounds ha
  refine ⟨?_, ?_⟩
  · rw [evenMantissa, mul_assoc, ← pow2_add, neg_add_cancel, pow2_zero, mul_one]
  · rw [evenMantissa_eq]
    rcases left_of_exponent a with h | h
    · rw [h, pow2_zero, mul_one]
      exact ⟨hlow, hhigh.trans (by norm_num)⟩
    · rw [h, pow2_one]
      constructor <;> linarith

/-- Only **one decomposition** has such a mantissa. -/
theorem decomposition_unique {m : Rat} (hlow : 1 ≤ m) (hhigh : m < 4) (h : Int) :
    halfExponent (m * pow2 (2 * h)) = h ∧ evenMantissa (m * pow2 (2 * h)) = m := by
  have hhalf : halfExponent (m * pow2 (2 * h)) = h := by
    rw [halfExponent]
    by_cases hm : m < 2
    · rw [floorLog2_mul_pow2 hlow hm]
      omega
    · have hnext : m * pow2 (2 * h) = m / 2 * pow2 (2 * h + 1) := by
        rw [pow2_add_one]
        ring
      rw [hnext, floorLog2_mul_pow2 (by linarith) (by linarith)]
      omega
  refine ⟨hhalf, ?_⟩
  rw [evenMantissa, hhalf, mul_assoc, ← pow2_add, add_neg_cancel, pow2_zero, mul_one]

/-- Half of an integer, rounded down. -/
theorem floor_half (n : Int) : ((n : Rat) * (1 / 2)).floor = n / 2 := by
  refine eq_of_forall_le_iff fun k => ?_
  rw [Rat.le_floor_iff, mul_one_div, le_div_iff₀ two_pos, Int.le_ediv_iff_mul_le two_pos]
  norm_cast

/-! ### Exact steps -/

/-- **The steps of the decomposition do not round**, wherever the argument and the two exponents are
bound: twice the half exponent, what is left of the exponent, the power of two, and the product with
the mantissa. -/
structure DecomposesExactly (nt : NumberType) (env : Bindings Scalar) (a : Rat) : Prop where
  doubled : (2.0 * variableIn nt "h").Denotes nt env (2 * halfExponent a : Int)
  left : (variableIn nt "e" - 2.0 * variableIn nt "h").Denotes nt env
    (floorLog2 a - 2 * halfExponent a : Int)
  power : (Expr.exponentInsertion (variableIn nt "e" - 2.0 * variableIn nt "h")).Denotes nt env
    (pow2 (floorLog2 a - 2 * halfExponent a))
  product : (Expr.mantissaExtraction (variableIn nt "arg") *
    Expr.exponentInsertion (variableIn nt "e" - 2.0 * variableIn nt "h")).Denotes nt env
      (evenMantissa a)

/-- **Half of the exponent** is not rounded. -/
theorem denotes_halved (he : (variableIn nt "e").Denotes nt env (floorLog2 a : Int))
    (ha : nt.precision.Has a) (hpos : 0 < a) :
    (variableIn nt "e" * 0.5).Denotes nt env ((floorLog2 a : Rat) * (1 / 2)) := by
  refine he.exact .multiplication Expr.Denotes.half rfl ?_
  have hcount := ha.two_mul_natAbs_exponent_le hpos
  have hroom : 2 ^ (nt.precision.format.fieldSize + 1) =
      2 * 2 ^ nt.precision.format.fieldSize := Nat.pow_succ'
  have hquarters : nt.precision.Has (((2 * floorLog2 a : Int) : Rat) / 4) :=
    Precision.has_quarters (by omega)
  have hhalf : (floorLog2 a : Rat) * (1 / 2) = ((2 * floorLog2 a : Int) : Rat) / 4 := by
    push_cast
    ring
  rwa [hhalf]

/-- **The half exponent** is the integral part. -/
theorem denotes_floored (he : (variableIn nt "e").Denotes nt env (floorLog2 a : Int))
    (ha : nt.precision.Has a) (hpos : 0 < a) :
    (Expr.floor (variableIn nt "e" * 0.5)).Denotes nt env (halfExponent a : Int) := by
  have hfloor := (denotes_halved he ha hpos).unary
    (show Op.floor.onNumber? = some _ from rfl) trivial
  rwa [floor_half] at hfloor

/-- **The other steps** are exact as well. -/
theorem decomposesExactly (hx : (variableIn nt "arg").Denotes nt env a) (hpos : 0 < a)
    (he : (variableIn nt "e").Denotes nt env (floorLog2 a : Int))
    (hh : (variableIn nt "h").Denotes nt env (halfExponent a : Int)) :
    DecomposesExactly nt env a := by
  have hcount := hx.has.two_mul_natAbs_exponent_le hpos
  have hleft := left_of_exponent a
  have hroom : 2 ≤ 2 ^ nt.precision.format.fieldSize := by cases nt.precision <;> decide
  have hrange : nt.precision.format.minSubnormalExponent ≤ 0 ∧
      1 ≤ nt.precision.format.maxExponent := by
    cases nt.precision <;> decide
  have hdoubled : (2.0 * variableIn nt "h").Denotes nt env (2 * halfExponent a : Int) := by
    refine Expr.Denotes.two.exact .multiplication hh ?_ (Precision.has_intCast (by omega))
    push_cast
    rfl
  have hremaining : (variableIn nt "e" - 2.0 * variableIn nt "h").Denotes nt env
      (floorLog2 a - 2 * halfExponent a : Int) := by
    refine he.exact .subtraction hdoubled ?_ (Precision.has_intCast (by omega))
    push_cast
    rfl
  have hpower := hremaining.powerOfTwo (by omega) (by omega)
  refine ⟨hdoubled, hremaining, hpower, ?_⟩
  rw [evenMantissa_eq]
  refine (hx.mantissa hpos).exact .multiplication hpower rfl ?_
  refine (hx.mantissa hpos).has.mul_pow2 (by omega) ?_
  have hspec := evenMantissa_spec hpos
  rw [← evenMantissa_eq, abs_of_pos (by linarith)]
  refine hspec.2.2.le.trans ?_
  rw [← pow2_two, pow2_le_pow2]
  cases nt.precision <;> decide

/-! ### The statements -/

/-- What comes about when a function decomposes an argument: the fit of the seed with the scheme,
how often the seed is refined, and the bindings under which the scheme is evaluated. -/
structure DecompositionRun where
  fit : Fit.Result
  scheme : Expr
  refinements : Int
  bindings : Bindings Scalar

/-- A function **decomposes an argument**: three assignments bind the exponent, half of it and the
mantissa, none of the steps that lead there rounds, the parts make up the argument, and the mantissa
lies in the domain of the fit. -/
structure DecomposesArgument (F : LibraryFunction) (s : Setting) (f : GeneratedFunction) (x : Datum)
    (a : Rat) (run : DecompositionRun) : Prop where
  requests : F.requests s = [run.fit.request]
  fits : f.fits = [run.fit]
  expression : run.fit.expression = .ok run.scheme
  statements : (refinedRoot s.numberType run.scheme run.refinements).map
    (Expr.coded s.numberType) <+: f.statements
  assigns : ∀ calls, Assigns (Emulation.arithmetic s.numberType.precision) calls
    (f.statements.take 3) [("arg", .number (.binary s.numberType.precision x))] run.bindings
  bindsExponent : BindsNumber s.numberType.precision run.bindings "e" (floorLog2 a : Int)
  bindsHalf : BindsNumber s.numberType.precision run.bindings "h" (halfExponent a : Int)
  bindsMantissa : BindsNumber s.numberType.precision run.bindings "m" (evenMantissa a)
  split : a = evenMantissa a * pow2 (2 * halfExponent a)
  bounded : 1 ≤ evenMantissa a ∧ evenMantissa a < 4
  contains : run.fit.request.Contains (evenMantissa a)
  halved : ∀ env, BindsNumber s.numberType.precision env "e" (floorLog2 a : Int) →
    (variableIn s.numberType "e" * 0.5).Denotes s.numberType env ((floorLog2 a : Rat) * (1 / 2)) ∧
    (Expr.floor (variableIn s.numberType "e" * 0.5)).Denotes s.numberType env
      (halfExponent a : Int)
  exact : ∀ env, env.lookup "arg" = some (.number (.binary s.numberType.precision x)) →
    BindsNumber s.numberType.precision env "e" (floorLog2 a : Int) →
    BindsNumber s.numberType.precision env "h" (halfExponent a : Int) →
    DecomposesExactly s.numberType env a

/-- **The statements of the decomposition** bind the exponent, half of it and the mantissa. -/
theorem exists_assigns_decomposition {arg : Value Scalar} (harg : arg.Denotes nt.precision a)
    (ha : 0 < a) (scheme : Expr) (refinements : Int) :
    ∃ env : Bindings Scalar, (∀ calls, Assigns (Emulation.arithmetic nt.precision) calls
        (((refinedRoot nt scheme refinements).take 3).map (Expr.coded nt)) [("arg", arg)] env) ∧
      BindsNumber nt.precision env "e" (floorLog2 a : Int) ∧
      BindsNumber nt.precision env "h" (halfExponent a : Int) ∧
      BindsNumber nt.precision env "m" (evenMantissa a) := by
  have hτ := changesConstants_coded nt
  have hx (env : Bindings Scalar) (h : env.lookup "arg" = some arg) :
      (variableIn nt "arg").Denotes nt env a := .var harg h
  obtain ⟨e, he, hexponent⟩ := (hx [("arg", arg)] rfl).exponent ha
  have hevar (env : Bindings Scalar) (h : env.lookup "e" = some e) :
      (variableIn nt "e").Denotes nt env (floorLog2 a : Int) := .var he h
  obtain ⟨h, hh, hhalf⟩ := denotes_floored (hevar [("e", e), ("arg", arg)] rfl) harg.has ha
  have hhvar : (variableIn nt "h").Denotes nt [("h", h), ("e", e), ("arg", arg)]
      (halfExponent a : Int) := .var hh rfl
  obtain ⟨m, hm, hmantissa⟩ := (decomposesExactly (hx _ rfl) ha (hevar _ rfl) hhvar).product
  exact ⟨[("m", m), ("h", h), ("e", e), ("arg", arg)],
    fun calls => hτ.assigns_cons (hexponent calls) (hτ.assigns_cons (hhalf calls)
      (hτ.assigns_cons (hmantissa calls) .nil)),
    ⟨e, rfl, he⟩, ⟨h, rfl, hh⟩, ⟨m, rfl, hm⟩⟩

/-- The bodies of both functions **start with the refined root**. -/
theorem exists_root_body (hF : F ∈ [.reciprocalRoot, .squareRoot]) (nt : NumberType)
    (c : Ingredients) : ∃ ending, F.body nt c =
      refinedRoot nt (c.polynomial 0) c.refinements ++ [Expr.result ending] := by
  simp only [List.mem_cons, List.not_mem_nil, or_false] at hF
  rcases hF with rfl | rfl <;> exact ⟨_, rfl⟩

/-- **The decomposition for a square root is exact.** The square root and its reciprocal, however
they were built, write every positive number of their precision, subnormal or not, as a mantissa
between one and four times a power of two with an even exponent. No step of it rounds: neither half
of the exponent nor its integral part, neither what is left of the exponent nor the product with the
mantissa. -/
theorem root_decomposes (s : Setting) (hF : F ∈ [.reciprocalRoot, .squareRoot])
    (h : F.Builds s f) {x : Datum} (hx : x.Denotes a)
    (hmember : x.IsMember s.numberType.precision.format) (ha : 0 < a) :
    ∃ run, DecomposesArgument F s f x a run := by
  obtain ⟨fits, c, hrequests, hschemes, -, rfl⟩ := h.exists_ingredients
  have hroot : F.requests s = [LibraryFunction.rootRequest s] := by
    simp only [List.mem_cons, List.not_mem_nil, or_false] at hF
    rcases hF with rfl | rfl <;> rfl
  obtain ⟨fit, rfl, hfit⟩ := List.map_eq_singleton_iff.mp (hrequests.trans hroot)
  obtain ⟨ending, hbody⟩ := exists_root_body hF s.numberType c
  have harg : (Value.number (.binary s.numberType.precision x)).Denotes s.numberType.precision a :=
    ⟨x, hx, hmember, rfl⟩
  obtain ⟨env, hassigns, hexponent, hhalf, hmantissa⟩ :=
    exists_assigns_decomposition harg ha (c.polynomial 0) c.refinements
  obtain ⟨hsplit, hlow, hhigh⟩ := evenMantissa_spec ha
  have hbounds : (Number.literal "1").toRat = .ok 1 ∧ (Number.literal "4").toRat = .ok 4 := by
    decide +kernel
  refine ⟨⟨fit, c.polynomial 0, c.refinements, env⟩, hfit ▸ hroot, rfl,
    LibraryFunction.expression_polynomial hschemes rfl, ?_, fun calls => ?_, hexponent, hhalf,
    hmantissa, hsplit, ⟨hlow, hhigh⟩, ?_, ?_, ?_⟩
  · show _ <+: (F.body s.numberType c).map (Expr.coded s.numberType)
    rw [hbody, List.map_append]
    exact List.prefix_append _ _
  · show Assigns _ calls (((F.body s.numberType c).map (Expr.coded s.numberType)).take 3) _ env
    rw [hbody, ← List.map_take]
    exact hassigns calls
  · rw [hfit]
    exact ⟨_, _, hbounds.1, hbounds.2, hlow, hhigh.le⟩
  · rintro env ⟨v, hlookup, hv⟩
    have he : (variableIn s.numberType "e").Denotes s.numberType env (floorLog2 a : Int) :=
      .var hv hlookup
    exact ⟨denotes_halved he harg.has ha, denotes_floored he harg.has ha⟩
  · rintro env hlookup ⟨v, hv, hexponent⟩ ⟨w, hw, hhalf⟩
    exact decomposesExactly (.var harg hlookup) ha (.var hexponent hv) (.var hhalf hw)

/-- The smallest subnormal number of single precision, whose exponent is odd and negative. -/
theorem root_decomposes_subnormal :
    ∃ (f : GeneratedFunction) (run : DecompositionRun),
      LibraryFunction.squareRoot.Builds ⟨⟨.single, false⟩, 32, .standard⟩ f ∧
      BindsNumber .single run.bindings "e" (-149 : Int) ∧
      BindsNumber .single run.bindings "h" (-75 : Int) ∧
      BindsNumber .single run.bindings "m" 2 ∧ run.fit.request.Contains 2 := by
  obtain ⟨f, hf⟩ := Library.exists_builds ⟨⟨.single, false⟩, 32, .standard⟩ .squareRoot
  have hpos : (0 : Rat) < pow2 (-149) := pow2_pos _
  have hmember : (Datum.finite false (pow2 (-149))).IsMember Precision.single.format :=
    Datum.isMember_finite.mpr ⟨hpos.le, by decide +kernel, by decide +kernel⟩
  obtain ⟨run, hrun⟩ := root_decomposes ⟨⟨.single, false⟩, 32, .standard⟩
    (by decide : LibraryFunction.squareRoot ∈ [.reciprocalRoot, .squareRoot]) hf
    (.finite false hpos.le) hmember hpos
  have hexponent : floorLog2 (pow2 (-149)) = -149 := by decide +kernel
  have hhalf : halfExponent (pow2 (-149)) = -75 := by decide +kernel
  have hmantissa : evenMantissa (pow2 (-149)) = 2 := by decide +kernel
  exact ⟨f, run, hf, hexponent ▸ hrun.bindsExponent, hhalf ▸ hrun.bindsHalf,
    hmantissa ▸ hrun.bindsMantissa, hmantissa ▸ hrun.contains⟩

end Root

end Elementary
