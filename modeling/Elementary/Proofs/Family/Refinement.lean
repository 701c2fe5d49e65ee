import Elementary.Proofs.Family.RootDecomposition
import Elementary.Proofs.Polynomial.Horner
import Mathlib.Logic.Function.Iterate

/-!
# The refinement of reciprocals and square roots

The reciprocal and the reciprocal of a square root refine a seed as often as the tables say. In
exact arithmetic every refinement is a step of Newton's iteration: it squares what is missing to a
reciprocal, and for a square root it takes the residual `d` to `(3 * d ^ 2 + d ^ 3) / 4`. So the
results are known for every seed and every number of refinements: the sign and the powers of two
that were split off come back, and what is missing is that of the last approximation.

## Main definitions

* `Root.reciprocalStep`, `Root.rootStep`: one refinement of a number.
* `Root.residual`: what is missing to the reciprocal of a square root.
* `Root.Refined`: bindings in which only the approximation was refined.

## Main results

* `Root.exists_assigns_repeated`: repeated statements iterate the step.
* `Root.refinement_converges`: the bodies in exact arithmetic.
-/

namespace Elementary

open Expr (Assigns)
open Setting (variableIn)

namespace Root

variable {nt : NumberType} {τ : Expr → Expr} {calls : Calls Rat} {start env : Bindings Rat}
  {seed : Expr} {P : Rat → Rat} {m x y : Rat} {h k : Int}

/-! ### One step -/

/-- One refinement of a **reciprocal**. -/
def reciprocalStep (m y : Rat) : Rat := y * (2 - m * y)

/-- One refinement of the **reciprocal of a square root**. -/
def rootStep (m y : Rat) : Rat := y * (3 / 2 - 1 / 2 * m * y * y)

/-- The **residual**: what is missing to the reciprocal of a square root. -/
def residual (m y : Rat) : Rat := 1 - m * y ^ 2

/-- A refinement **squares** what is missing to a reciprocal. -/
theorem one_sub_mul_reciprocalStep (m y : Rat) :
    1 - m * reciprocalStep m y = (1 - m * y) ^ 2 := by
  rw [reciprocalStep]
  ring

/-- Each refinement squares once more. -/
theorem one_sub_mul_iterate (m y : Rat) (n : Nat) :
    1 - m * (reciprocalStep m)^[n] y = (1 - m * y) ^ 2 ^ n := by
  induction n with
  | zero => rw [Function.iterate_zero_apply, pow_zero, pow_one]
  | succ n ih =>
    rw [Function.iterate_succ_apply', one_sub_mul_reciprocalStep, ih, ← pow_mul, ← pow_succ]

/-- A refinement of the reciprocal of a square root takes the residual to one of **higher order**. -/
theorem residual_rootStep (m y : Rat) :
    residual m (rootStep m y) = (3 * residual m y ^ 2 + residual m y ^ 3) / 4 := by
  rw [residual, rootStep, residual]
  ring

/-- A number with its **sign changed** for a negative mantissa. -/
def signed (m y : Rat) : Rat := if m < 0 then -y else y

/-- The sign makes up for the one that the magnitude lost. -/
theorem signed_mul (m y : Rat) : signed m y * m = |m| * y := by
  rw [signed]
  split
  · next hnegative =>
    rw [abs_of_neg hnegative]
    ring
  · next hpositive =>
    rw [abs_of_nonneg (not_lt.mp hpositive), mul_comm]

/-! ### Repeated statements -/

/-- Bindings in which **the approximation was refined**: it is bound to a number, and every other
variable to what it was at the start. -/
structure Refined (start env : Bindings Rat) (y : Rat) : Prop where
  bound : env.lookup "y" = some (.number y)
  others : ∀ name, name ≠ "y" → env.lookup name = start.lookup name

namespace Refined

theorem refl (h : start.lookup "y" = some (.number y)) : Refined start start y := ⟨h, fun _ _ => rfl⟩

/-- The bindings after one more assignment. -/
theorem next (h : Refined start env y) (y' : Rat) :
    Refined start (("y", .number y') :: env) y' where
  bound := rfl
  others name hname := by
    rw [List.lookup_cons, beq_false_of_ne hname]
    exact h.others name hname

end Refined

variable (nt calls) in
/-- **Repeated statements** iterate the step that each of them makes. -/
theorem exists_assigns_repeated (hτ : ChangesConstants τ) {e : Expr} {step : Rat → Rat}
    (hstep : ∀ env y, Refined start env y → (τ e).HasValue calls env (step y)) (n : Nat)
    (h : Refined start env y) :
    ∃ env', Refined start env' (step^[n] y) ∧ Assigns Rational.arithmetic calls
      ((List.replicate n (Expr.assign (variableIn nt "y") e)).map τ) env env' := by
  induction n generalizing env y with
  | zero => exact ⟨env, h, .nil⟩
  | succ n ih =>
    obtain ⟨env', hrefined, hassigns⟩ := ih (h.next (step y))
    exact ⟨env', hrefined, hτ.assigns_cons (hstep env y h) hassigns⟩

section Exact

variable (hτ : τ = id ∨ τ = Expr.coded nt)

include hτ

theorem hasValue_variable {name : String} (h : env.lookup name = some (.number x)) :
    (τ (variableIn nt name)).HasValue calls env x :=
  (changesConstants_of_quantized hτ).gives_var h

/-! ### The reciprocal -/

/-- The refinement of a reciprocal **makes its step**. -/
theorem hasValue_reciprocalStep (hm : start.lookup "am" = some (.number m))
    (h : Refined start env y) :
    (τ (variableIn nt "y" * (2.0 - variableIn nt "am" * variableIn nt "y"))).HasValue calls env
      (reciprocalStep m y) := by
  have hchanges := changesConstants_of_quantized hτ
  have hmantissa : env.lookup "am" = some (.number m) := (h.others "am" (by decide)).trans hm
  have hyvar : (τ (variableIn nt "y")).HasValue calls env y := hasValue_variable hτ h.bound
  have hproduct : (τ (variableIn nt "am" * variableIn nt "y")).HasValue calls env (m * y) :=
    hchanges.gives_mul (hasValue_variable hτ hmantissa) hyvar rfl
  have hrest : (τ (2.0 - variableIn nt "am" * variableIn nt "y")).HasValue calls env (2 - m * y) :=
    hchanges.gives_sub (Rational.hasValue_two hτ calls env) hproduct rfl
  exact hchanges.gives_mul hyvar hrest rfl

/-- **The sign** of the mantissa goes to the approximation. -/
theorem assigns_sign (hm : env.lookup "m" = some (.number m))
    (hy : env.lookup "y" = some (.number y)) :
    Assigns Rational.arithmetic calls ([Expr.assign (variableIn nt "y")
      (Expr.select (Expr.compare .less (variableIn nt "m") 0) (-variableIn nt "y")
        (variableIn nt "y"))].map τ) env (("y", .number (signed m y)) :: env) := by
  have hchanges := changesConstants_of_quantized hτ
  have hyvar : (τ (variableIn nt "y")).HasValue calls env y := hasValue_variable hτ hy
  have hneg : (τ (-variableIn nt "y")).HasValue calls env (-y) := hchanges.gives_neg hyvar rfl
  have hselect := hchanges.gives_select (hchanges.gives_compare (hasValue_variable hτ hm)
    (Rational.hasValue_zero hτ calls env) (Rational.compare_numbers .less m 0)) hneg hyvar
  refine hchanges.assigns_cons ?_ .nil
  rw [Relation.between] at hselect
  rw [signed]
  split
  · next hnegative =>
    rwa [decide_eq_true hnegative, if_pos rfl] at hselect
  · next hpositive =>
    rwa [decide_eq_false hpositive, if_neg Bool.false_ne_true] at hselect

/-- **The exponent and the mantissa** of the argument. -/
theorem hasValue_parts (hlow : 1 ≤ |m|) (hhigh : |m| < 2)
    (hx : env.lookup "arg" = some (.number (m * pow2 k))) :
    (τ (Expr.exponentExtraction (variableIn nt "arg"))).HasValue calls env (k : Int) ∧
      (τ (Expr.mantissaExtraction (variableIn nt "arg"))).HasValue calls env m := by
  have hfloor : floorLog2 |m * pow2 k| = k := by
    rw [abs_mul, abs_of_pos (pow2_pos k), floorLog2_mul_pow2 hlow hhigh]
  have hmantissa : m * pow2 k * pow2 (-floorLog2 |m * pow2 k|) = m := by
    rw [hfloor, mul_assoc, ← pow2_add, add_neg_cancel, pow2_zero, mul_one]
  have hvar : (τ (variableIn nt "arg")).HasValue calls env (m * pow2 k) := hasValue_variable hτ hx
  exact ⟨hfloor ▸ Rational.hasValue_exponent hτ hvar,
    hmantissa ▸ Rational.hasValue_mantissa hτ hvar⟩

/-- **The reciprocal** of a number of either sign: every refinement squared what is missing to
it. -/
theorem exists_reciprocal (hseed : (τ seed).Represents calls "am" P) (hlow : 1 ≤ |m|)
    (hhigh : |m| < 2) (hx : env.lookup "arg" = some (.number (m * pow2 k))) (n : Int) :
    ∃ r env', Expr.evaluateSequence Rational.arithmetic calls
        ((reciprocalBody nt seed n).map τ) env = .ok (.number r, env') ∧
      r * (m * pow2 k) = 1 - (1 - |m| * P |m|) ^ 2 ^ n.toNat := by
  have hchanges := changesConstants_of_quantized hτ
  have hstart : Refined ([("y", .number (P |m|)), ("am", .number |m|), ("m", .number m),
      ("e", .number (k : Rat))] ++ env) _ (P |m|) := .refl rfl
  obtain ⟨env', hrefined, hrepeated⟩ := exists_assigns_repeated nt calls hchanges
    (fun _ _ h => hasValue_reciprocalStep hτ rfl h) n.toNat hstart
  -- the sign of the mantissa and the power of two come back
  have hrestored := hrefined.next (signed m ((reciprocalStep |m|)^[n.toNat] (P |m|)))
  have hpower : (τ (Expr.exponentInsertion (-variableIn nt "e"))).HasValue calls _ (pow2 (-k)) :=
    Rational.hasValue_powerOfTwo_neg hτ (hasValue_variable hτ (hrestored.others "e" (by decide)))
  have hresult : (τ (variableIn nt "y" * Expr.exponentInsertion (-variableIn nt "e"))).HasValue
      calls _ _ := hchanges.gives_mul (hasValue_variable hτ hrestored.bound) hpower rfl
  rw [reciprocalBody, List.append_cons]
  refine ⟨_, _, hchanges.evaluateSequence_concat ?_ hresult, ?_⟩
  · have hx' : List.lookup "arg" (("e", .number (k : Rat)) :: env) =
        some (.number (m * pow2 k)) := hx
    refine hchanges.assigns_cons (hasValue_parts hτ hlow hhigh hx).1 (hchanges.assigns_cons
      (hasValue_parts hτ hlow hhigh hx').2 (hchanges.assigns_cons (Rational.hasValue_absolute hτ
        (hasValue_variable hτ rfl)) (hchanges.assigns_cons (hseed _ _ rfl) ?_)))
    exact List.map_append ▸ hrepeated.append
      (assigns_sign hτ (hrefined.others "m" (by decide)) hrefined.bound)
  · calc signed m ((reciprocalStep |m|)^[n.toNat] (P |m|)) * pow2 (-k) * (m * pow2 k)
        = signed m ((reciprocalStep |m|)^[n.toNat] (P |m|)) * m * (pow2 (-k) * pow2 k) := by ring
      _ = |m| * (reciprocalStep |m|)^[n.toNat] (P |m|) := by
        rw [← pow2_add, neg_add_cancel, pow2_zero, mul_one, signed_mul]
      _ = 1 - (1 - |m| * P |m|) ^ 2 ^ n.toNat := by rw [← one_sub_mul_iterate, sub_sub_cancel]

/-! ### The square roots -/

/-- The refinement of the reciprocal of a square root **makes its step**. -/
theorem hasValue_rootStep (hm : start.lookup "m" = some (.number m)) (h : Refined start env y) :
    (τ (variableIn nt "y" * (1.5 - 0.5 * variableIn nt "m" * variableIn nt "y" *
      variableIn nt "y"))).HasValue calls env (rootStep m y) := by
  have hchanges := changesConstants_of_quantized hτ
  have hmantissa : env.lookup "m" = some (.number m) := (h.others "m" (by decide)).trans hm
  have hyvar : (τ (variableIn nt "y")).HasValue calls env y := hasValue_variable hτ h.bound
  have hhalf : (τ (0.5 * variableIn nt "m")).HasValue calls env (1 / 2 * m) :=
    hchanges.gives_mul (Rational.hasValue_half hτ calls env) (hasValue_variable hτ hmantissa) rfl
  have hproduct : (τ (0.5 * variableIn nt "m" * variableIn nt "y" * variableIn nt "y")).HasValue
      calls env (1 / 2 * m * y * y) :=
    hchanges.gives_mul (hchanges.gives_mul hhalf hyvar rfl) hyvar rfl
  have hrest : (τ (1.5 - 0.5 * variableIn nt "m" * variableIn nt "y" * variableIn nt "y")).HasValue
      calls env (3 / 2 - 1 / 2 * m * y * y) :=
    hchanges.gives_sub (Rational.hasValue_three_halves hτ calls env) hproduct rfl
  exact hchanges.gives_mul hyvar hrest rfl

/-- **Half of the exponent**, rounded down. -/
theorem hasValue_halfExponent (he : env.lookup "e" = some (.number (floorLog2 x : Int))) :
    (τ (Expr.floor (variableIn nt "e" * 0.5))).HasValue calls env (halfExponent x : Int) := by
  have hchanges := changesConstants_of_quantized hτ
  have hhalf : (τ (variableIn nt "e" * 0.5)).HasValue calls env ((floorLog2 x : Int) * (1 / 2)) :=
    hchanges.gives_mul (hasValue_variable hτ he) (Rational.hasValue_half hτ calls env) rfl
  rw [halfExponent, ← floor_half]
  exact hchanges.gives_unary rfl rfl hhalf rfl

/-- **The mantissa** that belongs to the even exponent. -/
theorem hasValue_evenMantissa (hpos : 0 < x) (hx : env.lookup "arg" = some (.number x))
    (he : env.lookup "e" = some (.number (floorLog2 x : Int)))
    (hh : env.lookup "h" = some (.number (halfExponent x : Int))) :
    (τ (Expr.mantissaExtraction (variableIn nt "arg") * Expr.exponentInsertion
      (variableIn nt "e" - 2.0 * variableIn nt "h"))).HasValue calls env (evenMantissa x) := by
  have hchanges := changesConstants_of_quantized hτ
  have hdoubled : (τ (2.0 * variableIn nt "h")).HasValue calls env (2 * (halfExponent x : Int)) :=
    hchanges.gives_mul (Rational.hasValue_two hτ calls env) (hasValue_variable hτ hh) rfl
  have hleft : (τ (variableIn nt "e" - 2.0 * variableIn nt "h")).HasValue calls env
      (floorLog2 x - 2 * halfExponent x : Int) := by
    push_cast
    exact hchanges.gives_sub (hasValue_variable hτ he) hdoubled rfl
  have hmantissa : (τ (Expr.mantissaExtraction (variableIn nt "arg"))).HasValue calls env
      (x * pow2 (-floorLog2 |x|)) := Rational.hasValue_mantissa hτ (hasValue_variable hτ hx)
  rw [abs_of_pos hpos] at hmantissa
  rw [evenMantissa_eq]
  exact hchanges.gives_mul hmantissa (Rational.hasValue_powerOfTwo hτ hleft) rfl

/-- **The statements of a refined root** bind the mantissa, half of the exponent and the approximation
that was refined. -/
theorem exists_assigns_refinedRoot (hseed : (τ seed).Represents calls "m" P) (hpos : 0 < x)
    (hx : env.lookup "arg" = some (.number x)) (n : Int) :
    ∃ env', Assigns Rational.arithmetic calls ((refinedRoot nt seed n).map τ) env env' ∧
      env'.lookup "y" = some (.number
        ((rootStep (evenMantissa x))^[n.toNat] (P (evenMantissa x)))) ∧
      env'.lookup "m" = some (.number (evenMantissa x)) ∧
      env'.lookup "h" = some (.number (halfExponent x : Int)) := by
  have hchanges := changesConstants_of_quantized hτ
  have hstart : Refined ([("y", .number (P (evenMantissa x))), ("m", .number (evenMantissa x)),
      ("h", .number (halfExponent x : Rat)), ("e", .number (floorLog2 x : Rat))] ++ env) _
      (P (evenMantissa x)) := .refl rfl
  obtain ⟨env', hrefined, hrepeated⟩ := exists_assigns_repeated nt calls hchanges
    (fun _ _ h => hasValue_rootStep hτ rfl h) n.toNat hstart
  refine ⟨env', ?_, hrefined.bound, hrefined.others "m" (by decide), hrefined.others "h" (by decide)⟩
  have hexponent : (τ (Expr.exponentExtraction (variableIn nt "arg"))).HasValue calls env
      (floorLog2 |x| : Int) := Rational.hasValue_exponent hτ (hasValue_variable hτ hx)
  rw [abs_of_pos hpos] at hexponent
  refine hchanges.assigns_cons hexponent (hchanges.assigns_cons (hasValue_halfExponent hτ rfl)
    (hchanges.assigns_cons (hasValue_evenMantissa hτ hpos ?_ rfl rfl)
      (hchanges.assigns_cons (hseed _ _ rfl) hrepeated)))
  exact hx

end Exact

/-- The statements up to a refinement are those of **so many refinements**. -/
theorem take_refinedRoot (nt : NumberType) (seed : Expr) {n : Int} {i : Nat} (hi : i ≤ n.toNat) :
    (refinedRoot nt seed n).take (4 + i) = refinedRoot nt seed i := by
  have hrepeated (e : Expr) : (repeated n e).take i = repeated i e := by
    rw [repeated, repeated, List.take_replicate, Int.toNat_natCast, min_eq_left hi]
  rw [refinedRoot, refinedRoot, ← hrepeated, Nat.add_comm]
  rfl

/-- The powers of two **recombine**: an approximation for the mantissa gives one for the number. -/
theorem recombine (m y : Rat) (h : Int) :
    (y * pow2 (-h)) ^ 2 * (m * pow2 (2 * h)) = 1 - residual m y ∧
      m * y * pow2 h = m * pow2 (2 * h) * (y * pow2 (-h)) := by
  have hinverse : pow2 (-h) * pow2 h = 1 := by rw [← pow2_add, neg_add_cancel, pow2_zero]
  have hsquare : pow2 (2 * h) = pow2 h * pow2 h := by rw [← pow2_add, two_mul]
  rw [hsquare, residual]
  constructor
  · calc (y * pow2 (-h)) ^ 2 * (m * (pow2 h * pow2 h))
        = m * y ^ 2 * (pow2 (-h) * pow2 h) ^ 2 := by ring
      _ = 1 - (1 - m * y ^ 2) := by rw [hinverse]; ring
  · calc m * y * pow2 h = m * y * pow2 h * (pow2 (-h) * pow2 h) := by rw [hinverse, mul_one]
      _ = m * (pow2 h * pow2 h) * (y * pow2 (-h)) := by ring

/-- The approximations and the results of **the square roots** in exact arithmetic, for the number
`m * pow2 (2 * h)`: the value of the seed comes first, every refinement makes the next one, of which
the residual is known, and both results come from the last one. -/
structure RefinesRoot (nt : NumberType) (τ : Expr → Expr) (calls : Calls Rat) (env : Bindings Rat)
    (seed : Expr) (P : Rat → Rat) (n : Int) (m : Rat) (h : Int) (approximations : Nat → Rat)
    (reciprocal root : Rat) : Prop where
  seeded : approximations 0 = P m
  refined : ∀ i ≤ n.toNat, ∃ env',
    Assigns Rational.arithmetic calls (((refinedRoot nt seed n).take (4 + i)).map τ) env env' ∧
      env'.lookup "m" = some (.number m) ∧ env'.lookup "y" = some (.number (approximations i))
  residuals : ∀ i, residual m (approximations (i + 1)) =
    (3 * residual m (approximations i) ^ 2 + residual m (approximations i) ^ 3) / 4
  evaluateReciprocal : ∃ env', Expr.evaluateSequence Rational.arithmetic calls
    ((reciprocalRootBody nt seed n).map τ) env = .ok (.number reciprocal, env')
  evaluateRoot : ∃ env', Expr.evaluateSequence Rational.arithmetic calls
    ((squareRootBody nt seed n).map τ) env = .ok (.number root, env')
  square : reciprocal ^ 2 * (m * pow2 (2 * h)) = 1 - residual m (approximations n.toNat)
  product : root = m * pow2 (2 * h) * reciprocal

/-- **Both square roots**, for every seed and every number of refinements. -/
theorem exists_refinesRoot (hτ : τ = id ∨ τ = Expr.coded nt)
    (hseed : (τ seed).Represents calls "m" P) (hlow : 1 ≤ m) (hhigh : m < 4)
    (hx : env.lookup "arg" = some (.number (m * pow2 (2 * h)))) (n : Int) :
    ∃ approximations reciprocal root,
      RefinesRoot nt τ calls env seed P n m h approximations reciprocal root := by
  have hchanges := changesConstants_of_quantized hτ
  obtain ⟨hhalf, hmantissa⟩ := decomposition_unique hlow hhigh h
  have hpos : 0 < m * pow2 (2 * h) := mul_pos (by linarith) (pow2_pos _)
  have hassigns (n : Int) := exists_assigns_refinedRoot hτ hseed hpos hx n
  rw [hhalf, hmantissa] at hassigns
  obtain ⟨env', hrun, hy, hm, hh⟩ := hassigns n
  have hyvar : (τ (variableIn nt "y")).HasValue calls env' _ := hasValue_variable hτ hy
  have hhvar : (τ (variableIn nt "h")).HasValue calls env' (h : Int) := hasValue_variable hτ hh
  have hreciprocal : (τ (variableIn nt "y" * Expr.exponentInsertion (-variableIn nt "h"))).HasValue
      calls env' _ := hchanges.gives_mul hyvar (Rational.hasValue_powerOfTwo_neg hτ hhvar) rfl
  have hproduct : (τ (variableIn nt "m" * variableIn nt "y")).HasValue calls env' _ :=
    hchanges.gives_mul (hasValue_variable hτ hm) hyvar rfl
  have hroot : (τ (variableIn nt "m" * variableIn nt "y" *
      Expr.exponentInsertion (variableIn nt "h"))).HasValue calls env' _ :=
    hchanges.gives_mul hproduct (Rational.hasValue_powerOfTwo hτ hhvar) rfl
  obtain ⟨hsquare, htimes⟩ := recombine m ((rootStep m)^[n.toNat] (P m)) h
  refine ⟨fun i => (rootStep m)^[i] (P m), _, _, rfl, fun i hi => ?_, fun i => ?_,
    ⟨env', hchanges.evaluateSequence_concat hrun hreciprocal⟩,
    ⟨env', hchanges.evaluateSequence_concat hrun hroot⟩, hsquare, htimes⟩
  · obtain ⟨env', hrun, hy, hm, -⟩ := hassigns i
    rw [take_refinedRoot nt seed hi]
    exact ⟨env', hrun, hm, hy⟩
  · rw [Function.iterate_succ_apply', residual_rootStep]

variable (nt) in
/-- **Newton's iteration converges as designed**, in exact arithmetic and for every seed and number
of refinements, with the constants quantized or not. The product of a number with its reciprocal
misses one by what the seed missed, squared as often as it was refined. Every refinement of the
reciprocal of a square root takes the residual `d` to `(3 * d ^ 2 + d ^ 3) / 4`, the square of the
result misses the reciprocal by the last residual, and the square root is the product with the
number. -/
theorem refinement_converges (hτ : τ = id ∨ τ = Expr.coded nt) (calls : Calls Rat)
    (env : Bindings Rat) (n : Int) :
    (∀ (seed : Expr) (P : Rat → Rat), (τ seed).Represents calls "am" P → ∀ (m : Rat) (k : Int),
      1 ≤ |m| → |m| < 2 → env.lookup "arg" = some (.number (m * pow2 k)) →
        ∃ r env', Expr.evaluateSequence Rational.arithmetic calls
            ((reciprocalBody nt seed n).map τ) env = .ok (.number r, env') ∧
          r * (m * pow2 k) = 1 - (1 - |m| * P |m|) ^ 2 ^ n.toNat) ∧
    ∀ (seed : Expr) (P : Rat → Rat), (τ seed).Represents calls "m" P → ∀ (m : Rat) (h : Int),
      1 ≤ m → m < 4 → env.lookup "arg" = some (.number (m * pow2 (2 * h))) →
        ∃ approximations reciprocal root,
          RefinesRoot nt τ calls env seed P n m h approximations reciprocal root :=
  ⟨fun _ _ hseed _ _ hlow hhigh hx => exists_reciprocal hτ hseed hlow hhigh hx n,
    fun _ _ hseed _ _ hlow hhigh hx => exists_refinesRoot hτ hseed hlow hhigh hx n⟩

/-- A seed of the first degree, `3 / 2 - x / 2`. -/
def linearSeed : Polynomial Number := .ofList [(0, .ratio (3 / 2)), (1, .ratio (-1 / 2))]

theorem exists_linearSeed (calls : Calls Rat) (name : String) :
    ∃ seed, linearSeed.horner name .none = .ok seed ∧
      seed.Represents calls name linearSeed.sum := by
  have hrational : linearSeed.IsRational :=
    ⟨Polynomial.nodup_ofList _, by decide, by decide +kernel⟩
  have hparity : ∀ m ∈ linearSeed.coefficients, Parity.none.Admits m.1 := fun _ _ => trivial
  exact ⟨_, rfl, Polynomial.represents_horner hrational hparity rfl calls⟩

/-- One refinement for the reciprocal of `-3`, and one for the square root of `8`. -/
theorem refinement_converges_linear :
    (∃ seed env, linearSeed.horner "am" .none = .ok seed ∧
      Expr.evaluateSequence Rational.arithmetic (fun _ => none)
        ((reciprocalBody ⟨.single, false⟩ seed 1).map id) [("arg", .number (-3))] =
          .ok (.number (-21 / 64), env)) ∧
    ∃ seed root env, linearSeed.horner "m" .none = .ok seed ∧
      Expr.evaluateSequence Rational.arithmetic (fun _ => none)
        ((squareRootBody ⟨.single, false⟩ seed 1).map id) [("arg", .number 8)] =
          .ok (.number root, env) ∧ root ^ 2 = 25 / 4 := by
  have hnegative : (-3 : Rat) = -3 / 2 * pow2 1 := by decide +kernel
  have height : (8 : Rat) = 2 * pow2 (2 * 1) := by decide +kernel
  obtain ⟨seed, hseed, hrepresents⟩ := exists_linearSeed (fun _ => none) "am"
  obtain ⟨seed', hseed', hrepresents'⟩ := exists_linearSeed (fun _ => none) "m"
  have hvalues : linearSeed.sum |-3 / 2| = 3 / 4 ∧ linearSeed.sum 2 = 1 / 2 := by decide +kernel
  obtain ⟨r, env, hrun, hr⟩ := (refinement_converges ⟨.single, false⟩ (.inl rfl) (fun _ => none)
    [("arg", .number (-3))] 1).1 seed _ hrepresents (-3 / 2) 1 (by decide +kernel)
      (by decide +kernel) (by rw [← hnegative]; rfl)
  obtain ⟨y, q, root, hroot⟩ := (refinement_converges ⟨.single, false⟩ (.inl rfl) (fun _ => none)
    [("arg", .number 8)] 1).2 seed' _ hrepresents' 2 1 (by norm_num) (by norm_num)
      (by rw [← height]; rfl)
  obtain ⟨env', hrun'⟩ := hroot.evaluateRoot
  have hinverse : r = -21 / 64 := by
    have hmagnitude : |(-3 / 2 : Rat)| = 3 / 2 := by decide +kernel
    rw [← hnegative, hvalues.1, hmagnitude] at hr
    have hmissing : (1 - (1 - 3 / 2 * (3 / 4)) ^ 2 ^ (1 : Int).toNat : Rat) = 63 / 64 := by
      decide +kernel
    linarith
  have hsquare : root ^ 2 = 25 / 4 := by
    have hseeded : residual 2 (y 0) = 1 / 2 := by
      rw [hroot.seeded, hvalues.2, residual]
      norm_num
    have hrefined : residual 2 (y 1) = 7 / 32 := by
      refine (hroot.residuals 0).trans ?_
      rw [hseeded]
      norm_num
    have hreciprocal : q ^ 2 * 8 = 1 - 7 / 32 := by
      rw [height]
      exact hroot.square.trans (congrArg (1 - ·) hrefined)
    rw [hroot.product, ← height]
    linarith
  exact ⟨⟨seed, env, hseed, hinverse ▸ hrun⟩, seed', root, env', hseed', hrun', hsquare⟩

end Root

end Elementary
