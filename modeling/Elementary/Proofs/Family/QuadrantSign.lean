import Elementary.Proofs.Evaluation.Numbers
import Elementary.Proofs.Family.Generation
import Elementary.Proofs.Family.Quadrant
import Elementary.Proofs.Format.Remainder
import Mathlib.Algebra.Ring.Periodic
import Mathlib.Data.Rat.Floor

/-!
# The signs over quadrants

A sine in half periods changes its sign with every unit, and the cosine is the sine half a unit
later. Of such functions the bodies over quadrants make the right values: in exact arithmetic, with
the functions themselves in place of the schemes, both of the values to choose from are the value of
the function at the measured argument, whichever integers were taken off.

## Main definitions

* `negatedOnOdd`: the sign that an integer asks for.
* `Trigonometric.exactValues`: the values on the way in exact arithmetic.

## Main results

* `negatedOnOdd_remainder`: what is left of a number has the value of the number, but for the sign.
* `LibraryFunction.quadrant_signs`: the bodies over quadrants give the sine and the cosine.
-/

namespace Elementary

open Expr (Gives Assigns)

variable {S C : Rat → Rat} {n : Int} {q x : Rat}

/-! ### Changes of sign -/

/-- A number with **its sign changed** when an integer is odd. -/
def negatedOnOdd (n : Int) (q : Rat) : Rat := if n % 2 = 1 then -q else q

theorem negatedOnOdd_neg : negatedOnOdd n (-q) = -negatedOnOdd n q := by
  unfold negatedOnOdd
  split <;> rfl

/-- A function that changes its sign with every unit has the same value **without the nearest
integer**, but for the sign that the integer asks for. -/
theorem negatedOnOdd_remainder (hS : Function.Antiperiodic S 1) (x : Rat) :
    negatedOnOdd (roundHalfEven x) (S (remainder x)) = S x := by
  have hsum : remainder x + roundHalfEven x * 1 = x := by rw [remainder, mul_one, sub_add_cancel]
  have hvalue := hS.add_int_mul_eq (x := remainder x) (roundHalfEven x)
  rw [hsum] at hvalue
  rw [hvalue, negatedOnOdd]
  split
  · next hodd => simp [Int.negOnePow_odd _ (Int.odd_iff.mpr hodd)]
  · next heven => simp [Int.negOnePow_even _ (Int.not_odd_iff_even.mp (mt Int.odd_iff.mp heven))]

/-- The function half a unit later changes its sign as well. -/
theorem antiperiodic_later (hS : Function.Antiperiodic S 1) (hC : ∀ x, C x = S (x + 1 / 2)) :
    Function.Antiperiodic C 1 := fun x => by
  rw [hC, hC, add_right_comm, hS]

/-- Half a unit later twice. -/
theorem later_add_half (hS : Function.Antiperiodic S 1) (hC : ∀ x, C x = S (x + 1 / 2)) (x : Rat) :
    C (x + 1 / 2) = -S x := by
  rw [hC, add_assoc, add_halves, hS]

/-! ### Exact arithmetic -/

namespace Rational

variable {τ : Expr → Expr} {nt : NumberType} {g : GeneratedFunction} {s : Setting}

/-- **The function that changes signs**, in exact arithmetic. -/
theorem call_negateOnOdd (hg : LibraryFunction.negateOnOdd.Builds s g)
    (find : String → Option GeneratedFunction) (depth : Nat) (n : Int) (q : Rat) :
    arithmetic.call find (depth + 1) g [.number n, .number q] =
      .ok (.number (negatedOnOdd n q)) := by
  have hodd : arithmetic.operation .isOdd [.number (n : Rat)] =
      .ok (.truth (decide (n % 2 = 1))) := by
    show Except.ok (Value.truth (decide (truncate (n : Rat) % 2 = 1))) = _
    rw [truncate_intCast]
  have hneg : arithmetic.operation .negation [.number q] = .ok (.number (-q)) := rfl
  rw [LibraryFunction.call_negateOnOdd hg rfl rfl hodd hneg, negatedOnOdd]
  by_cases hn : n % 2 = 1
  · rw [decide_eq_true hn, if_pos rfl, if_pos hn]
  · rw [decide_eq_false hn, if_neg Bool.false_ne_true, if_neg hn]

end Rational

namespace Trigonometric

/-- The values on the way in **exact arithmetic**. -/
def exactValues (x : Rat) : QuadrantValues Rat where
  x := .number x
  half := .number (1 / 2)
  xh := .number (x + 1 / 2)
  xr := .number (roundHalfEven x)
  xhr := .number (roundHalfEven (x + 1 / 2))
  near := .number (remainder x)
  far := .number (remainder (x + 1 / 2))
  size := .number (remainder x).abs
  quarter := .number (1 / 4)
  isSmall := decide ((remainder x).abs ≤ 1 / 4)

theorem exactValues_follows (x : Rat) : (exactValues x).Follows Rational.arithmetic where
  shift := rfl
  nearest := rfl
  shiftedNearest := rfl
  left := rfl
  shiftedLeft := rfl
  absolute := rfl
  test := Rational.compare_numbers ..

end Trigonometric

section Bodies

open Trigonometric

variable {τ : Expr → Expr} {nt : NumberType} {s : Setting} {g : GeneratedFunction}
  {calls : Calls Rat} {env : Bindings Rat} {measured sine cosine : Expr}
  {find : String → Option GeneratedFunction} {depth : Nat}

section Values

variable (hS : Function.Antiperiodic S 1) (hC : ∀ x, C x = S (x + 1 / 2))
  (hg : LibraryFunction.negateOnOdd.Builds s g)
  (hcalls : calls "negate_on_odd" = some (Rational.arithmetic.call find (depth + 1) g))
  (hτ : τ = id ∨ τ = Expr.coded nt) (hx : (τ measured).HasValue calls env x)
  (hsine : (τ sine).Represents calls "s" S) (hcosine : (τ cosine).Represents calls "c" C)

include hS hC hg hcalls hτ hx hsine hcosine

/-- **The sine** of what is measured: with the sign for the integer, both values are the same. -/
theorem exists_quadrantSine :
    ∃ env', Expr.evaluateSequence Rational.arithmetic calls
      ((measuring nt measured (quadrantSineBody nt sine cosine)).map τ) env =
        .ok (.number (S x), env') := by
  have hchanges := changesConstants_of_quantized hτ
  have hfollows := exactValues_follows x
  have hassigns := assigns_quadrantSine nt hchanges hfollows hx (Rational.hasValue_half hτ calls)
    hcalls (hsine · _) (hcosine · _) rfl
    (Rational.call_negateOnOdd hg find depth _ _) (Rational.call_negateOnOdd hg find depth _ _)
  have hrun := evaluate_quadrantSine hchanges hfollows (Rational.hasValue_quarter hτ calls) hassigns
  -- both values are that of the sine, so it does not matter which one is chosen
  have hfar : negatedOnOdd (roundHalfEven (x + 1 / 2)) (-C (remainder (x + 1 / 2))) = S x := by
    rw [negatedOnOdd_neg, negatedOnOdd_remainder (antiperiodic_later hS hC),
      later_add_half hS hC, neg_neg]
  rw [negatedOnOdd_remainder hS, hfar, ite_self] at hrun
  exact ⟨_, hrun⟩

/-- **The cosine** of what is measured. -/
theorem exists_quadrantCosine :
    ∃ env', Expr.evaluateSequence Rational.arithmetic calls
      ((measuring nt measured (quadrantCosineBody nt sine cosine)).map τ) env =
        .ok (.number (C x), env') := by
  have hchanges := changesConstants_of_quantized hτ
  have hfollows := exactValues_follows x
  have hassigns := assigns_quadrantCosine nt hchanges hfollows hx (Rational.hasValue_half hτ calls)
    hcalls (hcosine · _) (hsine · _)
    (Rational.call_negateOnOdd hg find depth _ _) (Rational.call_negateOnOdd hg find depth _ _)
  have hrun :=
    evaluate_quadrantCosine hchanges hfollows (Rational.hasValue_quarter hτ calls) hassigns
  have hfar : negatedOnOdd (roundHalfEven (x + 1 / 2)) (S (remainder (x + 1 / 2))) = C x := by
    rw [negatedOnOdd_remainder hS, hC]
  rw [negatedOnOdd_remainder (antiperiodic_later hS hC), hfar, ite_self] at hrun
  exact ⟨_, hrun⟩

end Values

variable (nt) in
/-- **The signs over quadrants are right.** For a function that changes its sign with every unit,
and the function half a unit later, the bodies over quadrants give the values of the two at whatever
number is measured, in exact arithmetic, with the constants quantized or not. Neither need the first
be odd nor the second even. -/
theorem LibraryFunction.quadrant_signs (hS : ∀ x, S (x + 1) = -S x)
    (hC : ∀ x, C x = S (x + 1 / 2)) (hg : negateOnOdd.Builds s g) (calls : Calls Rat)
    (hcalls : calls "negate_on_odd" = some (Rational.arithmetic.call find (depth + 1) g))
    (hτ : τ = id ∨ τ = Expr.coded nt) (env : Bindings Rat)
    (hx : (τ measured).HasValue calls env x)
    (hsine : (τ sine).Represents calls "s" S) (hcosine : (τ cosine).Represents calls "c" C) :
    (∃ env', Expr.evaluateSequence Rational.arithmetic calls
      ((measuring nt measured (quadrantSineBody nt sine cosine)).map τ) env =
        .ok (.number (S x), env')) ∧
    ∃ env', Expr.evaluateSequence Rational.arithmetic calls
      ((measuring nt measured (quadrantCosineBody nt sine cosine)).map τ) env =
        .ok (.number (C x), env') :=
  ⟨exists_quadrantSine hS hC hg hcalls hτ hx hsine hcosine,
    exists_quadrantCosine hS hC hg hcalls hτ hx hsine hcosine⟩

/-- A **sine made of parabolas**, one from each integer to the next. -/
def parabolicSine (x : Rat) : Rat := negatedOnOdd ⌊x⌋ (4 * (Int.fract x * (1 - Int.fract x)))

theorem parabolicSine_antiperiodic (x : Rat) : parabolicSine (x + 1) = -parabolicSine x := by
  rw [parabolicSine, parabolicSine, Int.floor_add_one, Int.fract_add_one, negatedOnOdd,
    negatedOnOdd]
  split_ifs
  · omega
  · rfl
  · rw [neg_neg]
  · omega

/-- A function of one number, as it is called. -/
def numberCall (F : Rat → Rat) : List (Value Rat) → Except Failure (Value Rat)
  | [.number q] => .ok (.number (F q))
  | _ => .error (.wrongKind "one number is needed")

/-- Every function is represented by a call of it. -/
theorem represents_numberCall {F : Rat → Rat} (name argument : String)
    (h : calls name = some (numberCall F)) :
    (Expr.call name [.var argument]).Represents calls argument F := fun _ _ hargument =>
  Gives.call h (.cons (.var hargument) .nil) rfl

/-- Parabolas at a tie below zero: of `-3/2` the sine is one, and the cosine is zero. -/
theorem LibraryFunction.quadrant_signs_parabolas :
    ∃ negate, negateOnOdd.Builds ⟨⟨.single, false⟩, 32, .standard⟩ negate ∧
      ∃ calls : Calls Rat,
        calls "negate_on_odd" = some (Rational.arithmetic.call (fun _ => none) 1 negate) ∧
        calls "sine" = some (numberCall parabolicSine) ∧
        calls "cosine" = some (numberCall fun x => parabolicSine (x + 1 / 2)) ∧
        (∃ env, Expr.evaluateSequence Rational.arithmetic calls
          ((measuring ⟨.single, false⟩ (.constant (.literal "-1.5")) (quadrantSineBody
            ⟨.single, false⟩ (.call "sine" [.var "s"]) (.call "cosine" [.var "c"]))).map id) [] =
              .ok (.number 1, env)) ∧
        ∃ env, Expr.evaluateSequence Rational.arithmetic calls
          ((measuring ⟨.single, false⟩ (.constant (.literal "-1.5")) (quadrantCosineBody
            ⟨.single, false⟩ (.call "sine" [.var "s"]) (.call "cosine" [.var "c"]))).map id) [] =
              .ok (.number 0, env) := by
  obtain ⟨negate, hnegate⟩ := Library.exists_builds ⟨⟨.single, false⟩, 32, .standard⟩ negateOnOdd
  have hsine : parabolicSine (-3 / 2) = 1 := by decide +kernel
  have hcosine : parabolicSine (-3 / 2 + 1 / 2) = 0 := by decide +kernel
  have hsigns := quadrant_signs (x := -3 / 2) ⟨.single, false⟩ parabolicSine_antiperiodic
    (fun x => rfl) hnegate
    (fun name => [("negate_on_odd", Rational.arithmetic.call (fun _ => none) 1 negate),
      ("sine", numberCall parabolicSine),
      ("cosine", numberCall fun x => parabolicSine (x + 1 / 2))].lookup name)
    rfl (.inl rfl) [] (.constant (n := .literal "-1.5") (by decide +kernel))
    (represents_numberCall "sine" "s" rfl) (represents_numberCall "cosine" "c" rfl)
  rw [hsine, hcosine] at hsigns
  exact ⟨negate, hnegate, _, rfl, rfl, rfl, hsigns⟩

end Bodies

end Elementary
