import Elementary.Proofs.Polynomial.Horner

/-!
# Parts of polynomials

Some monomials of a polynomial are chosen by a condition, and their degrees may be shifted. The
evaluation runs down from the degree of what was chosen, which may be lower than that of the
polynomial, and over other gaps. Its value is the sum of the chosen monomials all the same: the
monomials that are chosen and those that are not make up the polynomial, and a shift multiplies by a
power of the argument, or takes one out.

## Main results

* `Polynomial.IsRational.sum_select_add_sum_select_not`: a choice and what it leaves.
* `Polynomial.IsRational.sum_select_shift_up`, `Polynomial.IsRational.sum_select_shift_down`: a choice
  with shifted degrees.
* `Polynomial.select_evaluateAt`: the evaluation of choices in written numbers.
-/

namespace Elementary.Polynomial

variable {p : Polynomial Number} {condition : Int → Number → Bool} {k : Int} {x : Rat} {n : Number}

/-- The sum of **chosen and shifted monomials**. -/
theorem IsRational.sum_select (hp : p.IsRational)
    (hk : ∀ m ∈ p.coefficients, condition m.1 m.2 = true → 0 ≤ m.1 + k) (x : Rat) :
    (p.select condition k).sum x =
      ((p.coefficients.filter fun m => condition m.1 m.2).map fun m =>
        m.2.value * x ^ (m.1 + k).toNat).sum := by
  rw [sum, (hp.select hk).1, List.map_map]
  rfl

/-- Without a shift no degree becomes negative. -/
theorem IsRational.degree_add_zero (hp : p.IsRational) (condition : Int → Number → Bool) :
    ∀ m ∈ p.coefficients, condition m.1 m.2 = true → 0 ≤ m.1 + 0 :=
  fun m hm _ => by have := hp.nonneg m hm; omega

/-- **A choice and what it leaves** make up the polynomial. -/
theorem IsRational.sum_select_add_sum_select_not (hp : p.IsRational)
    (condition : Int → Number → Bool) (x : Rat) :
    (p.select condition 0).sum x + (p.select (fun d c => !condition d c) 0).sum x = p.sum x := by
  rw [hp.sum_select (hp.degree_add_zero _), hp.sum_select (hp.degree_add_zero _), ← List.sum_append,
    ← List.map_append]
  simp only [Int.add_zero]
  have hperm := List.filter_append_perm (fun m : Int × Number => condition m.1 m.2) p.coefficients
  exact (hperm.map _).sum_eq

/-- A choice **shifted up** is multiplied by a power of the argument. -/
theorem IsRational.sum_select_shift_up (hp : p.IsRational) (condition : Int → Number → Bool)
    (hk : 0 ≤ k) (x : Rat) :
    (p.select condition k).sum x = x ^ k.toNat * (p.select condition 0).sum x := by
  rw [hp.sum_select fun m hm _ => by have := hp.nonneg m hm; omega,
    hp.sum_select (hp.degree_add_zero _), ← List.sum_map_mul_left]
  refine congrArg List.sum (List.map_congr_left fun m hm => ?_)
  have hnonneg := hp.nonneg m (List.mem_of_mem_filter hm)
  have hdegree : (m.1 + k).toNat = k.toNat + (m.1 + 0).toNat := by omega
  rw [hdegree, pow_add]
  ring

/-- A choice **shifted down**, as far as its degrees allow, has a power of the argument taken out. -/
theorem IsRational.sum_select_shift_down (hp : p.IsRational) (hneg : k < 0)
    (hk : ∀ m ∈ p.coefficients, condition m.1 m.2 = true → 0 ≤ m.1 + k) (x : Rat) :
    x ^ (-k).toNat * (p.select condition k).sum x = (p.select condition 0).sum x := by
  rw [hp.sum_select hk, hp.sum_select (hp.degree_add_zero _), ← List.sum_map_mul_left]
  refine congrArg List.sum (List.map_congr_left fun m hm => ?_)
  obtain ⟨hmem, hchosen⟩ := List.mem_filter.mp hm
  have hnonneg := hk m hmem hchosen
  have hdegree : (m.1 + 0).toNat = (-k).toNat + (m.1 + k).toNat := by omega
  rw [hdegree, pow_add]
  ring

/-- A polynomial **evaluates to** a rational number at a written number. -/
def EvaluatesTo (p : Polynomial Number) (n : Number) (v : Rat) : Prop :=
  ∃ r, p.evaluateAt n = .ok r ∧ r.rational? = some v

/-- The coefficients that are chosen are among those of the polynomial. -/
theorem IsRational.evaluatesTo_select (hp : p.IsRational)
    (hwritten : ∀ m ∈ p.coefficients, m.2.rational? = some m.2.value)
    (hk : ∀ m ∈ p.coefficients, condition m.1 m.2 = true → 0 ≤ m.1 + k)
    (hn : n.rational? = some x) :
    (p.select condition k).EvaluatesTo n ((p.select condition k).sum x) := by
  obtain ⟨hcoefficients, hrational⟩ := hp.select hk
  refine exists_evaluateAt hrational ?_ hn
  rw [hcoefficients]
  exact List.forall_mem_map.mpr fun m hm => hwritten m (List.mem_of_mem_filter hm)

/-- **Choosing and shifting monomials loses nothing.** Take a polynomial with different degrees that
are not negative and with coefficients that are integers or quotients, a condition on its monomials,
a shift that makes no chosen degree negative, and an argument that is an integer or a quotient. The
polynomial, the choice, what the choice leaves and the shifted choice all evaluate. The values of the
choice and of what it leaves add up to that of the polynomial; a shift upwards multiplies the value of
the choice by the power of the argument, and a shift downwards has this power taken out, also where
the argument is zero. -/
theorem select_evaluateAt (hp : p.IsRational)
    (hwritten : ∀ m ∈ p.coefficients, m.2.rational? = some m.2.value)
    (condition : Int → Number → Bool)
    (hk : ∀ m ∈ p.coefficients, condition m.1 m.2 = true → 0 ≤ m.1 + k)
    (hn : n.rational? = some x) :
    ∃ whole chosen left shifted : Rat, p.EvaluatesTo n whole ∧
      (p.select condition 0).EvaluatesTo n chosen ∧
      (p.select (fun d c => !condition d c) 0).EvaluatesTo n left ∧
      (p.select condition k).EvaluatesTo n shifted ∧
      chosen + left = whole ∧
      (0 ≤ k → shifted = x ^ k.toNat * chosen) ∧
      (k < 0 → x ^ (-k).toNat * shifted = chosen) :=
  ⟨_, _, _, _, exists_evaluateAt hp hwritten hn,
    hp.evaluatesTo_select hwritten (hp.degree_add_zero _) hn,
    hp.evaluatesTo_select hwritten (hp.degree_add_zero fun d c => !condition d c) hn,
    hp.evaluatesTo_select hwritten hk hn,
    hp.sum_select_add_sum_select_not condition x,
    fun hnonneg => hp.sum_select_shift_up condition hnonneg x,
    fun hneg => hp.sum_select_shift_down hneg hk x⟩

/-- A polynomial with gaps between its degrees and with a constant. -/
def gappedSample : Polynomial Number := .ofList [(7, .integer (-2)), (0, .integer 5), (3, .ratio (1 / 2))]

/-- The monomials that are not constant, shifted down as far as they can be. -/
theorem select_evaluateAt_gappedSample :
    ∃ whole chosen left shifted : Rat, gappedSample.EvaluatesTo (.ratio (2 / 3)) whole ∧
      (gappedSample.select (fun d _ => d ≠ 0) 0).EvaluatesTo (.ratio (2 / 3)) chosen ∧
      (gappedSample.select (fun d _ => !decide (d ≠ 0)) 0).EvaluatesTo (.ratio (2 / 3)) left ∧
      (gappedSample.select (fun d _ => d ≠ 0) (-3)).EvaluatesTo (.ratio (2 / 3)) shifted ∧
      chosen + left = whole ∧ (2 / 3) ^ 3 * shifted = chosen := by
  have hwritten : ∀ m ∈ gappedSample.coefficients, m.2.rational? = some m.2.value := by
    decide +kernel
  have hp : gappedSample.IsRational :=
    ⟨nodup_ofList _, by decide, fun m hm => Number.toRat_of_rational? (hwritten m hm)⟩
  obtain ⟨whole, chosen, left, shifted, hwhole, hchosen, hleft, hshifted, hsum, -, hdown⟩ :=
    select_evaluateAt (k := -3) hp hwritten (fun d _ => d ≠ 0) (by decide)
      (n := .ratio (2 / 3)) rfl
  exact ⟨whole, chosen, left, shifted, hwhole, hchosen, hleft, hshifted, hsum, hdown (by decide)⟩

end Elementary.Polynomial
