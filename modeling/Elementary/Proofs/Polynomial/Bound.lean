import Elementary.Proofs.Format.Pole
import Elementary.Proofs.Polynomial.Parity

/-!
# Schemes that stay small

On the numbers up to one half the chain of an odd scheme runs over a square of at most one quarter.
A step of the chain takes a quarter of what it was given and adds a coefficient, so that no step
passes twice the bound of the coefficients, however many there are and however the steps are
rounded. The scheme, which takes half of the chain, stays below the bound itself.

## Main definitions

* `Fit.Result.HasCoefficientsUpTo`: a bound of the coefficients of a fit.

## Main results

* `Polynomial.exists_denotes_mulAdd`: a step of a chain over a small power.
* `Polynomial.exists_denotes_denseHorner`: chains over a small power.
* `Polynomial.exists_denotes_odd`: odd schemes up to one half.
-/

namespace Elementary

/-- A number is finite, and **no larger than a bound** in magnitude. -/
def Number.IsUpTo (b : Rat) (n : Number) : Prop :=
  ∃ q, n.toRat = .ok q ∧ |q| ≤ b

/-- The **coefficients** of a fit are finite, and no larger than a bound in magnitude. -/
def Fit.Result.HasCoefficientsUpTo (fit : Fit.Result) (b : Rat) : Prop :=
  ∀ m ∈ fit.polynomial.coefficients, m.2.IsUpTo b

namespace Polynomial

variable {q inner : Polynomial Number} {nt : NumberType} {env : Bindings Scalar} {name : String}
  {power e : Expr} {t x : Rat} {k : Int}

/-- A scheme **has the parity** of its polynomial. -/
theorem admits_of_horner {parity : Parity} (he : q.horner name parity = .ok e) :
    ∀ m ∈ q.coefficients, parity.Admits m.1 := by
  by_contra hparity
  rw [horner_eq_error hparity] at he
  cases he

/-- **A step of a chain over a small power** keeps twice the bound of the coefficients. -/
theorem exists_denotes_mulAdd {a c : Expr} {y u : Rat}
    (hlow : nt.precision.format.minSubnormalExponent < k)
    (hhigh : k < nt.precision.format.maxExponent) (ha : a.Denotes nt env y)
    (hy : |y| ≤ 2 * pow2 k) (hpower : power.Denotes nt env t) (ht : |t| ≤ 1 / 4)
    (hc : c.Denotes nt env u) (hu : |u| ≤ pow2 k) :
    ∃ z, (Expr.mulAdd a power c).Denotes nt env z ∧ |z| ≤ 2 * pow2 k := by
  have hhalf : nt.precision.Has (1 / 2 * pow2 k) := by
    rw [← pow2_neg_one, ← pow2_add]
    exact Precision.has_pow2 (by omega) (by omega)
  have hdouble : nt.precision.Has (2 * pow2 k) :=
    pow2_add_one k ▸ Precision.has_pow2 (by omega) (by omega)
  have hpos := pow2_pos k
  have hproduct : |y * t| ≤ 1 / 2 * pow2 k :=
    calc |y * t| = |y| * |t| := abs_mul y t
      _ ≤ 2 * pow2 k * (1 / 4) := mul_le_mul hy ht (abs_nonneg t) (by linarith)
      _ = 1 / 2 * pow2 k := by ring
  have hrounded := Precision.abs_round_le hhalf hproduct
  have hsum : |nt.precision.format.round (y * t) + u| ≤ 2 * pow2 k :=
    (abs_add_le _ _).trans (by linarith)
  exact ⟨_, ha.mulAdd hpower hc (Precision.abs_round_le_maxValue hhalf hproduct)
    (Precision.abs_round_le_maxValue hdouble hsum), Precision.abs_round_le hdouble hsum⟩

/-- **A chain over a small power stays small**: where the power is at most one quarter, no step
passes twice the bound of the coefficients. -/
theorem exists_denotes_denseHorner (hlow : nt.precision.format.minSubnormalExponent < k)
    (hhigh : k < nt.precision.format.maxExponent) (hpower : power.Denotes nt env t)
    (ht : |t| ≤ 1 / 4) (hbound : ∀ d, (inner.coefficient d).IsUpTo (pow2 k))
    (hcodable : (inner.denseHorner power).Codable nt) :
    ∃ y, (inner.denseHorner power).Denotes nt env y ∧ |y| ≤ 2 * pow2 k := by
  have hpos := pow2_pos k
  have hconstant (d : Int) (hd : (Expr.constant (inner.coefficient d)).Codable nt) :
      ∃ u, (Expr.constant (inner.coefficient d)).Denotes nt env u ∧ |u| ≤ pow2 k := by
    obtain ⟨u, hu, hle⟩ := hbound d
    exact ⟨_, .constant hd hu,
      Precision.abs_round_le (Precision.has_pow2 hlow.le hhigh.le) hle⟩
  refine denseHorner_of_forall (Q := fun scheme => scheme.Codable nt →
    ∃ y, scheme.Denotes nt env y ∧ |y| ≤ 2 * pow2 k) (fun d hd => ?_)
    (fun scheme d hscheme hcodable => ?_) hcodable
  · obtain ⟨u, hu, hle⟩ := hconstant d hd
    exact ⟨u, hu, by linarith⟩
  · obtain ⟨y, hy, hyle⟩ := hscheme (hcodable.operand List.mem_cons_self)
    obtain ⟨u, hu, hule⟩ := hconstant d (hcodable.operand (by simp))
    exact exists_denotes_mulAdd hlow hhigh hy hyle hpower ht hu hule

/-- **An odd scheme stays below the bound of its coefficients** on the numbers up to one half. -/
theorem exists_denotes_odd (hlow : nt.precision.format.minSubnormalExponent < k)
    (hhigh : k < nt.precision.format.maxExponent) (he : q.horner name .odd = .ok e)
    (hcodable : e.Codable nt) (hvar : (Expr.var name).Denotes nt env x) (hx : |x| ≤ 1 / 2)
    (hbound : ∀ m ∈ q.coefficients, m.2.IsUpTo (pow2 k)) :
    ∃ y, e.Denotes nt env y ∧ |y| ≤ pow2 k := by
  obtain ⟨inner, hinner, hscheme⟩ :=
    exists_horner_eq (show Parity.odd ≠ .none from nofun) (admits_of_horner he) name
  cases he.symm.trans hscheme
  have hpos := pow2_pos k
  have hsquare := Precision.abs_square_le_quarter hx
  have hpower : (Expr.var name * Expr.var name).Denotes nt env
      (nt.precision.format.round (x * x)) :=
    hvar.binary .multiplication hvar rfl
      (Precision.abs_round_le_maxValue Precision.has_quarter hsquare)
  obtain ⟨y, hy, hyle⟩ := exists_denotes_denseHorner hlow hhigh hpower
    (Precision.abs_round_le Precision.has_quarter hsquare)
    (hinner (Number.IsUpTo (pow2 k)) ⟨0, rfl, abs_zero.trans_le hpos.le⟩ hbound)
    (hcodable.operand (by simp))
  have hunit : nt.precision.Has (pow2 k) := Precision.has_pow2 hlow.le hhigh.le
  have hproduct : |x * y| ≤ pow2 k :=
    calc |x * y| = |x| * |y| := abs_mul x y
      _ ≤ 1 / 2 * (2 * pow2 k) := mul_le_mul hx hyle (abs_nonneg y) (by norm_num)
      _ = pow2 k := by ring
  exact ⟨_, hvar.binary .multiplication hy rfl (Precision.abs_round_le_maxValue hunit hproduct),
    Precision.abs_round_le hunit hproduct⟩

end Polynomial

end Elementary
