import Elementary.Proofs.Format.Opposite
import Elementary.Proofs.Format.Range

/-!
# A factor with zeros at one half

A function with poles at one half, up or down, is multiplied by `x² - 1/4` to remove the poles, and
divided by the same factor to put them back. The numbers of a precision keep a distance from one
half, unless they are one half. So the factor, rounded twice, is zero at the poles and nowhere
between them, and there it is never so small that its reciprocal overflows. At the poles the
division gives an infinity, and no product with it is finite.

## Main definitions

* `Precision.spacing`: the distance of the numbers next below one quarter.
* `Precision.poleFactor`: the factor as it is computed.

## Main results

* `Precision.Has.abs_le_of_lt_half`: numbers below one half keep a distance from it.
* `Precision.Has.poleFactor_le`: the factor between the poles is not small.
* `Precision.Has.poleFactor_eq_zero_iff`: the factor is zero only at the poles.
* `Datum.not_denotes_mul_infinite`: products with an infinity.
* `Datum.exists_denotes_mul_div`: products with a reciprocal that is not large.
-/

namespace Elementary

/-! ### The factor without poles -/

namespace Precision

variable {p : Precision} {x : Rat}

/-- The **distance of the numbers** next below one quarter. -/
def spacing (p : Precision) : Rat := pow2 (-(p.format.fieldSize + 3 : Int))

theorem spacing_pos (p : Precision) : 0 < p.spacing := pow2_pos _

/-- One quarter counts a power of two of these distances. -/
theorem natCast_mul_spacing (p : Precision) :
    ((2 ^ (p.format.fieldSize + 1) : Nat) : Rat) * p.spacing = 1 / 4 := by
  rw [spacing, ← pow2_natCast, ← pow2_add, ← pow2_neg_two]
  congr 1
  push_cast
  ring

theorem spacing_le (p : Precision) : p.spacing ≤ 1 / 4 := by
  rw [spacing, ← pow2_neg_two]
  exact pow2_le_pow2.mpr (by omega)

theorem minSubnormalExponent_le_spacing (p : Precision) :
    p.format.minSubnormalExponent ≤ -(p.format.fieldSize + 3 : Int) := by
  cases p <;> decide

theorem has_spacing : p.Has p.spacing :=
  has_pow2 p.minSubnormalExponent_le_spacing (by cases p <;> decide)

/-- The number **next below one quarter**. -/
theorem has_quarter_sub_spacing : p.Has (1 / 4 - p.spacing) := by
  have hcount : (1 / 4 : Rat) - p.spacing =
      ((2 ^ (p.format.fieldSize + 1) - 1 : Int) : Rat) * p.spacing := by
    rw [← natCast_mul_spacing]
    push_cast
    ring
  have hroom : |(1 / 4 : Rat) - p.spacing| ≤ pow2 p.format.maxExponent := by
    have hone : pow2 0 ≤ pow2 p.format.maxExponent := pow2_le_pow2.mpr (by cases p <;> decide)
    have hpos := p.spacing_pos
    rw [abs_of_nonneg (sub_nonneg.mpr p.spacing_le)]
    linarith [pow2_zero]
  have hsmall : (2 ^ (p.format.fieldSize + 1) - 1 : Int).natAbs ≤ 2 ^ (p.format.fieldSize + 1) := by
    cases p <;> decide
  rw [hcount] at hroom ⊢
  exact has_intCast_mul hsmall p.minSubnormalExponent_le_spacing hroom

/-- A number of a precision below one half keeps **a distance from one half**. -/
theorem Has.abs_le_of_lt_half (h : p.Has x) (hx : |x| < 1 / 2) : |x| ≤ 1 / 2 - 2 * p.spacing := by
  obtain ⟨n, e, hn, -, rfl⟩ := h.exists_count
  have hunit : 2 * p.spacing = pow2 (-(p.format.fieldSize + 3 : Int) + 1) := (pow2_add_one _).symm
  rcases lt_or_ge e (-(p.format.fieldSize + 3 : Int) + 1) with hfine | hcoarse
  · -- counts of finer units do not reach above one quarter
    have hquarter : |(n : Rat) * pow2 e| ≤ 1 / 4 := by
      rw [← natCast_mul_spacing (p := p)]
      exact abs_intCast_mul_pow2_le hn.le (by omega)
    have hroom : 2 * p.spacing ≤ pow2 (-2) := hunit ▸ pow2_le_pow2.mpr (by cases p <;> decide)
    rw [pow2_neg_two] at hroom
    linarith
  · -- one half counts a whole number of the coarser units, and so does the number
    obtain ⟨k, hk⟩ := exists_intCast_mul_pow2 (sub_nonneg.mpr hcoarse) n
    have hcount : (n : Rat) * pow2 e = k * (2 * p.spacing) := by
      rw [← hk, hunit, mul_assoc, ← pow2_add, sub_add_cancel]
    have hhalf : (1 / 2 : Rat) = (2 ^ (p.format.fieldSize + 1) : Nat) * (2 * p.spacing) := by
      linarith [p.natCast_mul_spacing]
    have hpos : 0 < 2 * p.spacing := mul_pos two_pos p.spacing_pos
    rw [hcount, abs_mul, abs_of_pos hpos, hhalf] at hx ⊢
    have hlt : |(k : Rat)| < (2 ^ (p.format.fieldSize + 1) : Nat) :=
      lt_of_mul_lt_mul_right hx hpos.le
    have hnext : |(k : Rat)| + 1 ≤ (2 ^ (p.format.fieldSize + 1) : Nat) := by
      exact_mod_cast Int.add_one_le_iff.mpr (by exact_mod_cast hlt)
    calc |(k : Rat)| * (2 * p.spacing) = (|(k : Rat)| + 1) * (2 * p.spacing) - 2 * p.spacing := by
          ring
      _ ≤ _ := sub_le_sub_right (mul_le_mul_of_nonneg_right hnext hpos.le) _

/-- The **factor that removes the poles**, as it is computed. -/
def poleFactor (p : Precision) (x : Rat) : Rat :=
  p.format.round (p.format.round (x * x) - 1 / 4)

/-- The square of a number up to one half. -/
theorem abs_square_le_quarter (hx : |x| ≤ 1 / 2) : |x * x| ≤ 1 / 4 := by
  rw [abs_mul]
  nlinarith [abs_nonneg x]

/-- The factor **does not overflow**. -/
theorem abs_square_sub_quarter_le (p : Precision) (hx : |x| ≤ 1 / 2) :
    |p.format.round (x * x) - 1 / 4| ≤ 1 / 4 := by
  have hfrom : 0 ≤ p.format.round (x * x) := Format.round_nonneg (mul_self_nonneg x)
  have hto := le_of_abs_le (abs_round_le (p := p) has_quarter (abs_square_le_quarter hx))
  exact abs_le.mpr ⟨by linarith, by linarith⟩

/-- The factor is **zero at the poles**. -/
theorem poleFactor_of_half (hx : |x| = 1 / 2) : p.poleFactor x = 0 := by
  have hsquare : x * x = 1 / 4 := by
    rw [← abs_mul_abs_self, hx]
    norm_num
  rw [poleFactor, hsquare, has_quarter.round_eq, sub_self, has_zero.round_eq]

/-- Away from the poles the factor **is not small**: the square is rounded to a number below one
quarter. -/
theorem Has.poleFactor_le (h : p.Has x) (hx : |x| < 1 / 2) : p.poleFactor x ≤ -p.spacing := by
  have hbelow := h.abs_le_of_lt_half hx
  have hpos := p.spacing_pos
  have hsmall := p.spacing_le
  have hsquare : x * x ≤ 1 / 4 - p.spacing := by
    rw [← abs_mul_abs_self]
    nlinarith [abs_nonneg x]
  have hrounded := has_quarter_sub_spacing.round_le hsquare
  exact has_spacing.neg.round_le (by linarith)

/-- The factor is zero **only at the poles**. -/
theorem Has.poleFactor_eq_zero_iff (h : p.Has x) (hx : |x| ≤ 1 / 2) :
    p.poleFactor x = 0 ↔ |x| = 1 / 2 := by
  refine ⟨fun hzero => hx.antisymm (not_lt.mp fun hlt => ?_), poleFactor_of_half⟩
  have hle := h.poleFactor_le hlt
  have hpos := p.spacing_pos
  linarith

end Precision

/-! ### Division by zero -/

namespace Datum

variable {p : Precision} {x y z : Datum} {a b : Rat}

/-- A number other than zero **divided by zero** is an infinity. -/
theorem div_zero (fmt : Format) (hx : x.Denotes a) (ha : a ≠ 0) (hz : z.Denotes 0) :
    ∃ negative, x.div fmt z = .infinite negative := by
  have hzero : z.isZero = true := hz.isZero_eq.trans (decide_eq_true rfl)
  cases hx with
  | @finite c m hm =>
    have hm0 : m ≠ 0 := mt signed_eq_zero_iff.mpr ha
    cases z with
    | finite d n =>
      obtain rfl : n = 0 := of_decide_eq_true hzero
      exact ⟨c != d, by rw [Datum.div, if_pos rfl, if_neg hm0]⟩
    | _ => cases hzero

/-- A product with an infinity **is not finite**. -/
theorem not_denotes_mul_infinite (fmt : Format) (x : Datum) (negative : Bool) (b : Rat) :
    ¬ (x.mul fmt (.infinite negative)).Denotes b := by
  intro h
  cases x with
  | finite c m =>
    rw [Datum.mul] at h
    split at h <;> cases h
  | _ => cases h

/-- A quotient, as a product with a **reciprocal that is not large**, is finite. -/
theorem exists_denotes_mul_div {one : Datum} {j k : Int} (hy : y.Denotes a) (hz : z.Denotes b)
    (hone : one.Denotes 1) (ha : |a| ≤ pow2 k) (hb : pow2 (-j) ≤ |b|)
    (hj : p.Has (pow2 j)) (hjk : p.Has (pow2 (k + j))) :
    ∃ c, (y.mul p.format (one.div p.format z)).Denotes c := by
  have hb0 : b ≠ 0 := abs_pos.mp ((pow2_pos _).trans_le hb)
  have hinverse : |1 / b| ≤ pow2 j := by
    rw [abs_div, abs_one, one_div, ← inv_inv (pow2 j)]
    refine inv_anti₀ (inv_pos.mpr (pow2_pos j)) (le_of_eq_of_le ?_ hb)
    rw [pow2, pow2, zpow_neg]
  have hproduct : |a * p.format.round (1 / b)| ≤ pow2 (k + j) := by
    rw [abs_mul, pow2_add]
    exact mul_le_mul ha (Precision.abs_round_le hj hinverse) (abs_nonneg _) (pow2_pos k).le
  exact ⟨_, hy.mul (hone.div hz hb0 (Precision.abs_round_le_maxValue hj hinverse))
    (Precision.abs_round_le_maxValue hjk hproduct)⟩

end Datum

end Elementary
