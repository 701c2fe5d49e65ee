import Elementary.Proofs.Format.Difference
import Elementary.Proofs.Format.Overflow

/-!
# What is left of a number

Taking the nearest integer off a number of a precision is exact: what is left is no larger than the
number, and no larger than the integer unless that is zero.

Half a unit added to a number is rounded, in general. What is left after that is small where the
number lies far from the integers: the sum lies near an integer, and a quarter on both sides of an
integer is a number of the precision, as long as the numbers are fine enough to be no halves; then
rounding stays within these quarters. Sums of halves are exact.

## Main results

* `Precision.Has.sub_nearestInteger`: what is left of a number is a number of the precision.
* `Precision.Has.remainder_add_half`: a number or half a unit more leaves a quarter at most.
-/

namespace Elementary

variable {p : Precision} {q s y : Rat}

/-- What is **left of a number** when the nearest integer is taken off. -/
def remainder (q : Rat) : Rat := q - roundHalfEven q

theorem abs_remainder_le_half (q : Rat) : |remainder q| ≤ 1 / 2 := abs_sub_roundHalfEven_le_half q

/-- No integer is nearer to a number than what is left of it. -/
theorem abs_remainder_le (q : Rat) (n : Int) : |remainder q| ≤ |q - n| :=
  abs_sub_roundHalfEven_le q n

@[simp] theorem remainder_intCast (n : Int) : remainder n = 0 := by
  rw [remainder, roundHalfEven_intCast, sub_self]

namespace Precision

/-- **Taking the nearest integer off** is exact. -/
theorem Has.sub_nearestInteger (h : p.Has q) : p.Has (remainder q) := by
  rcases eq_or_ne (roundHalfEven q) 0 with hzero | hne
  · rwa [remainder, hzero, Int.cast_zero, sub_zero]
  · -- an integer other than zero is larger than what is left
    have hinteger : (1 : Rat) ≤ |(roundHalfEven q : Rat)| := by exact_mod_cast Int.one_le_abs hne
    refine h.sub_of_near h.nearestInteger ?_ ?_
    · simpa using abs_sub_roundHalfEven_le q 0
    · linarith [abs_sub_roundHalfEven_le_half q]

/-- **Half a unit** more than a number of the precision does not overflow. -/
theorem Has.abs_round_add_half_le (h : p.Has q) :
    |p.format.round (q + 1 / 2)| ≤ p.format.maxValue := by
  have hnormal : p.format.minNormalExponent ≤ p.format.maxExponent := by cases p <;> decide
  -- overflow begins half a unit of the largest numbers above these
  have hroom : (1 / 2 : Rat) < pow2 p.format.maxExponent *
      (2 - pow2 (-(p.format.fieldSize : Int) - 1)) - p.format.maxValue := by
    have hunit : pow2 (-(p.format.fieldSize : Int)) =
        2 * pow2 (-(p.format.fieldSize : Int) - 1) := by rw [← pow2_add_one, sub_add_cancel]
    have hlarge : 1 ≤ pow2 p.format.maxExponent * pow2 (-(p.format.fieldSize : Int) - 1) := by
      rw [← pow2_add, ← pow2_zero, pow2_le_pow2]
      cases p <;> decide
    rw [Format.maxValue, hunit]
    linarith
  have hlarge : |q + 1 / 2| ≤ p.format.maxValue + 1 / 2 := by
    calc |q + 1 / 2| ≤ |q| + |(1 / 2 : Rat)| := abs_add_le _ _
      _ ≤ p.format.maxValue + 1 / 2 := by
        rw [abs_of_pos (by norm_num : (0 : Rat) < 1 / 2)]
        linarith [h.abs_le_maxValue]
  have hcoding : ¬ p.format.encode? (q + 1 / 2) = none := by
    rw [Format.encode?_eq_none_iff_of_normal hnormal]
    linarith
  rw [← rat_abs_eq]
  by_contra hover
  exact hcoding (if_pos (not_le.mp hover))

/-! ### Half a unit more -/

/-- A number that is far from the integers is near to an integer **when half a unit is added**. -/
theorem exists_near_add_half (h : 1 / 4 < |remainder q|) :
    ∃ n : Int, |q + 1 / 2 - n| < 1 / 4 := by
  have hhalf := abs_le.mp (abs_remainder_le_half q)
  rcases le_or_gt 0 (remainder q) with hsign | hsign
  · rw [abs_of_nonneg hsign] at h
    refine ⟨roundHalfEven q + 1, ?_⟩
    rw [remainder] at h hhalf
    rw [abs_lt]
    push_cast
    constructor <;> linarith
  · rw [abs_of_neg hsign] at h
    refine ⟨roundHalfEven q, ?_⟩
    rw [remainder] at h hhalf
    rw [abs_lt]
    constructor <;> linarith

/-- An integer **a quarter away** is a number of the format, if it is not too large. -/
theorem has_add_quarter {n k : Int} (hn : 4 * n.natAbs + 1 ≤ 2 ^ (p.format.fieldSize + 1))
    (hk : k.natAbs ≤ 1) : p.Has (n + k / 4) := by
  have hcount : (n : Rat) + k / 4 = ((4 * n + k : Int) : Rat) / 4 := by
    push_cast
    ring
  rw [hcount]
  exact has_quarters (by omega)

/-- A count of quarters that is far from the integers is half an integer. -/
theorem exists_intCast_add_half {j : Int} (hq : q = j / 4) (h : 1 / 4 < |remainder q|) :
    ∃ k : Int, q + 1 / 2 = k := by
  have hcount : remainder q = ((j - 4 * roundHalfEven q : Int) : Rat) / 4 := by
    rw [remainder]
    nth_rewrite 1 [hq]
    push_cast
    ring
  have hhalf := abs_remainder_le_half q
  rw [hcount, abs_div, abs_of_pos (by norm_num : (0 : Rat) < 4), ← Int.cast_abs] at h hhalf
  have hlow : 1 < |j - 4 * roundHalfEven q| := by
    have : (1 : Rat) < ((|j - 4 * roundHalfEven q| : Int) : Rat) := by linarith
    exact_mod_cast this
  have hhigh : |j - 4 * roundHalfEven q| ≤ 2 := by
    have : ((|j - 4 * roundHalfEven q| : Int) : Rat) ≤ 2 := by linarith
    exact_mod_cast this
  have htwo : |j - 4 * roundHalfEven q| = 2 := by omega
  rcases (abs_eq two_pos.le).mp htwo with hj | hj
  · refine ⟨roundHalfEven q + 1, ?_⟩
    have hcast : j = 2 + 4 * roundHalfEven q := by omega
    have hj' : (j : Rat) = 2 + 4 * roundHalfEven q := by exact_mod_cast hcast
    rw [hq] at hj' ⊢
    push_cast
    linarith
  · refine ⟨roundHalfEven q, ?_⟩
    have hcast : j = -2 + 4 * roundHalfEven q := by omega
    have hj' : (j : Rat) = -2 + 4 * roundHalfEven q := by exact_mod_cast hcast
    rw [hq] at hj' ⊢
    linarith

/-- Near to an integer that is not too large, **rounding stays near**: the numbers a quarter away
from the integer are numbers of the format. -/
theorem abs_remainder_round_le {n : Int} (hn : |y - n| < 1 / 4)
    (hcount : 4 * n.natAbs + 1 ≤ 2 ^ (p.format.fieldSize + 1)) :
    |remainder (p.format.round y)| ≤ 1 / 4 := by
  have hbelow : p.Has (n + (-1 : Int) / 4) := has_add_quarter hcount (by decide)
  have habove : p.Has (n + (1 : Int) / 4) := has_add_quarter hcount (by decide)
  push_cast at hbelow habove
  rw [abs_lt] at hn
  have hlow := hbelow.le_round (by linarith : (n : Rat) + -1 / 4 ≤ y)
  have hhigh := habove.round_le (by linarith : y ≤ (n : Rat) + 1 / 4)
  refine (abs_remainder_le _ n).trans (abs_le.mpr ?_)
  constructor <;> linarith

/-- **Of a number and half a unit more, rounded, one leaves a quarter at most** when the nearest
integer is taken off. -/
theorem Has.remainder_add_half (h : p.Has q) (hlarge : 1 / 4 < |remainder q|) :
    |remainder (p.format.round (q + 1 / 2))| ≤ 1 / 4 := by
  obtain ⟨m, e, hm, -, hq⟩ := h.exists_count
  have hfine : e ≤ -1 := by
    by_contra hwhole
    obtain ⟨k, hk⟩ := exists_intCast_mul_pow2 (by omega : 0 ≤ e) m
    rw [hq, hk, remainder_intCast] at hlarge
    norm_num at hlarge
  have hroom : 4 ≤ 2 ^ p.format.fieldSize := by cases p <;> decide
  have hpow : 2 ^ (p.format.fieldSize + 1) = 2 * 2 ^ p.format.fieldSize := Nat.pow_succ'
  rcases le_or_gt e (-3) with hsmall | hcoarse
  · -- the number is so small that quarters are fine enough
    have heighth : pow2 (-3) = 1 / 8 := by norm_num [pow2]
    have hsize := abs_le.mp (abs_intCast_mul_pow2_le hm.le hsmall)
    obtain ⟨n, hn⟩ := exists_near_add_half hlarge
    have hbounds := abs_lt.mp hn
    refine abs_remainder_round_le hn ?_
    have hn4 : (4 * n).natAbs ≤ 2 ^ p.format.fieldSize + 3 := by
      refine natAbs_le_of_abs_lt ?_
      rw [← hq, heighth, hpow] at hsize
      push_cast at hsize ⊢
      rw [abs_lt]
      constructor <;> linarith
    omega
  · -- the number counts quarters, so that half a unit more is an integer
    have hsize := abs_le.mp (abs_intCast_mul_pow2_le hm.le hfine)
    obtain ⟨j, hj⟩ := exists_intCast_mul_pow2 (by omega : 0 ≤ e + 2) m
    have hquarters : q = j / 4 := by
      rw [← hj, pow2_add, pow2_two, hq]
      ring
    obtain ⟨k, hk⟩ := exists_intCast_add_half hquarters hlarge
    have hkn : k.natAbs ≤ 2 ^ p.format.fieldSize := by
      refine natAbs_le_of_abs_lt ?_
      rw [← hq, pow2_neg_one, hpow] at hsize
      push_cast at hsize ⊢
      rw [← hk, abs_lt]
      constructor <;> linarith
    rw [hk, (has_intCast hkn).round_eq, remainder_intCast, abs_zero]
    norm_num

end Precision

end Elementary
