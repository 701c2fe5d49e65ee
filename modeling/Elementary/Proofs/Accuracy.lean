import Elementary.Accuracy
import Elementary.Proofs.Format.Difference
import Elementary.Proofs.Format.Overflow
import Mathlib.Order.Bounds.Basic

/-!
# The unit of relative errors

A relative error is counted in the unit that belongs to the magnitude of the reference, and below
the smallest normal number in the unit that belongs to that number. Rounding counts in a quantum
whose exponent is bounded from below instead. Both are one unit, whatever the reference is, so a
rounded number is at most half a unit away from what it stands for, and half a unit exactly halfway
between two neighbouring numbers of the format.

## Main definitions

* `Format.AreNeighbours`: two numbers of a format with no other one between them.

## Main results

* `Format.abs_sub_round_eq_half_iff`: rounding is off by half a quantum exactly at the midpoints.
* `ErrorMode.ulpScale_relative`, `ErrorMode.isLeast_ulpScale`: the unit is the quantum of rounding,
  and the smallest positive number of the format below the normal numbers.
* `ErrorMode.relative_error_of_rounding`: the error of a rounded number in units.
-/

namespace Elementary

/-! ### Neighbouring numbers of a format -/

namespace Format

variable {fmt : Format} {r x y : Rat}

/-- **Neighbouring numbers of a format**, the exponent not bounded above: no other one lies between
them. -/
def AreNeighbours (fmt : Format) (x y : Rat) : Prop :=
  fmt.IsNumber x ∧ fmt.IsNumber y ∧ x < y ∧ ∀ z, fmt.IsNumber z → ¬(x < z ∧ z < y)

/-- A count **up to the next binade**, of units that are not too fine, is a number of the format. -/
theorem isNumber_intCast_mul_of_le {n e : Int} (hn : n.natAbs ≤ 2 ^ (fmt.fieldSize + 1))
    (he : fmt.minSubnormalExponent ≤ e) : fmt.IsNumber (n * pow2 e) := by
  rcases hn.lt_or_eq with hlt | heq
  · exact isNumber_intCast_mul hlt he
  · -- the power of two at the end of the binade is counted in the unit of the next one
    obtain ⟨k, rfl⟩ : (2 : Int) ∣ n := by
      rw [← Int.natAbs_dvd_natAbs, heq, pow_succ]
      exact Dvd.intro_left _ rfl
    have hk : k.natAbs < 2 ^ (fmt.fieldSize + 1) := by
      rw [Int.natAbs_mul] at heq
      have := Nat.two_pow_pos (fmt.fieldSize + 1)
      omega
    have hunit : ((2 * k : Int) : Rat) * pow2 e = k * pow2 (e + 1) := by
      rw [pow2_add_one]
      push_cast
      ring
    rw [hunit]
    exact isNumber_intCast_mul hk (by omega)

theorem isNumber_zero : fmt.IsNumber 0 := by
  have h : fmt.IsNumber ((0 : Int) * pow2 fmt.minSubnormalExponent) :=
    isNumber_intCast_mul (Nat.two_pow_pos _) le_rfl
  rwa [Int.cast_zero, zero_mul] at h

/-- The unit of the subnormal numbers is the quantum of **the smallest normal one**. -/
theorem minSubnormalExponent_eq (fmt : Format) :
    fmt.minSubnormalExponent = fmt.minNormalExponent - fmt.fieldSize := by
  rw [minSubnormalExponent, minNormalExponent]
  ring

/-- The count of quanta of a number has **no more bits than a significand**. -/
theorem abs_div_quantum_lt (hr : r ≠ 0) :
    |r / pow2 (fmt.quantumExponent |r|)| < 2 ^ (fmt.fieldSize + 1) := by
  have hpos := pow2_pos (fmt.quantumExponent |r|)
  have hexponent : floorLog2 |r| + 1 ≤ (fmt.fieldSize + 1 : Nat) + fmt.quantumExponent |r| := by
    rw [quantumExponent]
    omega
  rw [abs_div, abs_of_pos hpos, div_lt_iff₀ hpos]
  calc |r| < pow2 (floorLog2 |r| + 1) := lt_pow2_floorLog2_add_one (abs_pos.mpr hr)
    _ ≤ pow2 ((fmt.fieldSize + 1 : Nat) + fmt.quantumExponent |r|) := pow2_le_pow2.mpr hexponent
    _ = 2 ^ (fmt.fieldSize + 1) * pow2 (fmt.quantumExponent |r|) := by
        rw [pow2_add, pow2_natCast]
        push_cast
        ring

/-- Next to a number, **the counts of its quantum** are numbers of the format. -/
theorem isNumber_next {k : Int} (hr : r ≠ 0)
    (hk : |r / pow2 (fmt.quantumExponent |r|) - k| < 1) :
    fmt.IsNumber (k * pow2 (fmt.quantumExponent |r|)) := by
  have hexponent : fmt.minSubnormalExponent ≤ fmt.quantumExponent |r| := by
    rw [quantumExponent, minSubnormalExponent_eq]
    exact sub_le_sub_right (le_max_right _ _) _
  have hcount : |(k : Rat)| < (2 ^ (fmt.fieldSize + 1) : Nat) + 1 := by
    calc |(k : Rat)| ≤ |r / pow2 (fmt.quantumExponent |r|)| +
          |r / pow2 (fmt.quantumExponent |r|) - k| := by
          rw [abs_sub_comm]
          have h := abs_add_le (r / pow2 (fmt.quantumExponent |r|))
            (k - r / pow2 (fmt.quantumExponent |r|))
          rwa [add_sub_cancel] at h
      _ < (2 ^ (fmt.fieldSize + 1) : Nat) + 1 := by
          push_cast
          exact add_lt_add (abs_div_quantum_lt hr) hk
  exact isNumber_intCast_mul_of_le (natAbs_le_of_abs_lt hcount) hexponent

/-- **A number off by half a quantum** lies halfway between neighbouring numbers of the format. -/
theorem exists_areNeighbours (hr : r ≠ 0)
    (h : |r - fmt.round r| = 1 / 2 * pow2 (fmt.quantumExponent |r|)) :
    ∃ x y, fmt.AreNeighbours x y ∧ r = (x + y) / 2 := by
  have hpos := pow2_pos (fmt.quantumExponent |r|)
  obtain ⟨k, hk⟩ : ∃ k : Int, r / pow2 (fmt.quantumExponent |r|) = k + 1 / 2 := by
    rw [abs_sub_round] at h
    rcases (abs_eq (by norm_num)).mp (mul_right_cancel₀ hpos.ne' h) with h | h
    · exact ⟨_, sub_eq_iff_eq_add'.mp h⟩
    · refine ⟨roundHalfEven (r / pow2 (fmt.quantumExponent |r|)) - 1, ?_⟩
      push_cast
      linarith
  have hmiddle : r = (k + 1 / 2) * pow2 (fmt.quantumExponent |r|) := (div_eq_iff hpos.ne').mp hk
  have hlow : fmt.IsNumber (k * pow2 (fmt.quantumExponent |r|)) :=
    isNumber_next hr (by rw [hk]; norm_num)
  have hhigh : fmt.IsNumber ((k + 1 : Int) * pow2 (fmt.quantumExponent |r|)) :=
    isNumber_next hr (by rw [hk]; push_cast; norm_num)
  refine ⟨_, _, ⟨hlow, hhigh, ?_, ?_⟩, ?_⟩
  · push_cast
    linarith
  · -- a number between them would be nearer than the rounded one
    rintro z hz ⟨hkz, hzk⟩
    push_cast at hzk
    have hnear : |r - z| < 1 / 2 * pow2 (fmt.quantumExponent |r|) := by
      rw [abs_lt]
      constructor <;> linarith
    exact absurd (h ▸ hz.abs_sub_round_le) (not_le.mpr hnear)
  · push_cast
    linarith

/-- **Halfway between neighbouring numbers** both of them are as near as the rounded number. -/
theorem AreNeighbours.abs_sub_eq (h : fmt.AreNeighbours x y) (hr : r = (x + y) / 2) :
    |r - x| = |r - fmt.round r| ∧ |r - y| = |r - fmt.round r| := by
  obtain ⟨hx, hy, hlt, hbetween⟩ := h
  have hxr : |r - x| = (y - x) / 2 := by
    rw [abs_of_nonneg] <;> linarith
  have hyr : |r - y| = (y - x) / 2 := by
    rw [abs_of_nonpos] <;> linarith
  have hfar : (y - x) / 2 ≤ |r - fmt.round r| := by
    rcases not_and_or.mp (hbetween _ (isNumber_round fmt r)) with h | h
    · exact le_abs.mpr (Or.inl (by linarith))
    · exact le_abs.mpr (Or.inr (by linarith))
  have heq : |r - fmt.round r| = (y - x) / 2 :=
    le_antisymm (hxr ▸ hx.abs_sub_round_le) hfar
  exact ⟨hxr.trans heq.symm, hyr.trans heq.symm⟩

/-- A number that is as far from another number of the format as from the rounded one is **off by
half a quantum**. -/
theorem IsNumber.abs_sub_round_eq_half (hy : fmt.IsNumber y)
    (htie : |r - y| = |r - fmt.round r|) (hne : y ≠ fmt.round r) :
    |r - fmt.round r| = 1 / 2 * pow2 (fmt.quantumExponent |r|) := by
  have hpos := pow2_pos (fmt.quantumExponent |r|)
  obtain ⟨n, k, hn, hk, hround, rfl⟩ := hy.even_of_tie htie hne
  have hapart := one_le_abs_sub_add_abs_sub (r / pow2 (fmt.quantumExponent |r|))
    (m := n) (n := k) (by omega)
  rw [hround, abs_sub_mul_pow2, abs_sub_mul_pow2] at htie
  rw [mul_right_cancel₀ hpos.ne' htie] at hapart
  apply le_antisymm
  · rw [abs_sub_round]
    exact mul_le_mul_of_nonneg_right (abs_sub_roundHalfEven_le_half _) hpos.le
  · rw [hround, abs_sub_mul_pow2]
    exact mul_le_mul_of_nonneg_right (by linarith) hpos.le

/-- **Rounding is off by half a quantum** exactly halfway between two neighbouring numbers of the
format. -/
theorem abs_sub_round_eq_half_iff (hr : r ≠ 0) :
    |r - fmt.round r| = 1 / 2 * pow2 (fmt.quantumExponent |r|) ↔
      ∃ x y, fmt.AreNeighbours x y ∧ r = (x + y) / 2 := by
  refine ⟨exists_areNeighbours hr, ?_⟩
  rintro ⟨x, y, h, hmiddle⟩
  obtain ⟨hx, hy⟩ := h.abs_sub_eq hmiddle
  by_cases hround : x = fmt.round r
  · exact h.2.1.abs_sub_round_eq_half hy (hround ▸ h.2.2.1.ne')
  · exact h.1.abs_sub_round_eq_half hx hround

/-- Zero lies between no neighbouring numbers. -/
theorem AreNeighbours.ne_zero (h : fmt.AreNeighbours x y) (hr : r = (x + y) / 2) : r ≠ 0 := by
  rintro rfl
  obtain ⟨-, -, hlt, hbetween⟩ := h
  exact hbetween 0 isNumber_zero ⟨by linarith, by linarith⟩

/-- The **smallest positive number** of a format. -/
theorem isLeast_minSubnormal (fmt : Format) :
    IsLeast {x | fmt.IsNumber x ∧ 0 < x} (pow2 fmt.minSubnormalExponent) := by
  refine ⟨⟨isNumber_pow2 le_rfl, pow2_pos _⟩, ?_⟩
  rw [minSubnormalExponent_eq]
  rintro _ ⟨⟨s, m, e, hs, -, he, rfl⟩, hpos⟩
  have hcount : (0 : Rat) < s * m := pos_of_mul_pos_left hpos (pow2_pos _).le
  have hone : (1 : Rat) ≤ s * m := by exact_mod_cast hcount
  calc pow2 (fmt.minNormalExponent - fmt.fieldSize) ≤ pow2 (e - fmt.fieldSize) :=
        pow2_le_pow2.mpr (by omega)
    _ = 1 * pow2 (e - fmt.fieldSize) := (one_mul _).symm
    _ ≤ s * m * pow2 (e - fmt.fieldSize) := mul_le_mul_of_nonneg_right hone (pow2_pos _).le

end Format

/-! ### Errors in units -/

namespace ErrorMode

variable {fmt : Format} {r : Rat}

theorem ulpScale_pos (mode : ErrorMode) (fmt : Format) (r : Rat) : 0 < mode.ulpScale fmt r := by
  cases mode <;> exact pow2_pos _

/-- Below the smallest normal number the unit is **the unit of that number**. -/
theorem ulpScale_of_lt (h : |r| < pow2 fmt.minNormalExponent) :
    relative.ulpScale fmt r = pow2 fmt.minSubnormalExponent := by
  have hbinade : floorLog2 (pow2 fmt.minNormalExponent) = fmt.minNormalExponent :=
    floorLog2_eq le_rfl (pow2_lt_pow2.mpr (by omega))
  simp only [ulpScale, rat_abs_eq, if_pos h, hbinade]
  rw [Format.minSubnormalExponent_eq]

/-- From the smallest normal number on the unit is that of **the binade of the reference**. -/
theorem ulpScale_of_le (h : pow2 fmt.minNormalExponent ≤ |r|) :
    relative.ulpScale fmt r = pow2 (floorLog2 |r| - fmt.fieldSize) := by
  simp only [ulpScale, rat_abs_eq, if_neg h.not_gt]

/-- **The unit of relative errors is the quantum of rounding**: a bound on the magnitude does what
a bound on the exponent does. -/
theorem ulpScale_relative (hr : r ≠ 0) :
    relative.ulpScale fmt r = pow2 (fmt.quantumExponent |r|) := by
  rcases lt_or_ge |r| (pow2 fmt.minNormalExponent) with h | h
  · have hbinade : floorLog2 |r| < fmt.minNormalExponent := floorLog2_lt (abs_pos.mpr hr) h
    rw [ulpScale_of_lt h, Format.quantumExponent, max_eq_right hbinade.le,
      Format.minSubnormalExponent_eq]
  · have hbinade : fmt.minNormalExponent ≤ floorLog2 |r| := by
      by_contra hlt
      exact absurd (lt_pow2_floorLog2_add_one (abs_pos.mpr hr))
        (not_lt.mpr ((pow2_le_pow2.mpr (by omega)).trans h))
    rw [ulpScale_of_le h, Format.quantumExponent, max_eq_left hbinade]

/-- Below the normal numbers the unit is the **smallest positive number** of the format. -/
theorem isLeast_ulpScale (h : |r| < pow2 fmt.minNormalExponent) :
    IsLeast {x | fmt.IsNumber x ∧ 0 < x} (relative.ulpScale fmt r) :=
  ulpScale_of_lt h ▸ fmt.isLeast_minSubnormal

/-- **Rounding counts in the unit** of relative errors, for a zero as well. -/
theorem round_eq_mul_ulpScale (fmt : Format) (r : Rat) :
    fmt.round r = roundHalfEven (r / relative.ulpScale fmt r) * relative.ulpScale fmt r := by
  rcases eq_or_ne r 0 with rfl | hr
  · have hzero : roundHalfEven 0 = 0 := roundHalfEven_intCast 0
    rw [Format.round, if_pos rfl, zero_div, hzero, Int.cast_zero, zero_mul]
  · rw [ulpScale_relative hr, ← Format.round_eq]

/-- The error of a candidate in units. -/
theorem ulpError_eq (mode : ErrorMode) (fmt : Format) (c r : Rat) :
    mode.ulpError fmt c r = |r - c| / mode.ulpScale fmt r := by
  rw [ulpError, rat_abs_eq, abs_sub_comm]

/-- **Only the reference itself** has no error. -/
theorem ulpError_eq_zero_iff {mode : ErrorMode} {c : Rat} :
    mode.ulpError fmt c r = 0 ↔ c = r := by
  rw [ulpError_eq, div_eq_zero_iff, or_iff_left (ulpScale_pos mode fmt r).ne', abs_eq_zero,
    sub_eq_zero, eq_comm]

/-- **A rounded number** is at most half a unit away from the reference. -/
theorem ulpError_round_le (fmt : Format) (r : Rat) :
    relative.ulpError fmt (fmt.round r) r ≤ 1 / 2 := by
  rcases eq_or_ne r 0 with rfl | hr
  · rw [ulpError_eq_zero_iff.mpr (by rw [Format.round, if_pos rfl])]
    norm_num
  · rw [ulpError_eq, ulpScale_relative hr, Format.abs_sub_round, mul_div_cancel_right₀ _
      (pow2_ne_zero _)]
    exact abs_sub_roundHalfEven_le_half _

/-- A rounded number is **half a unit away** exactly from the midpoints. -/
theorem ulpError_round_eq_half_iff :
    relative.ulpError fmt (fmt.round r) r = 1 / 2 ↔
      ∃ x y, fmt.AreNeighbours x y ∧ r = (x + y) / 2 := by
  rcases eq_or_ne r 0 with rfl | hr
  · rw [ulpError_eq_zero_iff.mpr (by rw [Format.round, if_pos rfl])]
    refine iff_of_false (by norm_num) ?_
    rintro ⟨x, y, h, hmiddle⟩
    exact h.ne_zero hmiddle rfl
  · rw [ulpError_eq, ulpScale_relative hr, div_eq_iff (pow2_ne_zero _),
      Format.abs_sub_round_eq_half_iff hr]

/-- **Relative errors are measured in the quantum of rounding.** The unit at a reference is the
quantum that rounding uses for it, and the smallest positive number of the format for zero and
below the normal numbers. So the error of the rounded reference is at most half a unit, and half a
unit exactly halfway between two neighbouring numbers of the format with its exponent not bounded
above. No candidate but the reference itself is without error. -/
theorem relative_error_of_rounding (fmt : Format) (r : Rat) :
    (r ≠ 0 → relative.ulpScale fmt r = pow2 (fmt.quantumExponent |r|)) ∧
    (|r| < pow2 fmt.minNormalExponent →
      relative.ulpScale fmt r = pow2 fmt.minSubnormalExponent ∧
        IsLeast {x | fmt.IsNumber x ∧ 0 < x} (relative.ulpScale fmt r)) ∧
    fmt.round r = roundHalfEven (r / relative.ulpScale fmt r) * relative.ulpScale fmt r ∧
    relative.ulpError fmt (fmt.round r) r ≤ 1 / 2 ∧
    (relative.ulpError fmt (fmt.round r) r = 1 / 2 ↔
      ∃ x y, fmt.AreNeighbours x y ∧ r = (x + y) / 2) ∧
    ∀ c, relative.ulpError fmt c r = 0 ↔ c = r :=
  ⟨ulpScale_relative, fun h => ⟨ulpScale_of_lt h, isLeast_ulpScale h⟩,
    round_eq_mul_ulpScale fmt r, ulpError_round_le fmt r, ulpError_round_eq_half_iff,
    fun _ => ulpError_eq_zero_iff⟩

/-- Just below one the unit is half of the unit above one: halfway between one and the number before
it, rounding is half a unit off. -/
example : relative.ulpError Precision.single.format 1 (1 - pow2 (-25)) = 1 / 2 := by
  decide +kernel

end ErrorMode

end Elementary
