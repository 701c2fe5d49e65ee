import Elementary.Format.Coding
import Elementary.Proofs.Number.Binade

/-!
# The numbers of a format

The nonnegative numbers of a format, with no bound above on the exponent, are the magnitudes that
an exponent field and a fraction field denote. Every one of them is a count of the unit that
belongs to its exponent field; the count has a leading one unless the exponent field is zero.
Rounding always gives such a magnitude, also when it carries into the next binade or from the
largest subnormal number into the smallest normal one, and it leaves these magnitudes alone.

## Main results

* `exists_magnitude_eq_roundPositive`: rounding gives a number of the format.
* `roundPositive_magnitude`: rounding changes no number of the format.
* `magnitude_le_maxValue_iff`: the finite numbers are those whose exponent field is below the
  special one.
-/

namespace Elementary.Format

variable (fmt : Format)

/-- The **significand** that two fields denote: the fraction, with a leading one unless the
exponent field is zero. -/
def significand (exponentField fraction : Nat) : Nat :=
  if exponentField = 0 then fraction else 2 ^ fmt.fieldSize + fraction

/-- The exponent of the **unit** that belongs to an exponent field. Zero, the field of the
subnormal numbers, has the unit of the field one. -/
def unitExponent (exponentField : Nat) : Int :=
  (max exponentField 1 : Nat) + fmt.bias - fmt.fieldSize

/-- A magnitude is its significand in units. -/
theorem magnitude_eq (E m : Nat) :
    fmt.magnitude E m = fmt.significand E m * pow2 (fmt.unitExponent E) := by
  rw [magnitude, significand, unitExponent, minSubnormalExponent]
  by_cases hE : E = 0
  · subst hE
    simp only [if_true, Nat.zero_le, sup_of_le_right, Nat.cast_one]
    congr 2
    ring
  · have hmax : max E 1 = E := by omega
    rw [if_neg hE, if_neg hE, hmax]
    norm_cast

/-! ### The fields of a format -/

theorem two_pow_fieldSize_pos : 0 < 2 ^ fmt.fieldSize := Nat.two_pow_pos _

/-- The special exponent field is not zero: there is room for the numbers. -/
theorem specialExponent_pos : 0 < fmt.specialExponent := by
  have h : 2 ≤ 2 ^ fmt.exponentSize := by
    calc 2 = 2 ^ 1 := rfl
      _ ≤ 2 ^ fmt.exponentSize := Nat.pow_le_pow_right two_pos fmt.exponentSize_pos
  simp only [specialExponent, Nat.pow_eq]
  omega

theorem specialExponent_add_one : fmt.specialExponent + 1 = 2 ^ fmt.exponentSize := by
  have h := Nat.two_pow_pos fmt.exponentSize
  simp only [specialExponent, Nat.pow_eq]
  omega

/-- The largest exponent belongs to the last exponent field before the special one. -/
theorem maxExponent_eq : fmt.maxExponent = fmt.specialExponent - 1 + fmt.bias := by
  have h := fmt.specialExponent_add_one
  rw [maxExponent, Nat.pow_eq, ← h]
  push_cast
  ring

variable {fmt} {E m : Nat}

theorem magnitude_nonneg : 0 ≤ fmt.magnitude E m := by
  rw [magnitude_eq]
  exact mul_nonneg (Nat.cast_nonneg _) (pow2_pos _).le

/-- Only the fields of zero denote zero. -/
theorem magnitude_eq_zero_iff : fmt.magnitude E m = 0 ↔ E = 0 ∧ m = 0 := by
  have hf := fmt.two_pow_fieldSize_pos
  rw [magnitude_eq, mul_eq_zero, or_iff_left (pow2_ne_zero _), Nat.cast_eq_zero, significand]
  split <;> omega

theorem magnitude_pos (h : fmt.magnitude E m ≠ 0) : 0 < fmt.magnitude E m :=
  magnitude_nonneg.lt_of_ne h.symm

/-- A normal number with exponent field `E` starts the binade that the field stands for. -/
theorem pow2_le_magnitude (hE : E ≠ 0) : pow2 (E + fmt.bias) ≤ fmt.magnitude E m := by
  have hmax : max E 1 = E := by omega
  have hunit : (E : Int) + fmt.bias = fmt.fieldSize + fmt.unitExponent E := by
    rw [unitExponent, hmax]
    ring
  rw [magnitude_eq, pow2_eq_natCast_mul hunit, natCast_mul_pow2_le, significand, if_neg hE]
  exact Nat.le_add_right _ _

/-- A number with exponent field `E` lies below the binade of the next field. -/
theorem magnitude_lt_pow2 (hm : m < 2 ^ fmt.fieldSize) :
    fmt.magnitude E m < pow2 (E + 1 + fmt.bias) := by
  by_cases hE : E = 0
  · have hunit : ((E : Int) + 1) + fmt.bias = fmt.fieldSize + fmt.unitExponent E := by
      subst hE
      simp [unitExponent]
    rw [magnitude_eq, pow2_eq_natCast_mul hunit, natCast_mul_pow2_lt, significand, if_pos hE]
    exact hm
  · have hmax : max E 1 = E := by omega
    have hunit : ((E : Int) + 1) + fmt.bias =
        ((fmt.fieldSize + 1 : Nat) : Int) + fmt.unitExponent E := by
      rw [unitExponent, hmax]
      push_cast
      ring
    rw [magnitude_eq, pow2_eq_natCast_mul hunit, natCast_mul_pow2_lt, significand, if_neg hE,
      Nat.pow_succ]
    omega

/-- The binary exponent of a normal number is its exponent field, shifted by the bias. -/
theorem floorLog2_magnitude (hm : m < 2 ^ fmt.fieldSize) (hE : E ≠ 0) :
    floorLog2 (fmt.magnitude E m) = E + fmt.bias := by
  apply floorLog2_eq (pow2_le_magnitude hE)
  rw [show (E : Int) + fmt.bias + 1 = E + 1 + fmt.bias by ring]
  exact magnitude_lt_pow2 hm

/-- A positive subnormal number lies below the normal binades. -/
theorem floorLog2_magnitude_lt (hm : m < 2 ^ fmt.fieldSize) (h : fmt.magnitude 0 m ≠ 0) :
    floorLog2 (fmt.magnitude 0 m) < fmt.minNormalExponent := by
  apply floorLog2_lt (magnitude_pos h)
  have hlt := magnitude_lt_pow2 (E := 0) hm
  simpa [minNormalExponent] using hlt

/-! ### Rounding and the numbers of the format -/

/-- A number of the format is rounded to the unit of its exponent field. -/
theorem quantumExponent_magnitude (hm : m < 2 ^ fmt.fieldSize) (h : fmt.magnitude E m ≠ 0) :
    fmt.quantumExponent (fmt.magnitude E m) = fmt.unitExponent E := by
  rw [quantumExponent, unitExponent]
  by_cases hE : E = 0
  · subst hE
    have hlt := floorLog2_magnitude_lt hm h
    rw [max_eq_right hlt.le, minNormalExponent]
    simp
  · have hlog := floorLog2_magnitude hm hE
    have hmax : max E 1 = E := by omega
    rw [hlog, hmax, max_eq_left]
    rw [minNormalExponent]
    omega

/-- **Rounding changes no number of the format.** -/
theorem roundPositive_magnitude (hm : m < 2 ^ fmt.fieldSize) (h : fmt.magnitude E m ≠ 0) :
    fmt.roundPositive (fmt.magnitude E m) = fmt.magnitude E m := by
  have hunit := pow2_ne_zero (fmt.unitExponent E)
  have hcount : fmt.magnitude E m / pow2 (fmt.unitExponent E) =
      ((fmt.significand E m : Int) : Rat) := by
    rw [magnitude_eq, mul_div_cancel_right₀ _ hunit, Int.cast_natCast]
  unfold roundPositive
  rw [quantumExponent_magnitude hm h]
  dsimp only
  rw [hcount, roundHalfEven_intCast, magnitude_eq, Int.cast_natCast]

/-- A count of units that needs at most one bit more than the fraction field, and that has a
leading one unless the unit is that of the subnormal numbers, is a number of the format. The
largest such count is the first number of the next binade. -/
theorem exists_magnitude_eq {n : Nat} {e : Int} (hn : n ≤ 2 ^ (fmt.fieldSize + 1))
    (he : fmt.minNormalExponent ≤ e) (hlow : n < 2 ^ fmt.fieldSize → e = fmt.minNormalExponent) :
    ∃ E m, m < 2 ^ fmt.fieldSize ∧ (n : Rat) * pow2 (e - fmt.fieldSize) = fmt.magnitude E m := by
  have hf := fmt.two_pow_fieldSize_pos
  rw [Nat.pow_succ] at hn
  rw [minNormalExponent] at he hlow
  by_cases hsub : n < 2 ^ fmt.fieldSize
  · -- a subnormal number, or zero
    refine ⟨0, n, hsub, ?_⟩
    rw [magnitude_eq, significand, if_pos rfl, hlow hsub]
    simp [unitExponent]
  · obtain ⟨E, hE⟩ : ∃ E : Nat, (E : Int) = e - fmt.bias := ⟨(e - fmt.bias).toNat, by omega⟩
    have hE0 : E ≠ 0 := by omega
    by_cases htop : n < 2 * 2 ^ fmt.fieldSize
    · -- a normal number
      refine ⟨E, n - 2 ^ fmt.fieldSize, by omega, ?_⟩
      have hmax : max E 1 = E := by omega
      rw [magnitude_eq, significand, if_neg hE0, unitExponent, hmax, hE, sub_add_cancel,
        Nat.add_sub_cancel' (not_lt.mp hsub)]
    · -- the rounding has carried into the next binade
      have hn' : n = 2 ^ fmt.fieldSize * 2 := by omega
      refine ⟨E + 1, 0, hf, ?_⟩
      have hmax : max (E + 1) 1 = E + 1 := by omega
      have hunit : fmt.unitExponent (E + 1) = e - fmt.fieldSize + 1 := by
        rw [unitExponent, hmax]
        push_cast
        rw [hE]
        ring
      rw [magnitude_eq, significand, if_neg (Nat.succ_ne_zero E), hunit, pow2_add_one, hn']
      push_cast
      ring

variable (fmt) in
/-- **Rounding gives a number of the format.** -/
theorem exists_magnitude_eq_roundPositive {q : Rat} (hq : 0 < q) :
    ∃ E m, m < 2 ^ fmt.fieldSize ∧ fmt.roundPositive q = fmt.magnitude E m := by
  set e : Int := max (floorLog2 q) fmt.minNormalExponent with he
  have hunit := pow2_pos (e - fmt.fieldSize)
  have hhigh : q / pow2 (e - fmt.fieldSize) ≤ ((2 ^ (fmt.fieldSize + 1) : Nat) : Int) := by
    rw [div_le_iff₀ hunit, Int.cast_natCast,
      ← pow2_eq_natCast_mul (a := e + 1) (by push_cast; ring)]
    have hle : floorLog2 q + 1 ≤ e + 1 := by omega
    exact (lt_pow2_floorLog2_add_one hq).le.trans (pow2_le_pow2.mpr hle)
  have hnonneg : 0 ≤ roundHalfEven (q / pow2 (e - fmt.fieldSize)) :=
    le_roundHalfEven (by rw [Int.cast_zero]; exact (div_pos hq hunit).le)
  obtain ⟨n, hn⟩ := Int.eq_ofNat_of_zero_le hnonneg
  have hround : fmt.roundPositive q = n * pow2 (e - fmt.fieldSize) := by
    unfold roundPositive quantumExponent
    rw [← he]
    dsimp only
    rw [hn, Int.cast_natCast]
  rw [hround]
  apply exists_magnitude_eq
  · have := roundHalfEven_le hhigh
    omega
  · exact le_max_right _ _
  · intro hlow
    -- a number of a normal binade has a count with a leading one
    by_contra hne
    have hlog : e = floorLog2 q := by omega
    have hle : (((2 ^ fmt.fieldSize : Nat) : Int) : Rat) ≤ q / pow2 (e - fmt.fieldSize) := by
      rw [le_div_iff₀ hunit, Int.cast_natCast, ← pow2_eq_natCast_mul (a := e) (by ring), hlog]
      exact pow2_floorLog2_le hq
    have := le_roundHalfEven hle
    omega

/-! ### The largest finite number -/

variable (fmt) in
/-- The largest finite number in units of its binade. -/
theorem maxValue_eq :
    fmt.maxValue =
      ((2 ^ (fmt.fieldSize + 1) - 1 : Nat) : Rat) * pow2 (fmt.maxExponent - fmt.fieldSize) := by
  have h1 : 1 ≤ 2 ^ (fmt.fieldSize + 1) := Nat.one_le_two_pow
  have hsplit : pow2 fmt.maxExponent =
      ((2 ^ fmt.fieldSize : Nat) : Rat) * pow2 (fmt.maxExponent - fmt.fieldSize) :=
    pow2_eq_natCast_mul (by ring)
  have hinv : pow2 fmt.maxExponent * pow2 (-(fmt.fieldSize : Int)) =
      pow2 (fmt.maxExponent - fmt.fieldSize) := by
    rw [← pow2_add, sub_eq_add_neg]
  rw [maxValue, mul_sub, hinv, hsplit, Nat.cast_sub h1]
  push_cast
  ring

/-- **The finite numbers** of a format are those whose exponent field is below the special one. -/
theorem magnitude_le_maxValue_iff (hm : m < 2 ^ fmt.fieldSize) :
    fmt.magnitude E m ≤ fmt.maxValue ↔ E < fmt.specialExponent := by
  have hpos := fmt.specialExponent_pos
  have hf := fmt.two_pow_fieldSize_pos
  have hmaxExp := fmt.maxExponent_eq
  rw [maxValue_eq]
  constructor
  · intro hle
    by_contra hE
    have hE0 : E ≠ 0 := by omega
    have hexp : fmt.maxExponent + 1 ≤ E + fmt.bias := by omega
    have htop : pow2 (fmt.maxExponent + 1) ≤ fmt.magnitude E m :=
      (pow2_le_pow2.mpr hexp).trans (pow2_le_magnitude hE0)
    have hle' := htop.trans hle
    rw [pow2_eq_natCast_mul (a := fmt.maxExponent + 1) (k := fmt.fieldSize + 1)
      (b := fmt.maxExponent - fmt.fieldSize) (by push_cast; ring), natCast_mul_pow2_le] at hle'
    have := Nat.two_pow_pos (fmt.fieldSize + 1)
    omega
  · intro hE
    have hpow : 2 ^ (fmt.fieldSize + 1) = 2 * 2 ^ fmt.fieldSize := by rw [Nat.pow_succ]; omega
    by_cases hlast : E + 1 = fmt.specialExponent
    · by_cases hE0 : E = 0
      · -- the only exponent field is that of the subnormal numbers
        have hunit : fmt.unitExponent E = fmt.maxExponent - fmt.fieldSize + 1 := by
          rw [unitExponent, hmaxExp]
          omega
        have htwice : fmt.magnitude E m =
            ((2 * m : Nat) : Rat) * pow2 (fmt.maxExponent - fmt.fieldSize) := by
          rw [magnitude_eq, significand, if_pos hE0, hunit, pow2_add_one]
          push_cast
          ring
        rw [htwice, natCast_mul_pow2_le]
        omega
      · have hunit : fmt.unitExponent E = fmt.maxExponent - fmt.fieldSize := by
          rw [unitExponent, hmaxExp]
          omega
        rw [magnitude_eq, significand, if_neg hE0, hunit, natCast_mul_pow2_le]
        omega
    · have hexp : (E : Int) + 1 + fmt.bias ≤ fmt.maxExponent := by omega
      have hlt : fmt.magnitude E m ≤ pow2 fmt.maxExponent :=
        (magnitude_lt_pow2 hm).le.trans (pow2_le_pow2.mpr hexp)
      refine hlt.trans ?_
      rw [pow2_eq_natCast_mul (a := fmt.maxExponent) (k := fmt.fieldSize)
        (b := fmt.maxExponent - fmt.fieldSize) (by ring), natCast_mul_pow2_le]
      omega

end Elementary.Format
