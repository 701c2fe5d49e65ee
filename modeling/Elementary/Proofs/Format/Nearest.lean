import Elementary.Proofs.Format.Coding
import Elementary.Proofs.Number.Nearest

/-!
# Rounding to the nearest number of a format

Rounding counts a number in units of its quantum and takes the nearest integer. A finer unit has
numbers of the format too, but only below the binade of the number, and between them and the number
lies the power of two with which the binade starts, a whole count of the quantum. So no number of
the format is nearer than the rounded one, on either side of a power of two. That is all that is
needed to see that rounding is monotone.

## Main definitions

* `Format.IsNumber`: the numbers of a format, the exponent not bounded above.

## Main results

* `Format.round_nearest_even`: rounding gives a nearest number of the format, of two the even one.
* `Format.round_mono`: rounding is monotone.
-/

namespace Elementary.Format

variable {fmt : Format} {q x y : Rat}

/-- The **numbers of a format** whose exponent has no bound above: a sign, a significand with one
bit more than the fraction field, and an exponent not below that of the normal numbers. -/
def IsNumber (fmt : Format) (q : Rat) : Prop :=
  ∃ (s : Int) (m : Nat) (e : Int), (s = 1 ∨ s = -1) ∧ m < 2 ^ (fmt.fieldSize + 1) ∧
    fmt.minNormalExponent ≤ e ∧ q = s * m * pow2 (e - fmt.fieldSize)

/-- A magnitude with a sign is a number of the format. -/
theorem isNumber_signed_magnitude {negative : Bool} {E m : Nat} (hm : m < 2 ^ fmt.fieldSize) :
    fmt.IsNumber (Datum.signed negative (fmt.magnitude E m)) := by
  refine ⟨if negative then -1 else 1, fmt.significand E m, (max E 1 : Nat) + fmt.bias,
    ?_, ?_, ?_, ?_⟩
  · cases negative <;> simp
  · rw [significand, Nat.pow_succ]
    split <;> omega
  · rw [minNormalExponent]
    omega
  · rw [magnitude_eq, unitExponent]
    cases negative <;> simp [Datum.signed]

/-- **Rounding gives a number of the format.** -/
theorem isNumber_round (fmt : Format) (q : Rat) : fmt.IsNumber (fmt.round q) := by
  obtain ⟨negative, E, m, hm, hround⟩ := fmt.exists_fields_round q
  rw [hround]
  exact isNumber_signed_magnitude hm

/-! ### Counting in units of the quantum -/

/-- Rounding takes the nearest integer to the count of quanta, whatever the sign is. -/
theorem round_eq (fmt : Format) (q : Rat) :
    fmt.round q = roundHalfEven (q / pow2 (fmt.quantumExponent |q|)) *
      pow2 (fmt.quantumExponent |q|) := by
  rw [round]
  rcases lt_trichotomy q 0 with h | rfl | h
  · rw [if_neg h.ne, if_pos h, abs_of_neg h, roundPositive, neg_div, roundHalfEven_neg]
    push_cast
    ring
  · have hzero : roundHalfEven 0 = 0 := roundHalfEven_intCast 0
    rw [if_pos rfl, zero_div, hzero, Int.cast_zero, zero_mul]
  · rw [if_neg h.ne', if_neg h.not_gt, abs_of_pos h, roundPositive]

theorem abs_sub_round (fmt : Format) (q : Rat) :
    |q - fmt.round q| = |q / pow2 (fmt.quantumExponent |q|) -
      roundHalfEven (q / pow2 (fmt.quantumExponent |q|))| * pow2 (fmt.quantumExponent |q|) := by
  rw [round_eq, abs_sub_mul_pow2]

/-- **The error of rounding** below a power of two is at most half a unit of the binade before. -/
theorem abs_sub_round_le_pow2 {e : Int} (hq : |q| < pow2 e) (he : fmt.minNormalExponent < e) :
    |q - fmt.round q| ≤ pow2 (e - fmt.fieldSize - 2) := by
  rcases eq_or_ne q 0 with rfl | hne
  · rw [round, if_pos rfl, sub_self, abs_zero]
    exact (pow2_pos _).le
  · have hbinade : floorLog2 |q| < e := floorLog2_lt (abs_pos.mpr hne) hq
    have hquantum : fmt.quantumExponent |q| - 1 ≤ e - fmt.fieldSize - 2 := by
      rw [quantumExponent]
      omega
    have hhalf : 1 / 2 * pow2 (fmt.quantumExponent |q|) = pow2 (fmt.quantumExponent |q| - 1) := by
      have htwice := pow2_add_one (fmt.quantumExponent |q| - 1)
      rw [sub_add_cancel] at htwice
      rw [htwice]
      ring
    rw [abs_sub_round]
    refine le_trans ?_ (pow2_le_pow2.mpr hquantum)
    rw [← hhalf]
    exact mul_le_mul_of_nonneg_right (abs_sub_roundHalfEven_le_half _) (pow2_pos _).le

/-- No whole count of the quantum is nearer than the rounded number. -/
theorem abs_sub_round_le_multiple (fmt : Format) (q : Rat) (n : Int) :
    |q - fmt.round q| ≤ |q - n * pow2 (fmt.quantumExponent |q|)| := by
  rw [abs_sub_round, abs_sub_mul_pow2]
  exact mul_le_mul_of_nonneg_right (abs_sub_roundHalfEven_le _ n) (pow2_pos _).le

/-- A count of the quantum that lies between zero and the number, on the side of the number. -/
theorem abs_sub_round_le_sub {n : Nat} (hn : n * pow2 (fmt.quantumExponent |q|) ≤ |q|) :
    |q - fmt.round q| ≤ |q| - n * pow2 (fmt.quantumExponent |q|) := by
  have habove := abs_sub_round_le_multiple fmt q n
  have hbelow := abs_sub_round_le_multiple fmt q (-n)
  generalize pow2 (fmt.quantumExponent |q|) = unit at *
  rcases le_total 0 q with hq | hq
  · rw [abs_of_nonneg hq] at hn ⊢
    rwa [Int.cast_natCast, abs_of_nonneg (sub_nonneg.mpr hn)] at habove
  · rw [abs_of_nonpos hq] at hn ⊢
    have hside : q + n * unit ≤ 0 := by linarith
    rwa [Int.cast_neg, Int.cast_natCast, neg_mul, sub_neg_eq_add, abs_of_nonpos hside,
      neg_add'] at hbelow

/-- A number of the format is a whole count of the quantum of `q`, or it lies below the binade of
`q`, **farther away** from `q` than the rounded number. -/
theorem IsNumber.multiple_or_farther (hy : fmt.IsNumber y) (hq : q ≠ 0) :
    (∃ n : Int, y = n * pow2 (fmt.quantumExponent |q|)) ∨ |q - fmt.round q| < |q - y| := by
  obtain ⟨s, m, e, hs, hm, he, rfl⟩ := hy
  have hpos : 0 < |q| := abs_pos.mpr hq
  by_cases hcoarse : max (floorLog2 |q|) fmt.minNormalExponent ≤ e
  · left
    obtain ⟨k, hk⟩ : ∃ k : Nat, e - fmt.fieldSize = k + fmt.quantumExponent |q| :=
      ⟨(e - max (floorLog2 |q|) fmt.minNormalExponent).toNat, by rw [quantumExponent]; omega⟩
    refine ⟨s * m * (2 ^ k : Nat), ?_⟩
    rw [pow2_eq_natCast_mul hk]
    push_cast
    ring
  · right
    -- the power of two with which the binade of `q` starts, on the side of `q`
    have hbinade : e + 1 ≤ floorLog2 |q| := by omega
    have hbelow : |(s : Rat) * m * pow2 (e - fmt.fieldSize)| < pow2 (floorLog2 |q|) := by
      calc |(s : Rat) * m * pow2 (e - fmt.fieldSize)| = m * pow2 (e - fmt.fieldSize) := by
            rw [abs_mul, abs_mul, Nat.abs_cast, abs_of_pos (pow2_pos _)]
            rcases hs with rfl | rfl <;> simp
        _ < ((2 ^ (fmt.fieldSize + 1) : Nat) : Rat) * pow2 (e - fmt.fieldSize) :=
            (natCast_mul_pow2_lt _).mpr hm
        _ = pow2 (e + 1) := (pow2_eq_natCast_mul (by push_cast; ring)).symm
        _ ≤ pow2 (floorLog2 |q|) := pow2_le_pow2.mpr hbinade
    have hstart : pow2 (floorLog2 |q|) ≤ |q| := pow2_floorLog2_le hpos
    have hunit : floorLog2 |q| = fmt.fieldSize + fmt.quantumExponent |q| := by
      rw [quantumExponent]
      omega
    have hcount := pow2_eq_natCast_mul hunit
    calc |q - fmt.round q| ≤ |q| - pow2 (floorLog2 |q|) :=
          hcount ▸ abs_sub_round_le_sub (hcount ▸ hstart)
      _ < |q| - |(s : Rat) * m * pow2 (e - fmt.fieldSize)| := by linarith
      _ ≤ |q - s * m * pow2 (e - fmt.fieldSize)| := abs_sub_abs_le_abs_sub _ _

/-! ### The nearest number -/

/-- **No number of the format is nearer** than the rounded one. -/
theorem IsNumber.abs_sub_round_le (hy : fmt.IsNumber y) : |q - fmt.round q| ≤ |q - y| := by
  by_cases hq : q = 0
  · have hround : fmt.round q = q := by rw [round, if_pos hq, hq]
    rw [hround, sub_self, abs_zero]
    exact abs_nonneg _
  · rcases hy.multiple_or_farther hq with ⟨n, rfl⟩ | hfar
    · exact abs_sub_round_le_multiple fmt q n
    · exact hfar.le

/-- **Rounding changes no number of the format.** -/
theorem IsNumber.round_eq_self (hq : fmt.IsNumber q) : fmt.round q = q := by
  have hle : |q - fmt.round q| ≤ |q - q| := hq.abs_sub_round_le
  rw [sub_self, abs_zero, abs_nonpos_iff, sub_eq_zero] at hle
  exact hle.symm

/-- **Of two numbers of the format that are equally near**, the rounded one has the even count of
quanta, and the other one an odd count. -/
theorem IsNumber.even_of_tie (hy : fmt.IsNumber y) (htie : |q - y| = |q - fmt.round q|)
    (hne : y ≠ fmt.round q) :
    ∃ n k : Int, n % 2 = 0 ∧ k % 2 = 1 ∧ fmt.round q = n * pow2 (fmt.quantumExponent |q|) ∧
      y = k * pow2 (fmt.quantumExponent |q|) := by
  have hq : q ≠ 0 := by
    rintro rfl
    have hround : fmt.round 0 = 0 := by rw [round, if_pos rfl]
    rw [hround, sub_self, abs_zero, abs_eq_zero, zero_sub, neg_eq_zero] at htie
    exact hne (htie.trans hround.symm)
  rcases hy.multiple_or_farther hq with ⟨k, rfl⟩ | hfar
  · have hpos := pow2_pos (fmt.quantumExponent |q|)
    rw [abs_sub_round, abs_sub_mul_pow2] at htie
    have hk : k ≠ roundHalfEven (q / pow2 (fmt.quantumExponent |q|)) := by
      rintro rfl
      exact hne (round_eq fmt q).symm
    obtain ⟨heven, hodd⟩ := even_of_abs_sub_eq (mul_right_cancel₀ hpos.ne' htie) hk
    exact ⟨_, k, heven, hodd, round_eq fmt q, rfl⟩
  · exact absurd htie hfar.ne'

/-- Two different numbers that are as near as the rounded one: it is one of them. -/
theorem eq_round_of_tie {z : Rat} (hy : |q - y| = |q - fmt.round q|)
    (hz : |q - z| = |q - fmt.round q|) (hne : y ≠ z) (hyr : y ≠ fmt.round q) :
    z = fmt.round q := by
  by_contra hzr
  -- both would be the reflection of the rounded number
  rcases abs_eq_abs.mp hy with h | h
  · exact hyr (sub_right_injective h)
  · rcases abs_eq_abs.mp hz with h' | h'
    · exact hzr (sub_right_injective h')
    · exact hne (sub_right_injective (h.trans h'.symm))

/-- **Rounding is monotone.** If the order were reversed, both numbers would lie on the wrong side
of the midpoint between the rounded ones. -/
theorem round_mono (h : x ≤ y) : fmt.round x ≤ fmt.round y := by
  by_contra hlt
  rw [not_le] at hlt
  have hx : |x - fmt.round x| ≤ |x - fmt.round y| := (isNumber_round fmt y).abs_sub_round_le
  have hy : |y - fmt.round y| ≤ |y - fmt.round x| := (isNumber_round fmt x).abs_sub_round_le
  have hmid : x = y := by
    rw [← sq_le_sq] at hx hy
    nlinarith
  exact hlt.ne (by rw [hmid])

/-- **Rounding is to nearest, ties to even**, subnormal numbers included. The rounded number is a
number of the format, and none is nearer. Of two that are equally near, it is the one whose count
of quanta is even. It has the opposite sign for the opposite number, and a number of the format is
left alone. -/
theorem round_nearest_even (fmt : Format) (v : Rat) :
    fmt.IsNumber (fmt.round v) ∧
    (∀ y, fmt.IsNumber y → |v - fmt.round v| ≤ |v - y|) ∧
    (∀ y z, fmt.IsNumber y → fmt.IsNumber z → y ≠ z →
      |v - y| = |v - fmt.round v| → |v - z| = |v - fmt.round v| →
      ∃ n k : Int, n % 2 = 0 ∧ k % 2 = 1 ∧ fmt.round v = n * pow2 (fmt.quantumExponent |v|) ∧
        ((y = fmt.round v ∧ z = k * pow2 (fmt.quantumExponent |v|)) ∨
          (z = fmt.round v ∧ y = k * pow2 (fmt.quantumExponent |v|)))) ∧
    fmt.round (-v) = -fmt.round v ∧
    (fmt.IsNumber v → fmt.round v = v) := by
  refine ⟨isNumber_round fmt v, fun _ hy => hy.abs_sub_round_le, ?_, round_neg v,
    fun hv => hv.round_eq_self⟩
  intro y z hy hz hne htie htie'
  by_cases hyr : y = fmt.round v
  · obtain ⟨n, k, hn, hk, hround, hzk⟩ := hz.even_of_tie htie' (hyr ▸ hne.symm)
    exact ⟨n, k, hn, hk, hround, Or.inl ⟨hyr, hzk⟩⟩
  · obtain ⟨n, k, hn, hk, hround, hyk⟩ := hy.even_of_tie htie hyr
    exact ⟨n, k, hn, hk, hround, Or.inr ⟨eq_round_of_tie htie htie' hne hyr, hyk⟩⟩

/-- Halfway between two numbers of single precision, the lower of which has an even count. -/
example : Precision.single.format.round (1 + pow2 (-24)) = 1 := by decide +kernel

end Elementary.Format
