import Elementary.Proofs.BigFloat.Nearest
import Elementary.Proofs.Number.LeadingBits
import Elementary.Proofs.Number.Nearest

/-!
# The nearest number of some bits

Among the numbers of some bits there is one that is nearest to a given number, and of two that are
equally near one has an even count of the units of the last leading bit. The count is found by
rounding the number to an integer in these units. This number is described here by distances alone,
and how far it can be from the given one in proportion to its magnitude.

## Main definitions

* `IsNearest`: the nearest of the numbers of some bits.
* `roundToBits`: a number rounded in units of its last leading bit.

## Main results

* `isNearest_iff`: rounding finds the nearest number, and only one is nearest.
* `abs_roundToBits_sub_le`: the relative error of rounding.
* `abs_two_roundings_sub_le`: the relative error when a dividend and then the quotient is rounded.
-/

namespace Elementary

variable {bits : Nat} {q y z : Rat}

/-- `y` is **nearest to `q`** among the numbers of some bits; when another one is equally near, `y`
has the even count of units of the last leading bit. -/
structure IsNearest (bits : Nat) (q y : Rat) : Prop where
  fits : Fits bits y
  closest : ∀ z, Fits bits z → |q - y| ≤ |q - z|
  even : ∀ z, Fits bits z → z ≠ y → |q - z| = |q - y| →
    ∃ k : Int, y = (2 * k : Int) * leadingUnit q bits

/-- A number **rounded to some bits**: the nearest count of units of the last leading bit, a half
going to the even count. -/
def roundToBits (q : Rat) (bits : Nat) : Rat :=
  roundHalfEven (q / leadingUnit q bits) * leadingUnit q bits

/-! ### Rounding in units of the last leading bit -/

@[simp] theorem roundToBits_zero (bits : Nat) : roundToBits 0 bits = 0 := by
  have hzero : roundHalfEven 0 = 0 := roundHalfEven_intCast 0
  rw [roundToBits, zero_div, hzero, Int.cast_zero, zero_mul]

theorem roundToBits_neg (q : Rat) (bits : Nat) : roundToBits (-q) bits = -roundToBits q bits := by
  rw [roundToBits, roundToBits, leadingUnit_neg, neg_div, roundHalfEven_neg, Int.cast_neg, neg_mul]

/-- A number and its unit are scaled alike. -/
theorem leadingUnit_mul_pow2 (hq : q ≠ 0) (bits : Nat) (e : Int) :
    leadingUnit (q * pow2 e) bits = leadingUnit q bits * pow2 e := by
  have hpos : 0 < |q| := abs_pos.mpr hq
  have hbinade : floorLog2 (|q| * pow2 e) = floorLog2 |q| + e := by
    refine floorLog2_eq ?_ ?_
    · rw [pow2_add]
      exact mul_le_mul_of_nonneg_right (pow2_floorLog2_le hpos) (pow2_pos e).le
    · rw [add_right_comm, pow2_add]
      exact mul_lt_mul_of_pos_right (lt_pow2_floorLog2_add_one hpos) (pow2_pos e)
  rw [leadingUnit_eq_pow2, leadingUnit_eq_pow2, abs_mul, abs_of_pos (pow2_pos e), hbinade,
    ← pow2_add]
  congr 1
  ring

/-- **Units do not matter** for rounding. -/
theorem roundToBits_mul_pow2 (q : Rat) (bits : Nat) (e : Int) :
    roundToBits (q * pow2 e) bits = roundToBits q bits * pow2 e := by
  rcases eq_or_ne q 0 with rfl | hq
  · simp
  · rw [roundToBits, roundToBits, leadingUnit_mul_pow2 hq, mul_div_mul_right _ _ (pow2_ne_zero e),
      mul_assoc]

/-- The distance of a number from a count of units, in these units. -/
theorem abs_sub_mul_leadingUnit (q : Rat) (bits : Nat) (n : Int) :
    |q - n * leadingUnit q bits| = |q / leadingUnit q bits - n| * leadingUnit q bits :=
  abs_sub_mul_pow2 q n _

theorem abs_sub_roundToBits (q : Rat) (bits : Nat) :
    |q - roundToBits q bits| =
      |q / leadingUnit q bits - roundHalfEven (q / leadingUnit q bits)| * leadingUnit q bits :=
  abs_sub_mul_leadingUnit q bits _

/-- Rounding moves a number by no more than **half a unit**. -/
theorem abs_sub_roundToBits_le_half (q : Rat) (bits : Nat) :
    |q - roundToBits q bits| ≤ 1 / 2 * leadingUnit q bits := by
  rw [abs_sub_roundToBits]
  exact mul_le_mul_of_nonneg_right (abs_sub_roundHalfEven_le_half _) (leadingUnit_pos q bits).le

/-- **No count of units is nearer.** -/
theorem abs_sub_roundToBits_le_count (q : Rat) (bits : Nat) (n : Int) :
    |q - roundToBits q bits| ≤ |q - n * leadingUnit q bits| := by
  rw [abs_sub_roundToBits, abs_sub_mul_leadingUnit]
  exact mul_le_mul_of_nonneg_right (abs_sub_roundHalfEven_le _ n) (leadingUnit_pos q bits).le

/-- What rounding gives **fits**. -/
theorem fits_roundToBits (hbits : 1 ≤ bits) (q : Rat) : Fits bits (roundToBits q bits) := by
  rcases eq_or_ne q 0 with rfl | hq
  · rw [roundToBits_zero]
    exact ⟨0, 0, by simp, by simp⟩
  have hunit := leadingUnit_pos q bits
  obtain ⟨hlow, hhigh⟩ := abs_lt.mp (leadingUnit_bounds hq hbits).2
  have hle : roundHalfEven (q / leadingUnit q bits) ≤ (2 ^ bits : Nat) := by
    refine roundHalfEven_le ?_
    rw [div_le_iff₀ hunit, Int.cast_natCast]
    exact hhigh.le
  have hge : -((2 ^ bits : Nat) : Int) ≤ roundHalfEven (q / leadingUnit q bits) := by
    refine le_roundHalfEven ?_
    rw [le_div_iff₀ hunit, Int.cast_neg, Int.cast_natCast, neg_mul]
    exact hlow.le
  exact fits_of_natAbs_le (by omega) (by omega)

/-- What fits is a count of units of the last leading bit. -/
theorem Fits.exists_count (hbits : 1 ≤ bits) (h : Fits bits q) :
    ∃ k : Int, q = k * leadingUnit q bits := by
  rcases lt_trichotomy q 0 with hq | rfl | hq
  · rcases h.neg.exists_count_or_lt hbits (floorLog2 q.abs - bits + 1) with ⟨k, hk⟩ | hlt
    · exact ⟨-k, by rw [Int.cast_neg, neg_mul]; exact neg_eq_iff_eq_neg.mp hk⟩
    · have hlow := (leadingUnit_bounds hq.ne hbits).1
      rw [abs_of_neg hq] at hlow
      exact absurd hlt hlow.not_gt
  · exact ⟨0, by simp⟩
  · rcases h.exists_count_or_lt hbits (floorLog2 q.abs - bits + 1) with ⟨k, hk⟩ | hlt
    · exact ⟨k, hk⟩
    · have hlow := (leadingUnit_bounds hq.ne' hbits).1
      rw [abs_of_pos hq] at hlow
      exact absurd hlt hlow.not_gt

/-- **What fits is rounded to itself.** -/
theorem roundToBits_of_fits (hbits : 1 ≤ bits) (h : Fits bits q) : roundToBits q bits = q := by
  obtain ⟨k, hk⟩ := h.exists_count hbits
  have hquotient : q / leadingUnit q bits = k := by
    rw [div_eq_iff (leadingUnit_pos q bits).ne']
    exact hk
  rw [roundToBits, hquotient, roundHalfEven_intCast, ← hk]

/-! ### The nearest number -/

/-- What fits is a count of units of the last leading bit of a positive number, or lies **farther
away** from this number than what it is rounded to. -/
theorem Fits.count_or_farther (hbits : 1 ≤ bits) (hq : 0 < q) (hz : Fits bits z) :
    (∃ k : Int, z = k * leadingUnit q bits) ∨ |q - roundToBits q bits| < |q - z| := by
  refine (hz.exists_count_or_lt hbits (floorLog2 q.abs - bits + 1)).imp_right fun hlt => ?_
  -- the power of two with which the binade of `q` starts is nearer than `z`
  have hlow := (leadingUnit_bounds hq.ne' hbits).1
  rw [abs_of_pos hq] at hlow
  have hstart := abs_sub_roundToBits_le_count q bits (2 ^ (bits - 1) : Nat)
  rw [Int.cast_natCast, abs_of_nonneg (sub_nonneg.mpr hlow)] at hstart
  change z < (2 ^ (bits - 1) : Nat) * leadingUnit q bits at hlt
  rw [abs_of_pos (a := q - z) (by linarith)]
  linarith

theorem IsNearest.neg (h : IsNearest bits q y) : IsNearest bits (-q) (-y) := by
  have hreflect : ∀ z, |-q - z| = |q - -z| := fun z => by
    rw [← abs_neg]
    ring_nf
  refine ⟨h.fits.neg, fun z hz => ?_, fun z hz hne heq => ?_⟩
  · rw [hreflect, hreflect, neg_neg]
    exact h.closest _ hz.neg
  · rw [hreflect, hreflect, neg_neg] at heq
    obtain ⟨k, hk⟩ := h.even (-z) hz.neg (fun h => hne (by rw [← h, neg_neg])) heq
    refine ⟨-k, ?_⟩
    rw [leadingUnit_neg, hk]
    push_cast
    ring

theorem isNearest_roundToBits_of_pos (hbits : 1 ≤ bits) (hq : 0 < q) :
    IsNearest bits q (roundToBits q bits) := by
  refine ⟨fits_roundToBits hbits q, fun z hz => ?_, fun z hz hne heq => ?_⟩
  · rcases hz.count_or_farther hbits hq with ⟨k, rfl⟩ | hlt
    · exact abs_sub_roundToBits_le_count q bits k
    · exact hlt.le
  · rcases hz.count_or_farther hbits hq with ⟨k, rfl⟩ | hlt
    · rw [abs_sub_mul_leadingUnit, abs_sub_roundToBits] at heq
      have heven := (even_of_abs_sub_eq (mul_right_cancel₀ (leadingUnit_pos q bits).ne' heq)
        (fun h => hne (by rw [roundToBits, h]))).1
      refine ⟨roundHalfEven (q / leadingUnit q bits) / 2, ?_⟩
      rw [Int.mul_ediv_cancel' (Int.dvd_of_emod_eq_zero heven), roundToBits]
    · exact absurd heq hlt.ne'

/-- **Rounding finds the nearest number.** -/
theorem isNearest_roundToBits (hbits : 1 ≤ bits) (q : Rat) :
    IsNearest bits q (roundToBits q bits) := by
  rcases lt_trichotomy q 0 with hq | rfl | hq
  · have h := (isNearest_roundToBits_of_pos hbits (neg_pos.mpr hq)).neg
    rwa [neg_neg, roundToBits_neg, neg_neg] at h
  · refine ⟨fits_roundToBits hbits 0, fun z hz => ?_, fun z hz hne heq => ?_⟩
    · rw [roundToBits_zero, sub_self, abs_zero]
      exact abs_nonneg _
    · rw [roundToBits_zero] at hne heq
      rw [sub_self, abs_zero, abs_eq_zero] at heq
      exact absurd (by linarith) hne
  · exact isNearest_roundToBits_of_pos hbits hq

/-- **Only one number is nearest**: two with even counts would be too far apart. -/
theorem isNearest_iff (hbits : 1 ≤ bits) : IsNearest bits q y ↔ y = roundToBits q bits := by
  have hround := isNearest_roundToBits hbits q
  refine ⟨fun h => ?_, fun h => h ▸ hround⟩
  by_contra hne
  have heq : |q - y| = |q - roundToBits q bits| :=
    le_antisymm (h.closest _ hround.fits) (hround.closest _ h.fits)
  obtain ⟨j, hj⟩ := h.even _ hround.fits (Ne.symm hne) heq.symm
  obtain ⟨k, hk⟩ := hround.even _ h.fits hne heq
  have hunit := leadingUnit_pos q bits
  have hnear : |q - roundToBits q bits| ≤ 1 / 2 * leadingUnit q bits :=
    abs_sub_roundToBits_le_half q bits
  have hclose : |y - roundToBits q bits| ≤ leadingUnit q bits := by
    calc |y - roundToBits q bits| ≤ |y - q| + |q - roundToBits q bits| := abs_sub_le _ q _
      _ ≤ leadingUnit q bits := by
        rw [abs_sub_comm y, heq]
        linarith
  rw [hj, hk, ← sub_mul, abs_mul, abs_of_pos hunit, mul_le_iff_le_one_left hunit] at hclose
  have hapart : |2 * j - 2 * k| ≤ 1 := by exact_mod_cast hclose
  have hcount : j = k := by
    have := abs_le.mp hapart
    omega
  exact hne (hj.trans (hcount ▸ hk.symm))

/-! ### The relative error -/

/-- **The relative error of rounding** is at most a half of the last bit, and a little less: next to
a power of two the error is what the number exceeds the power by. -/
theorem abs_roundToBits_sub_le (hbits : 1 ≤ bits) (q : Rat) :
    |roundToBits q bits - q| * (1 + pow2 (-bits)) ≤ |q| * pow2 (-bits) := by
  rcases eq_or_ne q 0 with rfl | hq
  · simp
  have hlow := (leadingUnit_bounds hq hbits).1
  have hhalf := abs_sub_roundToBits_le_half q bits
  -- the start of the binade, on the side of `q`, is a count of units
  have hstart : |q - roundToBits q bits| ≤ |q| - (2 ^ (bits - 1) : Nat) * leadingUnit q bits := by
    have habove := abs_sub_roundToBits_le_count q bits (2 ^ (bits - 1) : Nat)
    have hbelow := abs_sub_roundToBits_le_count q bits (-(2 ^ (bits - 1) : Nat))
    rcases le_total 0 q with hsign | hsign
    · rw [abs_of_nonneg hsign] at hlow ⊢
      rwa [Int.cast_natCast, abs_of_nonneg (sub_nonneg.mpr hlow)] at habove
    · rw [abs_of_nonpos hsign] at hlow ⊢
      have hside : q + (2 ^ (bits - 1) : Nat) * leadingUnit q bits ≤ 0 := by linarith
      rwa [Int.cast_neg, Int.cast_natCast, neg_mul, sub_neg_eq_add, abs_of_nonpos hside,
        neg_add'] at hbelow
  have hunit : 1 / 2 * leadingUnit q bits =
      (2 ^ (bits - 1) : Nat) * leadingUnit q bits * pow2 (-bits) := by
    have hpow : ((2 ^ (bits - 1) : Nat) : Rat) * pow2 (-bits) = 1 / 2 := by
      rw [← pow2_natCast, ← pow2_add, ← pow2_neg_one]
      congr 1
      omega
    rw [mul_right_comm, hpow]
  have hpos := pow2_pos (-bits)
  rw [abs_sub_comm]
  nlinarith

/-- Rounding **keeps the sign**. -/
theorem sign_roundToBits (hbits : 1 ≤ bits) (q : Rat) :
    SignType.sign (roundToBits q bits) = SignType.sign q := by
  have herror := abs_roundToBits_sub_le hbits q
  have hpos := pow2_pos (-bits)
  rcases lt_trichotomy q 0 with hq | rfl | hq
  · have hlt : |roundToBits q bits - q| < -q := by
      rw [abs_of_neg hq] at herror
      nlinarith
    rw [sign_neg hq, sign_neg (by linarith [(abs_lt.mp hlt).2])]
  · rw [roundToBits_zero]
  · have hlt : |roundToBits q bits - q| < q := by
      rw [abs_of_pos hq] at herror
      nlinarith
    rw [sign_pos hq, sign_pos (by linarith [(abs_lt.mp hlt).1])]

/-- **Two roundings**, one of the dividend and one of the quotient, stay within twice the error of
one. -/
theorem abs_two_roundings_sub_le (hbits : 1 ≤ bits) (n : Rat) {d : Rat} (hd : 0 < d) :
    |roundToBits (roundToBits n bits / d) bits - n / d| ≤ pow2 (1 - bits) * |n / d| := by
  set w := pow2 (-bits) with hw
  have hpos : 0 < w := pow2_pos _
  have htwice : pow2 (1 - bits) = 2 * w := by
    rw [sub_eq_add_neg, pow2_add, pow2_one]
  have hfirst : |roundToBits n bits / d - n / d| * (1 + w) ≤ |n / d| * w := by
    rw [← sub_div, abs_div, abs_div, abs_of_pos hd, div_mul_eq_mul_div, div_mul_eq_mul_div]
    exact div_le_div_of_nonneg_right (abs_roundToBits_sub_le hbits n) hd.le
  have hsecond := abs_roundToBits_sub_le hbits (roundToBits n bits / d)
  have hquotient : |roundToBits n bits / d| ≤ |n / d| + |roundToBits n bits / d - n / d| := by
    have := abs_add_le (n / d) (roundToBits n bits / d - n / d)
    rwa [add_sub_cancel] at this
  rw [htwice]
  refine (abs_sub_le _ (roundToBits n bits / d) _).trans ?_
  generalize |roundToBits (roundToBits n bits / d) bits - roundToBits n bits / d| = second at *
  generalize |roundToBits n bits / d - n / d| = first at *
  generalize |roundToBits n bits / d| = size' at *
  have hsize : 0 ≤ |n / d| := abs_nonneg _
  generalize |n / d| = size at *
  -- the second error counts from a dividend that the first one has enlarged
  have hsecond' : second * (1 + w) * (1 + w) ≤ (size * (1 + w) + size * w) * w := by
    calc second * (1 + w) * (1 + w) ≤ (size + first) * w * (1 + w) := by
          refine mul_le_mul_of_nonneg_right (hsecond.trans ?_) (by linarith)
          exact mul_le_mul_of_nonneg_right hquotient hpos.le
      _ = (size * (1 + w) + first * (1 + w)) * w := by ring
      _ ≤ (size * (1 + w) + size * w) * w := by
          refine mul_le_mul_of_nonneg_right ?_ hpos.le
          linarith
  have hsum : (second + first) * ((1 + w) * (1 + w)) ≤ 2 * w * size * ((1 + w) * (1 + w)) := by
    calc (second + first) * ((1 + w) * (1 + w))
        = second * (1 + w) * (1 + w) + first * (1 + w) * (1 + w) := by ring
      _ ≤ (size * (1 + w) + size * w) * w + size * w * (1 + w) :=
          add_le_add hsecond' (mul_le_mul_of_nonneg_right hfirst (by linarith))
      _ ≤ 2 * w * size * ((1 + w) * (1 + w)) := by
          have hrest : 0 ≤ size * w * w * (1 + 2 * w) := by positivity
          linarith
  exact le_of_mul_le_mul_right hsum (by positivity)

end Elementary
