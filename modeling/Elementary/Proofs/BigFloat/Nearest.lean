import Elementary.Proofs.BigFloat.Rounding

/-!
# Rounding does not pass what fits

A number is rounded to one of its two neighbours among the numbers of the working precision, to the
nearer one. So rounding never passes a number of the working precision, and moves a number by no
more than a half of the last bit that is kept.

## Main results

* `BinaryScale.le_roundSignificand`, `BinaryScale.roundSignificand_le_of_le`: rounding a significand
  passes no count of units.
* `BigFloat.le_roundDyadic`, `BigFloat.roundDyadic_le`: rounding passes no number of the working
  precision.
* `BigFloat.abs_roundDyadic_sub_le`: how far a number is moved.
-/

namespace Elementary

variable {bits : Nat} {q : Rat}

theorem Fits.neg (hq : Fits bits q) : Fits bits (-q) := by
  obtain ⟨n, e, hn, rfl⟩ := hq
  exact ⟨-n, e, by rwa [Int.natAbs_neg], by rw [Int.cast_neg, neg_mul]⟩

/-- What fits is a **count of the units** of a rounded significand, or less than all significands
that are rounded to these units. -/
theorem Fits.exists_count_or_lt (hbits : 0 < bits) (hq : Fits bits q) (unit : Int) :
    (∃ c : Int, q = c * pow2 unit) ∨ q < (2 ^ (bits - 1) : Nat) * pow2 unit := by
  obtain ⟨n, e, hn, rfl⟩ := hq
  rcases le_or_gt unit e with hle | hlt
  · obtain ⟨j, hj⟩ := Int.eq_ofNat_of_zero_le (Int.sub_nonneg.mpr hle)
    refine .inl ⟨n * (2 ^ j : Nat), ?_⟩
    rw [pow2_eq_natCast_mul (a := e) (b := unit) (k := j) (by omega)]
    push_cast
    ring
  · refine .inr ?_
    have hcast : (n : Rat) < (2 ^ bits : Nat) := by
      have : n < (2 ^ bits : Nat) := by omega
      exact_mod_cast this
    calc (n : Rat) * pow2 e < (2 ^ bits : Nat) * pow2 e := mul_lt_mul_of_pos_right hcast (pow2_pos e)
      _ = (2 ^ (bits - 1) : Nat) * pow2 (e + 1) := by
        rw [pow2_add_one, ← mul_assoc]
        congr 1
        obtain ⟨b, rfl⟩ := Nat.exists_eq_add_one_of_ne_zero hbits.ne'
        rw [Nat.add_sub_cancel, pow_succ]
        push_cast
        rfl
      _ ≤ (2 ^ (bits - 1) : Nat) * pow2 unit := by
        refine mul_le_mul_of_nonneg_left (pow2_le_pow2.mpr (by omega)) (by positivity)

namespace BinaryScale

variable {m k : Nat} {e : Int}

/-- The bits that are dropped of a significand that is too long. -/
theorem roundSignificand_snd (bits m : Nat) :
    (roundSignificand bits m).2 = bitLength m - bits := by
  rw [roundSignificand]
  dsimp only
  split
  · next h => omega
  · split <;> rfl

/-- **A significand is rounded to a neighbour**: the units that it reaches, or one more when what is
left is at least a half. -/
theorem roundSignificand_spec (bits m : Nat) :
    ((roundSignificand bits m).1 * 2 ^ (roundSignificand bits m).2 ≤ m ∧
      2 * (m - (roundSignificand bits m).1 * 2 ^ (roundSignificand bits m).2) ≤
        2 ^ (roundSignificand bits m).2 ∧
      m < ((roundSignificand bits m).1 + 1) * 2 ^ (roundSignificand bits m).2) ∨
    (m < (roundSignificand bits m).1 * 2 ^ (roundSignificand bits m).2 ∧
      2 * ((roundSignificand bits m).1 * 2 ^ (roundSignificand bits m).2 - m) ≤
        2 ^ (roundSignificand bits m).2) := by
  rw [roundSignificand]
  dsimp only
  split
  · exact .inl ⟨by simp, by simp, by simp⟩
  · next h =>
    obtain ⟨d, hd⟩ := Nat.exists_eq_add_one_of_ne_zero (Nat.sub_ne_zero_of_lt (Nat.lt_of_not_le h))
    rw [hd, Nat.add_sub_cancel, Nat.shiftRight_eq_div_pow, Nat.shiftLeft_eq, Nat.shiftLeft_eq,
      one_mul]
    have hpow : 2 ^ (d + 1) = 2 * 2 ^ d := Nat.pow_succ'
    have hdiv := Nat.div_mul_le_self m (2 ^ (d + 1))
    have hlt := Nat.lt_mul_div_succ m (Nat.two_pow_pos (d + 1))
    rw [mul_comm] at hlt
    generalize m / 2 ^ (d + 1) = kept at hdiv hlt
    have hsucc : (kept + 1) * 2 ^ (d + 1) = kept * 2 ^ (d + 1) + 2 ^ (d + 1) := Nat.succ_mul _ _
    split
    · exact .inr ⟨by dsimp only; omega, by dsimp only; omega⟩
    · exact .inl ⟨hdiv, by dsimp only; omega, hlt⟩

/-- Rounding a significand passes **no count of units** downwards. -/
theorem le_roundSignificand (h : k * 2 ^ (roundSignificand bits m).2 ≤ m) :
    k ≤ (roundSignificand bits m).1 := by
  have hpos := Nat.two_pow_pos (roundSignificand bits m).2
  rcases roundSignificand_spec bits m with ⟨-, -, hlt⟩ | ⟨hlt, -⟩
  · exact Nat.le_of_lt_succ (Nat.lt_of_mul_lt_mul_right (h.trans_lt hlt))
  · exact (Nat.lt_of_mul_lt_mul_right (h.trans_lt hlt)).le

/-- Rounding a significand passes **no count of units** upwards. -/
theorem roundSignificand_le_of_le (h : m ≤ k * 2 ^ (roundSignificand bits m).2) :
    (roundSignificand bits m).1 ≤ k := by
  have hpos := Nat.two_pow_pos (roundSignificand bits m).2
  rcases roundSignificand_spec bits m with ⟨hle, -, -⟩ | ⟨-, hhalf⟩
  · exact Nat.le_of_mul_le_mul_right (hle.trans h) hpos
  · have hlt : (roundSignificand bits m).1 * 2 ^ (roundSignificand bits m).2 <
        (k + 1) * 2 ^ (roundSignificand bits m).2 := by
      rw [Nat.succ_mul]
      omega
    exact Nat.le_of_lt_succ (Nat.lt_of_mul_lt_mul_right hlt)

/-- The value of a natural number that is rounded. -/
theorem toRat_round_natCast (bits m : Nat) (e : Int) :
    (round bits m e).toRat =
      (roundSignificand bits m).1 * pow2 ((roundSignificand bits m).2 + e) := by
  rw [round, Int.natAbs_natCast]
  dsimp only
  rw [if_neg (Int.natCast_nonneg m).not_gt, Dyadic.toRat_ofIntWithPrec_eq_mul_two_pow, neg_neg,
    add_comm e]
  rfl

/-- A significand that is not too long is **not rounded**. -/
theorem roundSignificand_of_le (h : bitLength m ≤ bits) : roundSignificand bits m = (m, 0) := by
  rw [roundSignificand]
  exact if_pos h

/-- A significand that is too long reaches the least one that is rounded to the same units. -/
theorem two_pow_mul_le (hbits : 0 < bits) (h : bits < bitLength m) :
    2 ^ (bits - 1) * 2 ^ (roundSignificand bits m).2 ≤ m := by
  rw [roundSignificand_snd, ← pow_add, show bits - 1 + (bitLength m - bits) = bitLength m - 1 by omega]
  exact Nat.le_of_not_lt fun hlt => by
    have := bitLength_le_iff.mpr hlt
    omega

/-- The units of a rounded significand, in those of the significand. -/
theorem natCast_mul_unit (k : Nat) (bits m : Nat) (e : Int) :
    (k : Rat) * pow2 ((roundSignificand bits m).2 + e) =
      ((k * 2 ^ (roundSignificand bits m).2 : Nat) : Rat) * pow2 e := by
  rw [pow2_eq_natCast_mul rfl, ← mul_assoc, Nat.cast_mul]

/-- A natural number of units that is short enough stays what it is. -/
theorem toRat_round_of_le (h : bitLength m ≤ bits) : (round bits m e).toRat = m * pow2 e := by
  rw [toRat_round_natCast, roundSignificand_of_le h, Nat.cast_zero, zero_add]

/-- **Rounding a natural number** of units does not pass a number that fits downwards. -/
theorem le_toRat_round (hbits : 0 < bits) (hq : Fits bits q) (h : q ≤ m * pow2 e) :
    q ≤ (round bits m e).toRat := by
  rcases le_or_gt (bitLength m) bits with hlength | hlength
  · exact h.trans_eq (toRat_round_of_le hlength).symm
  rw [toRat_round_natCast]
  have hunit := pow2_pos ((roundSignificand bits m).2 + e)
  rcases hq.exists_count_or_lt hbits ((roundSignificand bits m).2 + e) with ⟨c, rfl⟩ | hlt
  · refine mul_le_mul_of_nonneg_right ?_ hunit.le
    rcases le_or_gt c 0 with hc | hc
    · exact (Int.cast_nonpos.mpr hc).trans (Nat.cast_nonneg _)
    · obtain ⟨k, rfl⟩ := Int.eq_ofNat_of_zero_le hc.le
      rw [Int.cast_natCast, natCast_mul_unit, natCast_mul_pow2_le] at h
      exact_mod_cast le_roundSignificand h
  · refine hlt.le.trans (mul_le_mul_of_nonneg_right ?_ hunit.le)
    exact_mod_cast le_roundSignificand (two_pow_mul_le hbits hlength)

/-- **Rounding a natural number** of units does not pass a number that fits upwards. -/
theorem toRat_round_le (hbits : 0 < bits) (hq : Fits bits q) (h : m * pow2 e ≤ q) :
    (round bits m e).toRat ≤ q := by
  rcases le_or_gt (bitLength m) bits with hlength | hlength
  · exact (toRat_round_of_le hlength).trans_le h
  rw [toRat_round_natCast]
  have hunit := pow2_pos ((roundSignificand bits m).2 + e)
  rcases hq.exists_count_or_lt hbits ((roundSignificand bits m).2 + e) with ⟨c, rfl⟩ | hlt
  · refine mul_le_mul_of_nonneg_right ?_ hunit.le
    have hc : 0 ≤ c := by
      have hzero : 0 ≤ (c : Rat) * pow2 ((roundSignificand bits m).2 + e) :=
        (mul_nonneg (Nat.cast_nonneg m) (pow2_pos e).le).trans h
      exact_mod_cast nonneg_of_mul_nonneg_left hzero hunit
    obtain ⟨k, rfl⟩ := Int.eq_ofNat_of_zero_le hc
    rw [Int.cast_natCast, natCast_mul_unit, natCast_mul_pow2_le] at h
    exact_mod_cast roundSignificand_le_of_le h
  · rw [natCast_mul_unit] at hlt
    exact absurd (natCast_mul_pow2_lt e |>.mp (h.trans_lt hlt)) (two_pow_mul_le hbits hlength).not_gt

/-- A natural number of units is moved **by no more than a half of the last bit** that is kept. -/
theorem abs_toRat_round_sub_le (hbits : 0 < bits) (m : Nat) (e : Int) :
    |(round bits m e).toRat - m * pow2 e| ≤ m * pow2 e * pow2 (-bits) := by
  have hpos := pow2_pos e
  rcases le_or_gt (bitLength m) bits with hlength | hlength
  · rw [toRat_round_of_le hlength, sub_self, abs_zero]
    exact mul_nonneg (mul_nonneg (Nat.cast_nonneg m) hpos.le) (pow2_pos (-bits)).le
  rw [toRat_round_natCast]
  have hlow := two_pow_mul_le hbits hlength
  have hspec := roundSignificand_spec bits m
  rw [natCast_mul_unit]
  generalize (roundSignificand bits m).1 * 2 ^ (roundSignificand bits m).2 = kept at hspec ⊢
  generalize 2 ^ (roundSignificand bits m).2 = unit at hspec hlow
  have hhalf : 2 * |(kept : Rat) - m| ≤ unit := by
    rcases hspec with ⟨hle, hhalf, -⟩ | ⟨hlt, hhalf⟩
    · have hcast : 2 * ((m - kept : Nat) : Rat) ≤ unit := by exact_mod_cast hhalf
      rw [Nat.cast_sub hle] at hcast
      rwa [abs_sub_comm, abs_of_nonneg (sub_nonneg.mpr (Nat.cast_le.mpr hle))]
    · have hcast : 2 * ((kept - m : Nat) : Rat) ≤ unit := by exact_mod_cast hhalf
      rw [Nat.cast_sub hlt.le] at hcast
      rwa [abs_of_nonneg (sub_nonneg.mpr (Nat.cast_le.mpr hlt.le))]
  have hbits' : pow2 bits = 2 * (2 ^ (bits - 1) : Nat) := by
    rw [show (bits : Int) = (bits - 1 : Nat) + 1 by omega, pow2_add_one, pow2_natCast]
  have hbound : |(kept : Rat) - m| * pow2 bits ≤ m := by
    have hcast : ((2 ^ (bits - 1) : Nat) : Rat) * unit ≤ m := by exact_mod_cast hlow
    have hscaled := mul_le_mul_of_nonneg_left hhalf (Nat.cast_nonneg (α := Rat) (2 ^ (bits - 1)))
    rw [hbits']
    linarith
  have hinverse : pow2 (-bits) * pow2 bits = 1 := by
    rw [← pow2_add, neg_add_cancel, pow2_zero]
  rw [← sub_mul, abs_mul, abs_of_pos hpos, mul_right_comm]
  refine mul_le_mul_of_nonneg_right ?_ hpos.le
  refine le_of_mul_le_mul_right ?_ (pow2_pos bits)
  rwa [mul_assoc, hinverse, mul_one]

end BinaryScale

namespace BigFloat

variable {x : Dyadic}

theorem toRat_ofOdd (n k : Int) (hn : n % 2 = 1) :
    (Dyadic.ofOdd n k hn).toRat = n * pow2 (-k) := toRat_eq_parts _

/-- **Rounding does not pass what fits** downwards. -/
theorem le_roundDyadic (hbits : 0 < bits) (hq : Fits bits q) (h : q ≤ x.toRat) :
    q ≤ (roundDyadic bits x).toRat := by
  cases x with
  | zero => exact h
  | ofOdd n k hn =>
    rw [roundDyadic]
    split
    · exact h
    rw [toRat_ofOdd] at h
    rcases le_total 0 n with hsign | hsign
    · obtain ⟨m, rfl⟩ := Int.eq_ofNat_of_zero_le hsign
      exact BinaryScale.le_toRat_round hbits hq (by exact_mod_cast h)
    · obtain ⟨m, hm⟩ := Int.eq_ofNat_of_zero_le (Int.neg_nonneg_of_nonpos hsign)
      obtain rfl : n = -m := by omega
      rw [BinaryScale.round_neg, Dyadic.toRat_neg]
      rw [Int.cast_neg, Int.cast_natCast, neg_mul] at h
      exact le_neg_of_le_neg (BinaryScale.toRat_round_le hbits hq.neg (le_neg_of_le_neg h))

/-- **Rounding does not pass what fits** upwards. -/
theorem roundDyadic_le (hbits : 0 < bits) (hq : Fits bits q) (h : x.toRat ≤ q) :
    (roundDyadic bits x).toRat ≤ q := by
  have hneg := le_roundDyadic (x := -x) hbits hq.neg (by rw [Dyadic.toRat_neg]; linarith)
  rw [roundDyadic_neg, Dyadic.toRat_neg] at hneg
  linarith

/-- **Rounding moves a number** by no more than a half of the last bit that is kept. -/
theorem abs_roundDyadic_sub_le (hbits : 0 < bits) (x : Dyadic) :
    |(roundDyadic bits x).toRat - x.toRat| ≤ |x.toRat| * pow2 (-bits) := by
  cases x with
  | zero => simp [roundDyadic]
  | ofOdd n k hn =>
    rw [roundDyadic]
    split
    · rw [sub_self, abs_zero]
      exact mul_nonneg (abs_nonneg _) (pow2_pos _).le
    rw [toRat_ofOdd]
    rcases le_total 0 n with hsign | hsign
    · obtain ⟨m, rfl⟩ := Int.eq_ofNat_of_zero_le hsign
      rw [Int.cast_natCast, abs_of_nonneg (mul_nonneg (Nat.cast_nonneg m) (pow2_pos (-k)).le)]
      exact BinaryScale.abs_toRat_round_sub_le hbits m (-k)
    · obtain ⟨m, hm⟩ := Int.eq_ofNat_of_zero_le (Int.neg_nonneg_of_nonpos hsign)
      obtain rfl : n = -m := by omega
      rw [BinaryScale.round_neg, Dyadic.toRat_neg, Int.cast_neg, Int.cast_natCast, neg_mul, abs_neg,
        abs_of_nonneg (mul_nonneg (Nat.cast_nonneg m) (pow2_pos (-k)).le), neg_sub_neg,
        abs_sub_comm]
      exact BinaryScale.abs_toRat_round_sub_le hbits m (-k)

end BigFloat

end Elementary
