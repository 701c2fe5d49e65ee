import Elementary.BigFloat.Basic
import Elementary.Proofs.Number.Binade
import Mathlib.Data.Nat.Prime.Basic
import Mathlib.Data.Rat.Lemmas

/-!
# Numbers that are not rounded

A number that is an integer of some bits, in units of a power of two, is rounded to itself at any
working precision with that many bits. So rounding does nothing to it, a rational of this form comes
to the working precision as itself, and what is left are the operations that are exact anyway:
negation, magnitude, order, scaling and the integral part.

## Main definitions

* `Fits`: the numbers of some bits.

## Main results

* `BigFloat.roundDyadic_eq_self`, `BigFloat.exists_ofRat`: what fits is not rounded.
* `BigFloat.compare?_finite`: the order is that of the exact values.
* `BigFloat.floorDyadic_eq`: the integral part is that of the exact value.
-/

namespace Elementary

/-- The **numbers of some bits**: the integers with so many binary digits, in units of a power of
two. -/
def Fits (bits : Nat) (q : Rat) : Prop :=
  ∃ n e : Int, n.natAbs < 2 ^ bits ∧ q = n * pow2 e

variable {bits bits' : Nat} {q : Rat} {n e : Int}

theorem Fits.mono (h : Fits bits q) (hbits : bits ≤ bits') : Fits bits' q := by
  obtain ⟨n, e, hn, hq⟩ := h
  exact ⟨n, e, hn.trans_le (Nat.pow_le_pow_right two_pos hbits), hq⟩

/-- Units do not matter. -/
theorem Fits.mul_pow2 (h : Fits bits q) (k : Int) : Fits bits (q * pow2 k) := by
  obtain ⟨n, e, hn, rfl⟩ := h
  exact ⟨n, e + k, hn, by rw [pow2_add, mul_assoc]⟩

/-! ### Lengths -/

theorem bitLength_le_iff {m : Nat} : bitLength m ≤ bits ↔ m < 2 ^ bits := by
  rw [bitLength]
  split
  · next h =>
    subst h
    simp
  · next h => rw [← Nat.log2_lt h, Nat.lt_iff_add_one_le]

theorem bitLength_mul_two_pow {m : Nat} (hm : m ≠ 0) (k : Nat) :
    bitLength (m * 2 ^ k) = bitLength m + k := by
  have hpos := Nat.two_pow_pos k
  refine le_antisymm (bitLength_le_iff.mpr ?_) ?_
  · rw [Nat.pow_add]
    exact Nat.mul_lt_mul_of_pos_right (bitLength_le_iff.mp le_rfl) hpos
  · have hlow : 2 ^ (bitLength m - 1) ≤ m := by
      simpa [bitLength, hm] using Nat.log2_self_le hm
    have hone : 0 < bitLength m := by simp [bitLength, hm]
    have hlt : m * 2 ^ k < 2 ^ bitLength (m * 2 ^ k) := bitLength_le_iff.mp le_rfl
    have hpow : 2 ^ (bitLength m - 1 + k) < 2 ^ bitLength (m * 2 ^ k) := by
      rw [Nat.pow_add]
      exact (Nat.mul_le_mul_right _ hlow).trans_lt hlt
    have := (Nat.pow_lt_pow_iff_right one_lt_two).mp hpow
    omega

/-- Multiples of units of which one is smaller: the counts differ by a power of two. -/
theorem eq_mul_two_pow {m f : Int} {k : Nat} (h : (n : Rat) * pow2 e = m * pow2 f)
    (hk : f = k + e) : n = m * 2 ^ k := by
  rw [pow2_eq_natCast_mul hk, ← mul_assoc] at h
  have hcount := mul_right_cancel₀ (pow2_ne_zero e) h
  exact_mod_cast hcount

/-- What fits is a multiple of the unit in its last place. -/
theorem two_pow_dvd_of_fits (h : Fits bits (n * pow2 e)) :
    2 ^ (bitLength n.natAbs - bits) ∣ n.natAbs := by
  obtain ⟨m, f, hm, heq⟩ := h
  rcases Int.le_total e f with hle | hle
  · obtain ⟨k, hk⟩ := Int.eq_ofNat_of_zero_le (Int.sub_nonneg.mpr hle)
    have hn : n = m * 2 ^ k := eq_mul_two_pow heq (by omega)
    have habs : n.natAbs = m.natAbs * 2 ^ k := by
      rw [hn, Int.natAbs_mul, Int.natAbs_pow]
      rfl
    rw [habs]
    by_cases hzero : m.natAbs = 0
    · rw [hzero, zero_mul]
      exact dvd_zero _
    · have hlength := bitLength_le_iff.mpr hm
      rw [bitLength_mul_two_pow hzero]
      exact Dvd.dvd.mul_left (Nat.pow_dvd_pow 2 (by omega)) _
  · obtain ⟨k, hk⟩ := Int.eq_ofNat_of_zero_le (Int.sub_nonneg.mpr hle)
    have hmn : m = n * 2 ^ k := eq_mul_two_pow heq.symm (by omega)
    have habs : m.natAbs = n.natAbs * 2 ^ k := by
      rw [hmn, Int.natAbs_mul, Int.natAbs_pow]
      rfl
    have hlt : n.natAbs < 2 ^ bits :=
      (Nat.le_mul_of_pos_right _ (Nat.two_pow_pos k)).trans_lt (habs ▸ hm)
    rw [Nat.sub_eq_zero_of_le (bitLength_le_iff.mpr hlt), Nat.pow_zero]
    exact one_dvd _

/-! ### Rounding -/

namespace BinaryScale

/-- A significand of which the last bits are zero loses nothing with them. -/
theorem roundSignificand_of_dvd {m : Nat} (h : 2 ^ (bitLength m - bits) ∣ m) :
    (roundSignificand bits m).1 * 2 ^ (roundSignificand bits m).2 = m := by
  rw [roundSignificand]
  dsimp only
  by_cases hlength : bitLength m ≤ bits
  · rw [if_pos hlength, Nat.pow_zero, Nat.mul_one]
  · have hkept : m >>> (bitLength m - bits) * 2 ^ (bitLength m - bits) = m := by
      rw [Nat.shiftRight_eq_div_pow]
      exact Nat.div_mul_cancel h
    have hhalf : 0 < 1 <<< (bitLength m - bits - 1) := by
      rw [Nat.shiftLeft_eq, Nat.one_mul]
      exact Nat.two_pow_pos _
    rw [if_neg hlength, Nat.shiftLeft_eq _ (bitLength m - bits), hkept, Nat.sub_self,
      if_neg (by omega)]
    exact hkept

/-- **Rounding** does nothing to what fits. -/
theorem toRat_round (h : Fits bits (n * pow2 e)) : (round bits n e).toRat = n * pow2 e := by
  have hm := roundSignificand_of_dvd (two_pow_dvd_of_fits h)
  rw [round]
  generalize roundSignificand bits n.natAbs = r at hm
  obtain ⟨significand, drop⟩ := r
  dsimp only at hm ⊢
  have hsigned : ((if n < 0 then -(significand : Int) else significand) : Int) * 2 ^ drop = n := by
    have hcast : (significand : Int) * 2 ^ drop = n.natAbs := by exact_mod_cast hm
    split
    · rw [neg_mul, hcast]
      omega
    · rw [hcast]
      omega
  have hunit : pow2 (e + drop) = ((2 ^ drop : Nat) : Rat) * pow2 e := by
    rw [add_comm, pow2_eq_natCast_mul rfl]
  rw [Dyadic.toRat_ofIntWithPrec_eq_mul_two_pow, neg_neg]
  change _ * pow2 (e + drop) = _
  generalize (if n < 0 then -(significand : Int) else significand) = signed at hsigned
  rw [hunit, ← mul_assoc, ← hsigned]
  push_cast
  rfl

end BinaryScale

namespace BigFloat

variable {x y : Dyadic}

/-- A dyadic is its significand in units of its exponent. -/
theorem toRat_eq_parts (x : Dyadic) : x.toRat = (parts x).1 * pow2 (parts x).2 := by
  cases x with
  | zero => simp [parts]
  | ofOdd n k h => exact Dyadic.toRat_ofOdd_eq_mul_two_pow

/-- **What fits is not rounded.** -/
theorem roundDyadic_eq_self (h : Fits bits x.toRat) : roundDyadic bits x = x := by
  rw [← Dyadic.toRat_inj]
  cases x with
  | zero => rfl
  | ofOdd n k hn =>
    rw [roundDyadic]
    split
    · rfl
    · rw [toRat_eq_parts] at h
      exact (BinaryScale.toRat_round h).trans (toRat_eq_parts _).symm

theorem round_finite (h : Fits bits x.toRat) : round bits (.finite x) = .finite x := by
  rw [round, roundDyadic_eq_self h]

/-! ### Rationals -/

end BigFloat

/-- The denominator of what fits is a power of two. -/
theorem Fits.den_eq (h : Fits bits q) : ∃ j, q.den = 2 ^ j := by
  obtain ⟨n, e, -, rfl⟩ := h
  rcases Int.le_total 0 e with he | he
  · obtain ⟨k, rfl⟩ := Int.eq_ofNat_of_zero_le he
    refine ⟨0, ?_⟩
    rw [pow2_natCast]
    exact_mod_cast Rat.den_intCast (n * 2 ^ k)
  · obtain ⟨k, hk⟩ := Int.eq_ofNat_of_zero_le (Int.neg_nonneg.mpr he)
    have hdiv : (n : Rat) * pow2 e = Rat.divInt n (2 ^ k : Nat) := by
      rw [Rat.divInt_eq_div, Int.cast_natCast, ← pow2_natCast, div_eq_mul_inv, pow2, pow2,
        ← zpow_neg, ← hk, neg_neg]
    have hdvd : ((n : Rat) * pow2 e).den ∣ 2 ^ k := by
      have := Rat.den_dvd n (2 ^ k : Nat)
      rw [← hdiv] at this
      exact_mod_cast this
    obtain ⟨j, -, hj⟩ := (Nat.dvd_prime_pow Nat.prime_two).mp hdvd
    exact ⟨j, hj⟩

namespace BigFloat

variable {x y : Dyadic}

/-- A multiple of a magnitude takes the sign of the number. -/
theorem signed_natAbs_mul (n : Int) (k : Nat) :
    (if n < 0 then -((n.natAbs * k : Nat) : Int) else (n.natAbs * k : Nat)) = n * k := by
  push_cast
  split
  · next hn => rw [abs_of_neg hn, neg_mul, neg_neg]
  · next hn => rw [abs_of_nonneg (not_lt.mp hn)]

/-- A quotient by one of what fits is exact. -/
theorem toRat_roundQuotient_one (h : Fits bits (n * pow2 e)) :
    (roundQuotient bits n 1 e).toRat = n * pow2 e := by
  rw [roundQuotient]
  generalize bits + 2 + bitLength 1 - bitLength n.natAbs = shift
  have hmarked : 2 * (n.natAbs <<< shift / 1) + (if n.natAbs <<< shift % 1 = 0 then 0 else 1) =
      n.natAbs * 2 ^ (shift + 1) := by
    rw [Nat.div_one, Nat.mod_one, if_pos rfl, Nat.add_zero, Nat.shiftLeft_eq, Nat.pow_succ]
    ring
  have hvalue : ((n * (2 ^ (shift + 1) : Nat) : Int) : Rat) * pow2 (e - shift - 1) =
      n * pow2 e := by
    have hunit : e = ((shift + 1 : Nat) : Int) + (e - shift - 1) := by
      push_cast
      ring
    rw [pow2_eq_natCast_mul hunit, ← mul_assoc]
    push_cast
    rfl
  rw [hmarked, signed_natAbs_mul, BinaryScale.toRat_round (hvalue ▸ h), hvalue]

/-- A power of two as a dyadic. -/
theorem ofInt_two_pow (j : Nat) : Dyadic.ofInt (2 ^ j : Nat) = .ofOdd 1 (-j) rfl := by
  rw [← Dyadic.toRat_inj, Dyadic.toRat_ofOdd_eq_mul_two_pow, neg_neg, Int.cast_one, one_mul]
  exact (Dyadic.toRat_intCast _).trans (pow2_natCast j).symm

/-- **A rational that fits** comes to the working precision as itself. -/
theorem exists_ofRat (h : Fits bits q) : ∃ x : Dyadic, ofRat bits q = .finite x ∧ x.toRat = q := by
  obtain ⟨j, hj⟩ := h.den_eq
  have hnum : (q.num : Rat) = q * pow2 j := by
    rw [pow2_natCast, ← hj, Rat.mul_den_eq_num]
  have hx : (Dyadic.ofInt q.num).toRat = q.num := Dyadic.toRat_intCast _
  have hround : round bits (ofInt q.num) = .finite (Dyadic.ofInt q.num) :=
    round_finite (hx ▸ hnum ▸ h.mul_pow2 j)
  have hdiv : ofRat bits q = .finite (roundQuotient bits (parts (Dyadic.ofInt q.num)).1 1
      ((parts (Dyadic.ofInt q.num)).2 - j)) := by
    rw [ofRat, hround, hj, ofInt, ofInt_two_pow]
    simp [div, parts]
  have hvalue : ((parts (Dyadic.ofInt q.num)).1 : Rat) * pow2 ((parts (Dyadic.ofInt q.num)).2 - j) =
      q := by
    rw [sub_eq_add_neg, pow2_add, ← mul_assoc, ← toRat_eq_parts, hx, hnum, mul_assoc, ← pow2_add,
      add_neg_cancel, pow2_zero, mul_one]
  exact ⟨_, hdiv, (toRat_roundQuotient_one (hvalue.symm ▸ h)).trans hvalue⟩

/-! ### Operations that are exact -/

theorem signOf_lt_zero_iff : signOf x < 0 ↔ x.toRat < 0 := by
  cases x with
  | zero => simp [signOf]
  | ofOdd n k h =>
    rw [signOf, Int.sign_neg_iff, Dyadic.toRat_ofOdd_eq_mul_two_pow]
    exact ⟨fun hn => mul_neg_of_neg_of_pos (Int.cast_lt_zero.mpr hn) (pow2_pos _),
      fun hn => Int.cast_lt_zero.mp (neg_of_mul_neg_left hn (pow2_pos _).le)⟩

theorem signOf_eq_zero_iff : signOf x = 0 ↔ x.toRat = 0 := by
  rw [Dyadic.toRat_eq_zero_iff]
  cases x with
  | zero => simp [signOf]
  | ofOdd n k h =>
    rw [signOf, Int.sign_eq_zero_iff_zero]
    exact ⟨fun hn => by omega, fun hn => by cases hn⟩

/-- **The order** of two numbers is that of their exact values. -/
theorem compare?_finite (x y : Dyadic) :
    compare? (.finite x) (.finite y) =
      some (if x.toRat < y.toRat then .lt else if x.toRat = y.toRat then .eq else .gt) := by
  have hlt : signOf (x - y) < 0 ↔ x.toRat < y.toRat := by
    rw [signOf_lt_zero_iff, Dyadic.toRat_sub, sub_neg]
  have heq : signOf (x - y) = 0 ↔ x.toRat = y.toRat := by
    rw [signOf_eq_zero_iff, Dyadic.toRat_sub, sub_eq_zero]
  simp only [compare?, hlt, heq]

/-- **The magnitude** is the absolute value. -/
theorem exists_magnitude (x : Dyadic) :
    ∃ y : Dyadic, magnitude (.finite x) = .finite y ∧ y.toRat = x.toRat.abs := by
  refine ⟨_, rfl, ?_⟩
  split
  · next h =>
    rw [Dyadic.toRat_neg, Rat.abs_of_nonpos (signOf_lt_zero_iff.mp h).le]
  · next h => rw [Rat.abs_of_nonneg (not_lt.mp (mt signOf_lt_zero_iff.mpr h))]

/-- **Scaling** multiplies by a power of two. -/
theorem exists_scale (x : Dyadic) (k : Int) :
    ∃ y : Dyadic, scale (.finite x) k = .finite y ∧ y.toRat = x.toRat * pow2 k := by
  cases x with
  | zero => exact ⟨.zero, rfl, by simp⟩
  | ofOdd n e h =>
    refine ⟨.ofOdd n (e - k) h, rfl, ?_⟩
    rw [Dyadic.toRat_ofOdd_eq_mul_two_pow, Dyadic.toRat_ofOdd_eq_mul_two_pow, mul_assoc]
    change _ * pow2 (-(e - k)) = _ * (pow2 (-e) * pow2 k)
    rw [← pow2_add, neg_sub, sub_eq_add_neg, add_comm]

/-- **The integral part** is that of the exact value. -/
theorem floorDyadic_eq (x : Dyadic) : floorDyadic x = x.toRat.floor := by
  cases x with
  | zero => rfl
  | ofOdd n e h =>
    rw [floorDyadic, Dyadic.toRat_ofOdd_eq_mul_two_pow]
    change _ = ((n : Rat) * pow2 (-e)).floor
    split
    · next he =>
      obtain ⟨k, hk⟩ := Int.eq_ofNat_of_zero_le (Int.neg_nonneg.mpr he)
      have hint : (n : Rat) * pow2 (-e) = ((n * 2 ^ k : Int) : Rat) := by
        rw [hk, pow2_natCast]
        push_cast
        rfl
      rw [hint, Rat.floor_intCast, hk, Int.toNat_natCast, Int.shiftLeft_eq]
    · next he =>
      obtain ⟨k, rfl⟩ := Int.eq_ofNat_of_zero_le (not_le.mp he).le
      have hpos : (0 : Int) < 2 ^ k := by positivity
      rw [Int.toNat_natCast, Int.shiftRight_eq_div_pow]
      -- the integers below are the same on both sides
      refine eq_of_forall_le_iff fun m => ?_
      rw [Int.le_ediv_iff_mul_le (by exact_mod_cast hpos), Rat.le_floor_iff,
        ← mul_le_mul_iff_left₀ (pow2_pos k), mul_assoc, ← pow2_add, neg_add_cancel, pow2_zero,
        mul_one, pow2_natCast]
      norm_cast

/-- The integer in the direction of zero is that of the exact value. -/
theorem truncateDyadic_eq (x : Dyadic) : truncateDyadic x = truncate x.toRat := by
  rw [truncateDyadic, truncate, floorDyadic_eq, floorDyadic_eq, Dyadic.toRat_neg]
  by_cases h : x.toRat < 0
  · rw [if_pos (signOf_lt_zero_iff.mpr h), if_pos h]
  · rw [if_neg (mt signOf_lt_zero_iff.mp h), if_neg h]

end BigFloat

end Elementary
