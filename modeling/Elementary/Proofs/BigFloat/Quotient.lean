import Elementary.Proofs.BigFloat.SignificantBits
import Mathlib.Data.Rat.Floor

/-!
# Quotients of arbitrary precision

A significand that is too long is cut behind the bits that are kept, and what is cut off decides
whether it is rounded up. This is rounding to an integer in units of the last bit that is kept, so
that it finds the nearest number. A quotient is an integer quotient with some bits to spare and a
last bit that records whether anything was left. This bit stands for whatever was left: with two
more bits behind the leading ones, no half of a unit lies between two even integers. So a quotient
is the nearest number as well, and a rational is brought to a working precision by two roundings.

## Main results

* `BinaryScale.toRat_round_eq`: an integer of units is rounded to the nearest number.
* `roundToBits_marked`: what the last bit of an integer quotient stands for.
* `BigFloat.exists_div`: a quotient is the nearest number.
* `BigFloat.exists_ofRat_eq`: a rational comes to a working precision by two roundings.
-/

namespace Elementary

variable {bits : Nat}

/-! ### A count that is cut -/

/-- Rounding a **quotient of natural numbers** looks at what is left of the dividend. -/
theorem roundHalfEven_natCast_div (m : Nat) {u : Nat} (hu : 0 < u) :
    roundHalfEven ((m : Rat) / u) =
      if u < 2 * (m % u) ∨ (2 * (m % u) = u ∧ m / u % 2 = 1) then ((m / u + 1 : Nat) : Int)
      else (m / u : Nat) := by
  have hpos : (0 : Rat) < u := by exact_mod_cast hu
  have hfloor : ((m : Rat) / u).floor = (m / u : Nat) := Rat.floor_natCast_div_natCast m u
  have hrest : (m : Rat) / u - ((m / u : Nat) : Int) = (m % u : Nat) / u := by
    have hsplit : (m : Rat) = u * (m / u : Nat) + (m % u : Nat) := by
      exact_mod_cast (Nat.div_add_mod m u).symm
    rw [Int.cast_natCast, eq_div_iff hpos.ne', sub_mul, div_mul_cancel₀ _ hpos.ne']
    linarith
  have habove : 1 / 2 < ((m % u : Nat) : Rat) / u ↔ u < 2 * (m % u) := by
    rw [div_lt_div_iff₀ two_pos hpos, one_mul, mul_comm]
    exact_mod_cast Iff.rfl
  have hhalf : ((m % u : Nat) : Rat) / u = 1 / 2 ↔ 2 * (m % u) = u := by
    rw [div_eq_div_iff hpos.ne' two_ne_zero, one_mul, mul_comm]
    exact_mod_cast Iff.rfl
  have hodd : ((m / u : Nat) : Int) % 2 = 1 ↔ m / u % 2 = 1 := by omega
  rw [roundHalfEven]
  simp only [hfloor, hrest, habove, hhalf, hodd]
  split <;> push_cast <;> rfl

namespace BinaryScale

/-- A significand that is too long is **rounded to an integer** in the units that are kept. -/
theorem roundSignificand_fst {m : Nat} (h : bits < bitLength m) :
    ((roundSignificand bits m).1 : Int) =
      roundHalfEven ((m : Rat) / (2 ^ (bitLength m - bits) : Nat)) := by
  obtain ⟨d, hd⟩ := Nat.exists_eq_add_one_of_ne_zero (Nat.sub_ne_zero_of_lt h)
  have hrest : m - m / 2 ^ (d + 1) * 2 ^ (d + 1) = m % 2 ^ (d + 1) := by
    rw [mul_comm, ← Nat.mod_eq_sub_mul_div]
  have hhalf : 2 ^ (d + 1) < 2 * (m % 2 ^ (d + 1)) ↔ 2 ^ d < m % 2 ^ (d + 1) := by
    rw [Nat.pow_succ']
    omega
  have htie : 2 * (m % 2 ^ (d + 1)) = 2 ^ (d + 1) ↔ m % 2 ^ (d + 1) = 2 ^ d := by
    rw [Nat.pow_succ']
    omega
  rw [roundHalfEven_natCast_div m (Nat.two_pow_pos _), roundSignificand]
  dsimp only
  rw [if_neg (by omega), hd, Nat.add_sub_cancel, Nat.shiftRight_eq_div_pow, Nat.shiftLeft_eq,
    Nat.shiftLeft_eq, one_mul, hrest]
  simp only [hhalf, htie]
  split <;> rfl

/-- The unit of the last leading bit of a natural number of units. -/
theorem leadingUnit_natCast {m : Nat} (hm : m ≠ 0) (bits : Nat) :
    leadingUnit m bits = pow2 (bitLength m - bits) := by
  have hbinade : floorLog2 (m : Rat) = bitLength m - 1 := by
    refine floorLog2_eq (pow2_bitLength_sub_one_le hm) ?_
    rw [sub_add_cancel]
    exact lt_pow2_bitLength m
  rw [leadingUnit_of_pos (by exact_mod_cast Nat.pos_of_ne_zero hm), hbinade]
  congr 1
  ring

/-- **Rounding a natural number of units** finds the nearest number. -/
theorem toRat_round_eq_of_nat (hbits : 1 ≤ bits) (m : Nat) (e : Int) :
    (round bits m e).toRat = roundToBits (m * pow2 e) bits := by
  rcases le_or_gt (bitLength m) bits with hlength | hlength
  · have hfits : Fits bits ((m : Int) * pow2 e) :=
      ⟨m, e, by rw [Int.natAbs_natCast]; exact bitLength_le_iff.mp hlength, rfl⟩
    rw [toRat_round hfits, Int.cast_natCast, roundToBits_of_fits hbits (by exact_mod_cast hfits)]
  · have hm : m ≠ 0 := by
      rintro rfl
      simp [bitLength] at hlength
    have hunit : leadingUnit m bits = ((2 ^ (bitLength m - bits) : Nat) : Rat) := by
      rw [leadingUnit_natCast hm, ← pow2_natCast]
      congr 1
      omega
    rw [roundToBits_mul_pow2, roundToBits, hunit, ← roundSignificand_fst hlength,
      toRat_round_natCast, natCast_mul_unit, roundSignificand_snd]
    push_cast
    rfl

/-- **Rounding** finds the nearest number. -/
theorem toRat_round_eq (hbits : 1 ≤ bits) (n e : Int) :
    (round bits n e).toRat = roundToBits (n * pow2 e) bits := by
  rcases le_total 0 n with hn | hn
  · obtain ⟨m, rfl⟩ := Int.eq_ofNat_of_zero_le hn
    exact_mod_cast toRat_round_eq_of_nat hbits m e
  · obtain ⟨m, hm⟩ := Int.eq_ofNat_of_zero_le (Int.neg_nonneg_of_nonpos hn)
    obtain rfl : n = -m := by omega
    rw [round_neg, Dyadic.toRat_neg, toRat_round_eq_of_nat hbits, Int.cast_neg, neg_mul,
      roundToBits_neg, Int.cast_natCast]

end BinaryScale

/-! ### What a last bit records -/

/-- A number strictly between two neighbouring halves is rounded to the integer among them. -/
theorem roundHalfEven_of_between {x : Rat} {c : Int} (hlow : (c : Rat) < 2 * x)
    (hhigh : 2 * x < c + 1) : roundHalfEven x = (c + 1) / 2 := by
  refine eq_roundHalfEven (.inl ?_)
  rcases Int.emod_two_eq_zero_or_one c with h | h
  · obtain ⟨k, rfl⟩ := Int.dvd_of_emod_eq_zero h
    have hk : (2 * k + 1) / 2 = k := by omega
    push_cast at hlow hhigh
    rw [hk, abs_lt]
    constructor <;> linarith
  · obtain ⟨k, rfl⟩ : ∃ k, c = 2 * k + 1 := ⟨c / 2, by omega⟩
    have hk : (2 * k + 1 + 1) / 2 = k + 1 := by omega
    push_cast at hlow hhigh
    rw [hk, abs_lt]
    push_cast
    constructor <;> linarith

/-- A number strictly between neighbouring even integers is rounded to **what they give**, when at
least two bits behind the leading ones lie in front of the point. -/
theorem roundToBits_of_between {c j : Nat} (hlow : 2 ^ (bits + j) ≤ c)
    (hhigh : c < 2 ^ (bits + j + 1)) {z : Rat} (hz : (2 * c : Nat) < z)
    (hz' : z < (2 * c + 2 : Nat)) :
    roundToBits z bits = (((c / 2 ^ j : Nat) + 1 : Int) / 2 : Int) * pow2 (j + 2) := by
  have hfloor : c / 2 ^ j * 2 ^ j ≤ c := Nat.div_mul_le_self c (2 ^ j)
  have hceil : c + 1 ≤ (c / 2 ^ j + 1) * 2 ^ j := by
    have := Nat.lt_mul_div_succ c (Nat.two_pow_pos j)
    rw [mul_comm]
    exact this
  have hbinade : floorLog2 z = (bits + j + 1 : Nat) := by
    refine floorLog2_eq ?_ ?_
    · rw [pow2_natCast]
      refine le_trans ?_ hz.le
      exact_mod_cast by rw [Nat.pow_succ']; omega
    · rw [← Nat.cast_add_one, pow2_natCast]
      refine hz'.trans_le ?_
      exact_mod_cast by rw [Nat.pow_succ' (n := bits + j + 1)]; omega
  have hunit : leadingUnit z bits = pow2 (j + 2) := by
    rw [leadingUnit_of_pos ((Nat.cast_nonneg _).trans_lt hz), hbinade]
    congr 1
    push_cast
    ring
  have hpos := pow2_pos (j + 1)
  have htwice : 2 * (z / pow2 (j + 2)) = z / pow2 (j + 1) := by
    rw [show (j : Int) + 2 = j + 1 + 1 by ring, pow2_add_one, ← mul_div_assoc,
      mul_div_mul_left _ _ two_ne_zero]
  have hpow : pow2 (j + 1) = ((2 ^ j * 2 : Nat) : Rat) := by
    rw [← Nat.pow_succ, ← pow2_natCast, Nat.cast_succ]
  -- half a unit divides even integers only, so that the number lies between two halves of units
  rw [roundToBits, hunit, roundHalfEven_of_between (c := (c / 2 ^ j : Nat)) ?_ ?_]
  · rw [htwice, lt_div_iff₀ hpos, hpow]
    refine lt_of_le_of_lt ?_ hz
    exact_mod_cast by rw [← mul_assoc]; omega
  · rw [htwice, div_lt_iff₀ hpos, hpow]
    refine hz'.trans_le ?_
    exact_mod_cast by rw [← mul_assoc]; omega

/-- Numbers strictly between the same neighbouring even integers are **rounded alike**, when at
least two bits behind the leading ones lie in front of the point. -/
theorem roundToBits_eq_of_between {c : Nat} (hc : 2 ^ bits ≤ c) {x y : Rat}
    (hx : (2 * c : Nat) < x ∧ x < (2 * c + 2 : Nat))
    (hy : (2 * c : Nat) < y ∧ y < (2 * c + 2 : Nat)) :
    roundToBits x bits = roundToBits y bits := by
  have hlength : bits < bitLength c := by
    by_contra hle
    exact absurd (bitLength_le_iff.mp (not_lt.mp hle)) hc.not_gt
  obtain ⟨j, hj⟩ : ∃ j, bitLength c = bits + 1 + j := ⟨bitLength c - bits - 1, by omega⟩
  have hlow : 2 ^ (bits + j) ≤ c := by
    by_contra hlt
    have := bitLength_le_iff.mpr (not_le.mp hlt)
    omega
  have hhigh : c < 2 ^ (bits + j + 1) := bitLength_le_iff.mp (by omega)
  rw [roundToBits_of_between hlow hhigh hx.1 hx.2, roundToBits_of_between hlow hhigh hy.1 hy.2]

/-- **A last bit** that records whether anything is left of a quotient stands for what is left. -/
theorem roundToBits_marked (m : Nat) {d : Nat} (hd : 0 < d)
    (hlarge : 2 ^ bits ≤ m / d) :
    roundToBits ((2 * (m / d) + if m % d = 0 then 0 else 1 : Nat) : Rat) bits =
      roundToBits (2 * (m / d : Rat)) bits := by
  have hpos : (0 : Rat) < d := by exact_mod_cast hd
  have hsplit : (m : Rat) = d * (m / d : Nat) + (m % d : Nat) := by
    exact_mod_cast (Nat.div_add_mod m d).symm
  split
  · next h =>
    rw [h, Nat.cast_zero, add_zero] at hsplit
    rw [hsplit, mul_div_cancel_left₀ _ hpos.ne']
    push_cast
    rw [add_zero]
  · next h =>
    have hrest : 0 < m % d := Nat.pos_of_ne_zero h
    refine roundToBits_eq_of_between hlarge ⟨?_, ?_⟩ ⟨?_, ?_⟩
    · exact_mod_cast by omega
    · exact_mod_cast by omega
    · rw [← mul_div_assoc, lt_div_iff₀ hpos, hsplit]
      have hcast : (0 : Rat) < (m % d : Nat) := by exact_mod_cast hrest
      push_cast
      linarith
    · rw [← mul_div_assoc, div_lt_iff₀ hpos, hsplit]
      have hcast : ((m % d : Nat) : Rat) < d := by exact_mod_cast Nat.mod_lt m hd
      push_cast
      linarith

namespace BigFloat

/-- The quotient is taken to more bits than are kept. -/
theorem two_pow_le_quotient (bits : Nat) {m d : Nat} (hm : m ≠ 0) (hd : 0 < d) :
    2 ^ bits ≤ m <<< (bits + 2 + bitLength d - bitLength m) / d := by
  have hlow : 2 ^ (bitLength m - 1) ≤ m := by
    simpa [bitLength, hm] using Nat.log2_self_le hm
  have hd' : d < 2 ^ bitLength d := bitLength_le_iff.mp le_rfl
  rw [Nat.le_div_iff_mul_le hd, Nat.shiftLeft_eq]
  calc 2 ^ bits * d ≤ 2 ^ bits * 2 ^ bitLength d := Nat.mul_le_mul_left _ hd'.le
    _ = 2 ^ (bits + bitLength d) := (Nat.pow_add ..).symm
    _ ≤ 2 ^ (bitLength m - 1 + (bits + 2 + bitLength d - bitLength m)) :=
      Nat.pow_le_pow_right two_pos (by omega)
    _ = 2 ^ (bitLength m - 1) * 2 ^ (bits + 2 + bitLength d - bitLength m) := Nat.pow_add ..
    _ ≤ m * 2 ^ (bits + 2 + bitLength d - bitLength m) := Nat.mul_le_mul_right _ hlow

theorem toRat_roundQuotient_of_nat (hbits : 1 ≤ bits) (m : Nat) {d : Nat} (hd : 0 < d) (e : Int) :
    (roundQuotient bits m d e).toRat = roundToBits (m / d * pow2 e) bits := by
  rcases eq_or_ne m 0 with rfl | hm
  · rw [roundQuotient]
    simp [BinaryScale.toRat_round_eq hbits]
  have hlarge := two_pow_le_quotient bits hm hd
  rw [roundQuotient, Int.natAbs_natCast]
  generalize bits + 2 + bitLength d - bitLength m = shift at *
  have hvalue : (m : Rat) / d * pow2 e =
      2 * ((m <<< shift : Nat) / d : Rat) * pow2 (e - shift - 1) := by
    rw [pow2_eq_natCast_mul (a := e) (k := shift + 1) (b := e - shift - 1)
      (by push_cast; ring), Nat.shiftLeft_eq, pow_succ]
    push_cast
    ring
  rw [if_neg (Int.natCast_nonneg m).not_gt, BinaryScale.toRat_round_eq hbits, Int.cast_natCast,
    roundToBits_mul_pow2, roundToBits_marked _ hd hlarge, hvalue, roundToBits_mul_pow2]

theorem roundQuotient_neg {m : Nat} (hm : 0 < m) (d : Nat) (e : Int) :
    roundQuotient bits (-m) d e = -roundQuotient bits m d e := by
  have hbelow : -(m : Int) < 0 := by omega
  have habove : ¬ (m : Int) < 0 := by omega
  rw [roundQuotient, roundQuotient, Int.natAbs_neg, if_pos hbelow, if_neg habove,
    BinaryScale.round_neg]

/-- **A quotient of integers** is the nearest number. -/
theorem toRat_roundQuotient (hbits : 1 ≤ bits) (n : Int) {d : Nat} (hd : 0 < d) (e : Int) :
    (roundQuotient bits n d e).toRat = roundToBits (n / d * pow2 e) bits := by
  rcases le_or_gt 0 n with hn | hn
  · obtain ⟨m, rfl⟩ := Int.eq_ofNat_of_zero_le hn
    rw [toRat_roundQuotient_of_nat hbits m hd, Int.cast_natCast]
  · obtain ⟨m, hm⟩ := Int.eq_ofNat_of_zero_le (Int.neg_nonneg_of_nonpos hn.le)
    obtain rfl : n = -m := by omega
    rw [roundQuotient_neg (by omega), Dyadic.toRat_neg, toRat_roundQuotient_of_nat hbits m hd,
      Int.cast_neg, neg_div, neg_mul, roundToBits_neg, Int.cast_natCast]

/-- **A dyadic is rounded** to the nearest number. -/
theorem toRat_roundDyadic (hbits : 1 ≤ bits) (x : Dyadic) :
    (roundDyadic bits x).toRat = roundToBits x.toRat bits := by
  cases x with
  | zero => exact (roundToBits_zero bits).symm
  | ofOdd n k hn =>
    rw [toRat_ofOdd, roundDyadic]
    split
    · next h =>
      rw [toRat_ofOdd, roundToBits_of_fits hbits ⟨n, -k, bitLength_le_iff.mp h, rfl⟩]
    · exact BinaryScale.toRat_round_eq hbits n (-k)

/-- **Division** gives the number nearest to the quotient. -/
theorem exists_div (hbits : 1 ≤ bits) (x : Dyadic) {y : Dyadic} (hy : y.toRat ≠ 0) :
    ∃ z : Dyadic, div bits (.finite x) (.finite y) = .finite z ∧
      z.toRat = roundToBits (x.toRat / y.toRat) bits := by
  refine ⟨roundQuotient bits (if (parts y).1 < 0 then -(parts x).1 else (parts x).1)
    (parts y).1.natAbs ((parts x).2 - (parts y).2), rfl, ?_⟩
  have hvalue := toRat_eq_parts y
  generalize parts y = p at *
  obtain ⟨d, f⟩ := p
  dsimp only at hvalue ⊢
  have hd : d ≠ 0 := by
    rintro rfl
    exact hy (by rw [hvalue, Int.cast_zero, zero_mul])
  rw [toRat_roundQuotient hbits _ (Int.natAbs_pos.mpr hd), toRat_eq_parts x, hvalue]
  congr 1
  have hquotient : ((if d < 0 then -(parts x).1 else (parts x).1 : Int) : Rat) / d.natAbs =
      (parts x).1 / d := by
    split
    · next h => rw [Nat.cast_natAbs, abs_of_neg h, Int.cast_neg, Int.cast_neg, neg_div_neg_eq]
    · next h => rw [Nat.cast_natAbs, abs_of_nonneg (not_lt.mp h)]
  rw [hquotient, sub_eq_add_neg, pow2_add, pow2, pow2, pow2, zpow_neg]
  field_simp

/-! ### Rationals at a working precision -/

/-- **A rational comes to the working precision** by two roundings: of its numerator, and of the
quotient by the denominator. -/
theorem exists_ofRat_eq (hbits : 1 ≤ bits) (q : Rat) :
    ∃ x : Dyadic, ofRat bits q = .finite x ∧
      x.toRat = roundToBits (roundToBits q.num bits / q.den) bits := by
  have hden : (Dyadic.ofInt q.den).toRat = q.den := Dyadic.toRat_intCast _
  have hne : (Dyadic.ofInt q.den).toRat ≠ 0 := by
    rw [hden]
    exact_mod_cast q.den_nz
  obtain ⟨x, hx, hvalue⟩ := exists_div hbits (roundDyadic bits (Dyadic.ofInt q.num)) hne
  refine ⟨x, hx, ?_⟩
  have hnum : (Dyadic.ofInt q.num).toRat = q.num := Dyadic.toRat_intCast _
  rw [hvalue, toRat_roundDyadic hbits, hnum, hden]

end BigFloat

end Elementary
