import Mathlib.Data.Nat.Sqrt
import Elementary.Proofs.BigFloat.Nearest

/-!
# Square roots of arbitrary precision

The integer square root is found by Newton's iteration from above: each step at least halves the
distance to the root, so that the steps that are allowed suffice. A square root of a number is taken
to more bits than are kept, with a last bit for what is left, so that it does not pass a number of
the working precision.

## Main results

* `BinaryScale.sqrtFrom_eq`, `BinaryScale.sqrt_eq`: Newton's iteration finds the integer root.
* `BigFloat.le_sqrt`, `BigFloat.sqrt_le`: a square root does not pass what fits.
-/

namespace Elementary

variable {bits : Nat} {q : Rat}

namespace BinaryScale

variable {n fuel guess : Nat}

/-- A step of Newton's iteration does not pass **the root** downwards. -/
theorem sqrt_le_step (hguess : 0 < guess) : n.sqrt ≤ (guess + n / guess) / 2 := by
  rw [Nat.le_div_iff_mul_le two_pos]
  have hsquare := Nat.sqrt_le n
  have hquotient : 2 * n.sqrt - guess ≤ n / guess := by
    rw [Nat.le_div_iff_mul_le hguess]
    refine le_trans ?_ hsquare
    rcases le_total (2 * n.sqrt) guess with h | h
    · rw [Nat.sub_eq_zero_of_le h, Nat.zero_mul]
      exact Nat.zero_le _
    · obtain ⟨d, hd⟩ := Nat.exists_eq_add_of_le h
      rw [hd, Nat.add_sub_cancel_left]
      zify at hd ⊢
      nlinarith [sq_nonneg ((n.sqrt : Int) - guess)]
  omega

/-- A step of Newton's iteration **halves the distance** to the root. -/
theorem step_sub_sqrt_le (hguess : n.sqrt < guess) :
    (guess + n / guess) / 2 - n.sqrt ≤ (guess - n.sqrt) / 2 := by
  have hquotient : n / guess ≤ n.sqrt := by
    refine Nat.le_of_lt_succ ((Nat.div_lt_iff_lt_mul (by omega)).mpr ?_)
    exact (Nat.lt_succ_sqrt n).trans_le (Nat.mul_le_mul_left _ hguess)
  omega

/-- **Newton's iteration** from above finds the integer root, when the steps suffice to halve the
distance until nothing is left. -/
theorem sqrtFrom_eq (hn : n ≠ 0) (hle : n.sqrt ≤ guess) (hfuel : guess - n.sqrt < 2 ^ fuel) :
    sqrtFrom n fuel guess = n.sqrt := by
  have hroot : 0 < n.sqrt := Nat.sqrt_pos.mpr (Nat.pos_of_ne_zero hn)
  induction fuel generalizing guess with
  | zero =>
    rw [sqrtFrom]
    omega
  | succ fuel ih =>
    rw [sqrtFrom]
    have hstep := sqrt_le_step (n := n) (hroot.trans_le hle)
    split
    · next hlt =>
      have hhalf := step_sub_sqrt_le (n := n) (hstep.trans_lt hlt)
      refine ih hstep ?_
      rw [pow_succ] at hfuel
      omega
    · next hge =>
      by_contra hne
      have hlt : n.sqrt < guess := lt_of_le_of_ne hle fun h => hne h.symm
      have hhalf := step_sub_sqrt_le (n := n) hlt
      omega

/-- **The integer square root**. -/
theorem sqrt_eq (n : Nat) : sqrt n = n.sqrt := by
  rw [sqrt]
  split
  · next h => rw [h, Nat.sqrt_zero]
  · next h =>
    have hlength : n < 2 ^ bitLength n := bitLength_le_iff.mp le_rfl
    have hguess : n.sqrt ≤ 2 ^ ((bitLength n + 1) / 2) := by
      refine (Nat.sqrt_lt.mpr (hlength.trans_le ?_)).le
      rw [← pow_add]
      exact Nat.pow_le_pow_right two_pos (by omega)
    rw [Nat.shiftLeft_eq, one_mul]
    refine sqrtFrom_eq h hguess ?_
    calc 2 ^ ((bitLength n + 1) / 2) - n.sqrt ≤ 2 ^ ((bitLength n + 1) / 2) := Nat.sub_le _ _
      _ < 2 ^ (bitLength n + 2) := Nat.pow_lt_pow_right one_lt_two (by omega)

end BinaryScale

namespace BigFloat

variable {x : Dyadic}

/-- **A square root** is the root of a radicand with twice the bits that are kept, and a last bit for
what is left, brought to the working precision. -/
theorem exists_sqrt (bits : Nat) (hx : 0 < x.toRat) : ∃ (radicand : Nat) (f : Int),
    2 ^ (2 * bits + 3) ≤ radicand ∧ x.toRat = radicand * pow2 (2 * f) ∧
      sqrt bits (.finite x) = .finite (BinaryScale.round bits
        (2 * radicand.sqrt + if radicand.sqrt * radicand.sqrt = radicand then 0 else 1 : Nat)
          (f - 1)) := by
  have hparts := toRat_eq_parts x
  rw [sqrt]
  generalize parts x = p at hparts
  obtain ⟨n, e⟩ := p
  dsimp only at hparts ⊢
  have hn : 0 < n := by
    rw [hparts] at hx
    exact_mod_cast pos_of_mul_pos_left hx (pow2_pos e).le
  rw [if_neg hn.not_ge, hparts]
  generalize hraise : (2 * bits + 4 - bitLength n.natAbs) +
    (if (e - (2 * bits + 4 - bitLength n.natAbs : Nat)) % 2 = 0 then 0 else 1) = raise
  have heven : 2 * ((e - raise) / 2) = e - raise := by
    split at hraise <;> omega
  refine ⟨n.natAbs <<< raise, (e - raise) / 2, ?_, ?_, ?_⟩
  · have hlength : bitLength (n.natAbs <<< raise) = bitLength n.natAbs + raise := by
      rw [Nat.shiftLeft_eq, bitLength_mul_two_pow (by omega)]
    refine Nat.le_of_not_lt fun hlt => ?_
    have := bitLength_le_iff.mpr hlt
    split at hraise <;> omega
  · have habs : (n : Rat) = n.natAbs := by
      rw [← Int.cast_natCast, Int.natAbs_of_nonneg hn.le]
    rw [heven, Nat.shiftLeft_eq, habs, Nat.cast_mul, mul_assoc,
      ← pow2_eq_natCast_mul (a := e) (by ring)]
  · rw [BinaryScale.sqrt_eq]

variable {radicand : Nat} {f : Int}

/-- A count of units whose square is **at most the radicand** is at most the root. -/
theorem le_root_of_sq_le (hbits : 0 < bits) (hq : Fits bits q) (hnonneg : 0 ≤ q)
    (hlarge : 2 ^ (2 * bits + 3) ≤ radicand) (h : q ^ 2 ≤ radicand * pow2 (2 * f)) :
    q ≤ radicand.sqrt * pow2 f := by
  have hpos := pow2_pos f
  rcases hq.exists_count_or_lt hbits f with ⟨c, rfl⟩ | hlt
  · have hc : 0 ≤ c := by exact_mod_cast nonneg_of_mul_nonneg_left hnonneg hpos
    obtain ⟨k, rfl⟩ := Int.eq_ofNat_of_zero_le hc
    rw [two_mul, pow2_add, Int.cast_natCast, mul_pow, sq (pow2 f)] at h
    have hsquare := le_of_mul_le_mul_right h (mul_pos hpos hpos)
    have hroot : k ≤ radicand.sqrt := Nat.le_sqrt'.mpr (by exact_mod_cast hsquare)
    rw [Int.cast_natCast, natCast_mul_pow2_le]
    exact hroot
  · refine hlt.le.trans ((natCast_mul_pow2_le f).mpr (Nat.le_sqrt.mpr (le_trans ?_ hlarge)))
    rw [← pow_add]
    exact Nat.pow_le_pow_right two_pos (by omega)

/-- A count of units whose square is **at least the radicand** is at least the root, and more when
something is left. -/
theorem root_le_of_le_sq (hbits : 0 < bits) (hq : Fits bits q) (hnonneg : 0 ≤ q)
    (hlarge : 2 ^ (2 * bits + 3) ≤ radicand) (h : radicand * pow2 (2 * f) ≤ q ^ 2) :
    ∃ k : Nat, q = k * pow2 f ∧ radicand ≤ k * k := by
  have hpos := pow2_pos f
  rw [two_mul, pow2_add] at h
  rcases hq.exists_count_or_lt hbits f with ⟨c, rfl⟩ | hlt
  · have hc : 0 ≤ c := by exact_mod_cast nonneg_of_mul_nonneg_left hnonneg hpos
    obtain ⟨k, rfl⟩ := Int.eq_ofNat_of_zero_le hc
    rw [Int.cast_natCast, mul_pow, sq (pow2 f)] at h
    have hsquare := le_of_mul_le_mul_right h (mul_pos hpos hpos)
    refine ⟨k, by rw [Int.cast_natCast], ?_⟩
    rw [sq] at hsquare
    exact_mod_cast hsquare
  · exfalso
    have hless : q ^ 2 < ((2 ^ (bits - 1) : Nat) * pow2 f) ^ 2 :=
      pow_lt_pow_left₀ hlt hnonneg two_ne_zero
    rw [mul_pow, sq (pow2 f)] at hless
    have hsquare := lt_of_mul_lt_mul_right (h.trans_lt hless) (mul_pos hpos hpos).le
    have hnat : radicand < (2 ^ (bits - 1)) ^ 2 := by exact_mod_cast hsquare
    rw [← pow_mul] at hnat
    have hpow : 2 ^ ((bits - 1) * 2) ≤ 2 ^ (2 * bits + 3) :=
      Nat.pow_le_pow_right two_pos (by omega)
    omega

/-- The last bit that is kept of a root is worth two of the units it is marked in. -/
theorem natCast_mul_pow2_eq (k : Nat) (f : Int) :
    (k : Rat) * pow2 f = ((2 * k : Nat) : Rat) * pow2 (f - 1) := by
  rw [show f = f - 1 + 1 by ring, pow2_add_one, add_sub_cancel_right, Nat.cast_mul, Nat.cast_two]
  ring

/-- **A square root does not pass what fits** downwards. -/
theorem le_sqrt (hbits : 0 < bits) (hq : Fits bits q) (hnonneg : 0 ≤ q) (hx : 0 < x.toRat)
    (h : q ^ 2 ≤ x.toRat) : q ≤ (sqrt bits (.finite x)).value := by
  obtain ⟨radicand, f, hlarge, hradicand, hsqrt⟩ := exists_sqrt bits hx
  rw [hsqrt, value_finite]
  refine BinaryScale.le_toRat_round hbits hq ?_
  refine (le_root_of_sq_le hbits hq hnonneg hlarge (hradicand ▸ h)).trans ?_
  rw [natCast_mul_pow2_eq, natCast_mul_pow2_le]
  exact Nat.le_add_right _ _

/-- **A square root does not pass what fits** upwards. -/
theorem sqrt_le (hbits : 0 < bits) (hq : Fits bits q) (hnonneg : 0 ≤ q) (hx : 0 < x.toRat)
    (h : x.toRat ≤ q ^ 2) : (sqrt bits (.finite x)).value ≤ q := by
  obtain ⟨radicand, f, hlarge, hradicand, hsqrt⟩ := exists_sqrt bits hx
  rw [hsqrt, value_finite]
  refine BinaryScale.toRat_round_le hbits hq ?_
  obtain ⟨k, rfl, hk⟩ := root_le_of_le_sq hbits hq hnonneg hlarge (hradicand ▸ h)
  rw [natCast_mul_pow2_eq k, natCast_mul_pow2_le]
  have hroot := Nat.sqrt_le radicand
  split
  · have hle : radicand.sqrt ≤ k := Nat.mul_self_le_mul_self_iff.mp (hroot.trans hk)
    omega
  · next hrest =>
    have hlt : radicand.sqrt < k :=
      Nat.mul_self_lt_mul_self_iff.mp ((lt_of_le_of_ne hroot hrest).trans_le hk)
    omega

end BigFloat

end Elementary
