import Elementary.Proofs.Format.Exact
import Elementary.Proofs.Format.Nearest

/-!
# Rounding in range

A count of units that is neither too fine nor too large is a number of a precision. Such numbers
bound what is rounded between them. An operation on finite data whose result is rounded in range
gives a datum that denotes the exact result, rounded once.

## Main results

* `Precision.has_intCast_mul`: counts of units that are numbers of a precision.
* `Precision.abs_round_le`: rounding stays between numbers of the precision.
* `Datum.Denotes.add`, `sub`, `mul`, `div`: operations on finite data round once.
-/

namespace Elementary

variable {p : Precision} {q s y : Rat}

theorem rat_abs_eq (q : Rat) : q.abs = |q| := by
  rcases le_total 0 q with h | h
  · rw [Rat.abs_of_nonneg h, abs_of_nonneg h]
  · rw [Rat.abs_of_nonpos h, abs_of_nonpos h]

/-- An integer below the next one. -/
theorem natAbs_le_of_abs_lt {n : Int} {b : Nat} (h : |(n : Rat)| < b + 1) : n.natAbs ≤ b := by
  rw [← Int.cast_abs, ← Int.natCast_natAbs, Int.cast_natCast] at h
  exact Nat.lt_succ_iff.mp (by exact_mod_cast h)

namespace Precision

/-! ### Counts of units -/

/-- A count of units, neither too fine nor too large, is a number of a precision. -/
theorem has_intCast_mul {n e : Int} (hn : n.natAbs ≤ 2 ^ (p.format.fieldSize + 1))
    (he : p.format.minSubnormalExponent ≤ e) (hmax : |n * pow2 e| ≤ pow2 p.format.maxExponent) :
    p.Has (n * pow2 e) := by
  have hcount : ((n.natAbs : Nat) : Rat) = |(n : Rat)| := by
    rw [← Int.cast_natCast, Int.natCast_natAbs, Int.cast_abs]
  have hmagnitude : ((n.natAbs : Nat) : Rat) * pow2 e ≤ pow2 p.format.maxExponent := by
    rwa [hcount, ← abs_of_pos (pow2_pos e), ← abs_mul]
  have hnat : p.Has ((n.natAbs : Nat) * pow2 e) :=
    ⟨.finite false _, .finite false (mul_nonneg (Nat.cast_nonneg _) (pow2_pos e).le),
      Datum.isMember_natCast_mul hn he hmagnitude⟩
  rcases n.natAbs_eq with h | h
  · rw [h, Int.cast_natCast]
    exact hnat
  · rw [h, Int.cast_neg, Int.cast_natCast, neg_mul]
    exact hnat.neg

theorem has_zero : p.Has 0 := by
  exact_mod_cast has_intCast (n := 0) (Nat.zero_le _)

theorem has_one : p.Has 1 := by
  exact_mod_cast has_intCast (n := 1) Nat.one_le_two_pow

theorem has_two : p.Has 2 := by
  exact_mod_cast has_intCast (n := 2) (by cases p <;> decide)

theorem has_half : p.Has (1 / 2) :=
  pow2_neg_one ▸ has_pow2 (by cases p <;> decide) (by cases p <;> decide)

theorem has_quarter : p.Has (1 / 4) :=
  pow2_neg_two ▸ has_pow2 (by cases p <;> decide) (by cases p <;> decide)

/-- A count of units is no larger than one of larger units. -/
theorem abs_intCast_mul_pow2_le {n e u : Int} {b : Nat} (hn : n.natAbs ≤ b) (he : e ≤ u) :
    |n * pow2 e| ≤ b * pow2 u := by
  have hcount : |(n : Rat)| ≤ b := by
    rw [← Int.cast_abs, ← Int.natCast_natAbs, Int.cast_natCast]
    exact_mod_cast hn
  rw [abs_mul, abs_of_pos (pow2_pos e)]
  exact mul_le_mul hcount (pow2_le_pow2.mpr he) (pow2_pos e).le (Nat.cast_nonneg b)

/-- A count of whole units is an integer. -/
theorem exists_intCast_mul_pow2 {e : Int} (he : 0 ≤ e) (n : Int) :
    ∃ k : Int, (n : Rat) * pow2 e = k := by
  obtain ⟨j, rfl⟩ := Int.eq_ofNat_of_zero_le he
  refine ⟨n * (2 ^ j : Nat), ?_⟩
  rw [pow2_natCast]
  push_cast
  ring

/-- Quarters are numbers of a precision, if there are not too many. -/
theorem has_quarters {n : Int} (hn : n.natAbs ≤ 2 ^ (p.format.fieldSize + 1)) :
    p.Has (n / 4) := by
  have hunit : p.format.minSubnormalExponent ≤ -2 := by cases p <;> decide
  have hmax : |n * pow2 (-2)| ≤ pow2 p.format.maxExponent := by
    refine (abs_intCast_mul_pow2_le hn le_rfl).trans ?_
    rw [← pow2_natCast, ← pow2_add, pow2_le_pow2]
    have := p.fieldSize_le_maxExponent
    omega
  rw [div_eq_mul_one_div, ← pow2_neg_two]
  exact has_intCast_mul hn hunit hmax

/-- A number of a precision **times a power of two** that is at least one. -/
theorem Has.mul_pow2 (h : p.Has q) {k : Int} (hk : 0 ≤ k)
    (hmax : |q * pow2 k| ≤ pow2 p.format.maxExponent) : p.Has (q * pow2 k) := by
  obtain ⟨n, e, hn, he, rfl⟩ := h.exists_count
  rw [mul_assoc, ← pow2_add] at hmax ⊢
  exact has_intCast_mul hn.le (by omega) hmax

/-- A positive number of a precision **brought next to one**, into the binade of one or the one
below. -/
theorem Has.scaled (h : p.Has q) (hq : 0 < q) {k : Int} (hk : 0 ≤ k) (hk' : k ≤ 1) :
    p.Has (q * pow2 (-(floorLog2 q + k))) := by
  have hmember : (Datum.finite false q).IsMember p.format :=
    (Datum.Denotes.finite false hq.le).isMember_of_has h
  have hscaled := hmember.scaled hq hk hk'
  rw [pow2, zpow_neg, ← pow2, ← div_eq_mul_inv]
  exact ⟨_, .finite false hscaled.1, hscaled⟩

/-! ### Rounding in range -/

/-- A number of a precision is rounded to itself. -/
theorem Has.round_eq (h : p.Has q) : p.format.round q = q := by
  obtain ⟨_, ⟨negative, -⟩, hmember⟩ := h
  obtain ⟨E, m, -, hm, rfl⟩ := Datum.isMember_finite_iff.mp hmember
  exact (Format.isNumber_signed_magnitude hm).round_eq_self

theorem Has.abs_le_maxValue (h : p.Has q) : |q| ≤ p.format.maxValue := by
  obtain ⟨_, ⟨negative, hm⟩, hmember⟩ := h
  rw [← rat_abs_eq, Datum.abs_signed hm]
  exact hmember.2.2

theorem Has.le_round (hy : p.Has y) (h : y ≤ q) : y ≤ p.format.round q := by
  have hround := @Format.round_mono p.format _ _ h
  rwa [hy.round_eq] at hround

theorem Has.round_le (hy : p.Has y) (h : q ≤ y) : p.format.round q ≤ y := by
  have hround := @Format.round_mono p.format _ _ h
  rwa [hy.round_eq] at hround

/-- Rounding stays **between numbers of the format**. -/
theorem abs_round_le (hy : p.Has y) (h : |q| ≤ y) : |p.format.round q| ≤ y := by
  rw [abs_le] at h ⊢
  exact ⟨hy.neg.le_round h.1, hy.round_le h.2⟩

/-- What is no larger than a number of a precision **does not overflow**. -/
theorem abs_round_le_maxValue (hy : p.Has y) (h : |q| ≤ y) :
    |p.format.round q| ≤ p.format.maxValue :=
  (abs_round_le hy h).trans ((le_abs_self y).trans hy.abs_le_maxValue)

end Precision

namespace Datum

variable {x z : Datum} {negative : Bool}

/-! ### Operations on finite data -/

theorem abs_signed_eq (negative : Bool) (q : Rat) : |signed negative q| = |q| := by
  cases negative
  · rfl
  · exact abs_neg q

theorem denotes_ofMagnitude {m : Rat} (hm : 0 ≤ m) (h : p.format.round m ≤ p.format.maxValue) :
    (ofMagnitude p.format negative m).Denotes (p.format.round (signed negative m)) := by
  rw [Format.round_signed, ofMagnitude, if_neg (not_lt.mpr h)]
  exact .finite negative (Format.round_nonneg hm)

/-- **A magnitude with a sign** is rounded to the datum that denotes the rounded number. -/
theorem denotes_ofMagnitude_round {m : Rat} (hm : 0 ≤ m)
    (h : |p.format.round (signed negative m)| ≤ p.format.maxValue) :
    (ofMagnitude p.format negative m).Denotes (p.format.round (signed negative m)) := by
  rw [Format.round_signed, abs_signed_eq] at h
  exact denotes_ofMagnitude hm ((le_abs_self _).trans h)

/-- **A number is rounded** to the datum that denotes the rounded number. -/
theorem denotes_ofRat_round (h : |p.format.round q| ≤ p.format.maxValue) :
    (ofRat p.format negative q).Denotes (p.format.round q) := by
  rw [ofRat]
  split
  · next hq =>
    have hzero : (finite negative 0).Denotes (signed negative 0) := .finite negative le_rfl
    rw [signed_zero] at hzero
    rwa [hq, Format.round, if_pos rfl]
  · have hdenotes : (ofMagnitude p.format (decide (q < 0)) q.abs).Denotes
        (p.format.round (signed (decide (q < 0)) q.abs)) :=
      denotes_ofMagnitude_round Rat.abs_nonneg (by rwa [signed_abs])
    rwa [signed_abs] at hdenotes

/-- **The sum** of two finite data, rounded once. -/
theorem Denotes.add (hx : x.Denotes q) (hz : z.Denotes s)
    (h : |p.format.round (q + s)| ≤ p.format.maxValue) :
    (x.add p.format z).Denotes (p.format.round (q + s)) := by
  cases hx
  cases hz
  exact denotes_ofRat_round h

/-- **The difference** of two finite data, rounded once. -/
theorem Denotes.sub (hx : x.Denotes q) (hz : z.Denotes s)
    (h : |p.format.round (q - s)| ≤ p.format.maxValue) :
    (x.sub p.format z).Denotes (p.format.round (q - s)) := by
  rw [sub_eq_add_neg] at h ⊢
  exact hx.add hz.neg h

/-- **The product** of two finite data, rounded once. -/
theorem Denotes.mul (hx : x.Denotes q) (hz : z.Denotes s)
    (h : |p.format.round (q * s)| ≤ p.format.maxValue) :
    (x.mul p.format z).Denotes (p.format.round (q * s)) := by
  cases hx with
  | @finite a m hm =>
    cases hz with
    | @finite b n hn =>
      rw [signed_mul_signed] at h ⊢
      exact denotes_ofMagnitude_round (mul_nonneg hm hn) h

/-- **The quotient** of two finite data, rounded once. -/
theorem Denotes.div (hx : x.Denotes q) (hz : z.Denotes s) (hs : s ≠ 0)
    (h : |p.format.round (q / s)| ≤ p.format.maxValue) :
    (x.div p.format z).Denotes (p.format.round (q / s)) := by
  cases hx with
  | @finite a m hm =>
    cases hz with
    | @finite b n hn =>
      have hn0 : n ≠ 0 := mt signed_eq_zero_iff.mpr hs
      rw [signed_div_signed] at h ⊢
      rw [Datum.div, if_neg hn0]
      exact denotes_ofMagnitude_round (div_nonneg hm hn) h

/-- **A product that is too large** is an infinity. -/
theorem Denotes.mul_overflow (hx : x.Denotes q) (hz : z.Denotes s)
    (h : ¬ |p.format.round (q * s)| ≤ p.format.maxValue) :
    ∃ negative, x.mul p.format z = infinite negative := by
  cases hx with
  | @finite a m hm =>
    cases hz with
    | @finite b n hn =>
      have hlarge : p.format.maxValue < p.format.round (m * n) := by
        rwa [signed_mul_signed, Format.round_signed, abs_signed_eq,
          abs_of_nonneg (Format.round_nonneg (mul_nonneg hm hn)), not_le] at h
      exact ⟨a != b, by rw [Datum.mul, ofMagnitude, if_pos hlarge]⟩

end Datum

end Elementary
