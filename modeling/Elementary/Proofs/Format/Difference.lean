import Elementary.Proofs.Format.Range
import Elementary.Proofs.Number.LeadingBits

/-!
# Differences and products without rounding

Two numbers of a precision count units, and their difference counts the smaller of the two units.
When it is no larger than either number, its count is no larger than a count that the precision has
room for, so it is not rounded. A number that is cut to its leading bits leaves room for the bits of
an integer, so the product with that is a number of the format. Only at the end of the range it may
be too large for a finite one.

## Main results

* `Precision.has_iff`: the numbers of a precision are those of its format up to the largest one.
* `Precision.Has.sub_of_near`: the difference of two numbers that are near to each other.
* `Precision.has_mul_truncateToBits_iff`: the product of an integer and of leading bits.
-/

namespace Elementary

variable {p : Precision} {q x y : Rat}

/-- A difference that is no larger than either number is **at most half of the larger one**. -/
theorem two_mul_abs_sub_le (hx : |x - y| ≤ |x|) (hy : |x - y| ≤ |y|) :
    2 * |x - y| ≤ max |x| |y| := by
  by_contra hlarge
  obtain ⟨hlargeX, hlargeY⟩ := max_lt_iff.mp (not_le.mp hlarge)
  rcases abs_cases (x - y) with h | h <;> rcases abs_cases x with h' | h' <;>
    rcases abs_cases y with h'' | h'' <;> linarith

namespace Format

variable {fmt : Format}

/-- A count that has room in a significand, of units that are not too fine, is **a number of the
format**. -/
theorem isNumber_intCast_mul {n e : Int} (hn : n.natAbs < 2 ^ (fmt.fieldSize + 1))
    (he : fmt.minSubnormalExponent ≤ e) : fmt.IsNumber (n * pow2 e) := by
  refine ⟨if n < 0 then -1 else 1, n.natAbs, e + fmt.fieldSize, ?_, hn, ?_, ?_⟩
  · split <;> simp
  · rw [minSubnormalExponent] at he
    rw [minNormalExponent]
    omega
  · have hsign : n = (if n < 0 then -1 else 1) * (n.natAbs : Int) := by split <;> omega
    rw [add_sub_cancel_right, ← Int.cast_natCast, ← Int.cast_mul, ← hsign]

/-- **The product** of an integer and of leading bits is a number of the format, when the bits of
both have room in a significand. -/
theorem isNumber_mul_truncateToBits {k : Int} {kept more : Nat} (hq : 0 < q) (hkept : 1 ≤ kept)
    (hroom : kept + more ≤ fmt.fieldSize + 1) (hk : k.natAbs ≤ 2 ^ more)
    (hnormal : fmt.minNormalExponent ≤ floorLog2 q) :
    fmt.IsNumber (k * truncateToBits q kept) := by
  obtain ⟨n, -, hn, hcut⟩ := exists_truncateToBits hq hkept
  have hproduct : (k : Rat) * truncateToBits q kept =
      ((k * n : Int) : Rat) * pow2 (floorLog2 q - kept + 1) := by
    rw [hcut]
    push_cast
    ring
  rw [hproduct]
  refine isNumber_intCast_mul ?_ ?_
  · calc (k * n : Int).natAbs = k.natAbs * n := by rw [Int.natAbs_mul, Int.natAbs_natCast]
      _ ≤ 2 ^ more * n := Nat.mul_le_mul_right n hk
      _ < 2 ^ more * 2 ^ kept := Nat.mul_lt_mul_of_pos_left hn (Nat.two_pow_pos more)
      _ = 2 ^ (kept + more) := by rw [← Nat.pow_add, Nat.add_comm]
      _ ≤ 2 ^ (fmt.fieldSize + 1) := Nat.pow_le_pow_right two_pos hroom
  · rw [minNormalExponent] at hnormal
    rw [minSubnormalExponent]
    omega

end Format

namespace Precision

/-- **The numbers of a precision** are the numbers of its format up to the largest finite one. -/
theorem has_iff : p.Has q ↔ p.format.IsNumber q ∧ |q| ≤ p.format.maxValue := by
  constructor
  · intro h
    obtain ⟨_, ⟨negative, -⟩, hmember⟩ := id h
    obtain ⟨E, m, -, hm, rfl⟩ := Datum.isMember_finite_iff.mp hmember
    exact ⟨Format.isNumber_signed_magnitude hm, h.abs_le_maxValue⟩
  · rintro ⟨hnumber, hmax⟩
    refine ⟨_, Datum.denotes_finite q, Datum.isMember_finite.mpr ⟨Rat.abs_nonneg, ?_, ?_⟩⟩
    · rw [rat_abs_eq]
      rcases le_total 0 q with h | h
      · rw [abs_of_nonneg h, hnumber.round_eq_self]
      · rw [abs_of_nonpos h, Format.round_neg, hnumber.round_eq_self]
    · rwa [rat_abs_eq]

/-- Halves of the numbers of a precision are below the powers of two of its exponents. -/
theorem maxValue_lt (p : Precision) : p.format.maxValue < 2 * pow2 p.format.maxExponent := by
  have hunit : 0 < pow2 p.format.maxExponent * pow2 (-(p.format.fieldSize : Int)) :=
    mul_pos (pow2_pos _) (pow2_pos _)
  rw [Format.maxValue, mul_sub]
  linarith

/-- The difference of two counts of units, the first of which is the smaller one. -/
theorem has_sub_of_le {n m a b : Int} (hn : n.natAbs < 2 ^ (p.format.fieldSize + 1))
    (ha : p.format.minSubnormalExponent ≤ a) (hab : a ≤ b)
    (h : |n * pow2 a - m * pow2 b| ≤ |n * pow2 a|)
    (hroom : |n * pow2 a - m * pow2 b| ≤ pow2 p.format.maxExponent) :
    p.Has (n * pow2 a - m * pow2 b) := by
  obtain ⟨j, hj⟩ : ∃ j : Nat, b = j + a := ⟨(b - a).toNat, by omega⟩
  have hcount : (n : Rat) * pow2 a - m * pow2 b = ((n - m * (2 ^ j : Nat) : Int) : Rat) * pow2 a := by
    rw [pow2_eq_natCast_mul hj]
    push_cast
    ring
  rw [hcount] at h hroom ⊢
  have hsmall : (n - m * (2 ^ j : Nat)).natAbs ≤ n.natAbs := by
    rw [abs_mul, abs_mul, mul_le_mul_iff_left₀ (abs_pos.mpr (pow2_ne_zero a))] at h
    rw [← Int.ofNat_le, Int.natCast_natAbs, Int.natCast_natAbs]
    exact_mod_cast h
  exact has_intCast_mul (hsmall.trans hn.le) ha hroom

/-- **The difference of two numbers that are near to each other**, that is, no larger than either,
is a number of the precision. -/
theorem Has.sub_of_near (hx : p.Has x) (hy : p.Has y) (h : |x - y| ≤ |x|) (h' : |x - y| ≤ |y|) :
    p.Has (x - y) := by
  have hroom : |x - y| ≤ pow2 p.format.maxExponent := by
    have hmax : max |x| |y| ≤ p.format.maxValue := max_le hx.abs_le_maxValue hy.abs_le_maxValue
    have hhalf := two_mul_abs_sub_le h h'
    have hlt := p.maxValue_lt
    linarith
  obtain ⟨n, a, hn, ha, rfl⟩ := hx.exists_count
  obtain ⟨m, b, hm, hb, rfl⟩ := hy.exists_count
  rcases le_total a b with hab | hba
  · exact has_sub_of_le hn ha hab h hroom
  · rw [← neg_sub] at h h' hroom ⊢
    rw [abs_neg] at h h' hroom
    exact (has_sub_of_le hm hb hba h' hroom).neg

/-- **Taking a multiple off is exact** when the multiple is the nearest integer to a rounded product
and a unit of it is not far from the reciprocal of the factor: a multiple of a positive count is at
least half of the number, and at most twice as large. -/
theorem Has.sub_multiple_of_pos {n : Int} {unit factor : Rat} (hq : p.Has q)
    (hproduct : p.Has (n * unit)) (hfactor : 0 < factor) (hlow : 7 / 8 ≤ unit * factor)
    (hhigh : unit * factor ≤ 1) (hsize : 7 * n.natAbs ≤ 2 ^ (p.format.fieldSize + 1))
    (hn : roundHalfEven (p.format.round (q * factor)) = n) (hpos : 0 < n) :
    p.Has (q - n * unit) := by
  have hcount : (1 : Rat) ≤ n := by exact_mod_cast hpos
  have hnear := abs_le.mp (abs_sub_roundHalfEven_le_half (p.format.round (q * factor)))
  rw [hn] at hnear
  have hbelow : (n : Rat) / 2 ≤ q * factor := by
    by_contra hlt
    have hhalf : p.Has (((2 * n : Int) : Rat) / 4) := has_quarters (by omega)
    have hround := hhalf.round_le (q := q * factor) (by push_cast; linarith)
    push_cast at hround
    -- only one half is left, which goes to zero
    have hone : n = 1 := by
      have : (n : Rat) ≤ 1 := by linarith
      exact le_antisymm (by exact_mod_cast this) hpos
    subst hone
    have htie : p.format.round (q * factor) = 1 / 2 := by
      push_cast at hround hnear
      linarith
    have hzero : roundHalfEven (1 / 2) = 0 := eq_roundHalfEven (.inr ⟨by norm_num, rfl⟩)
    rw [htie, hzero] at hn
    omega
  have habove : q * factor ≤ 7 / 4 * n := by
    by_contra hgt
    have hquarters : p.Has (((7 * n : Int) : Rat) / 4) := has_quarters (by omega)
    have hround := hquarters.le_round (q := q * factor) (by push_cast; linarith)
    push_cast at hround
    linarith
  have hunit : 0 < unit := (mul_pos_iff_of_pos_right hfactor).mp (by linarith)
  have hmultiple : 0 < n * unit := by positivity
  have hleast : n * unit ≤ 2 * q := by
    refine le_of_mul_le_mul_right ?_ hfactor
    nlinarith
  have hmost : q ≤ 2 * (n * unit) := by
    refine le_of_mul_le_mul_right ?_ hfactor
    nlinarith
  have hqpos : 0 < q := by linarith
  refine hq.sub_of_near hproduct ?_ ?_
  · rw [abs_of_pos hqpos, abs_le]
    constructor <;> linarith
  · rw [abs_of_pos hmultiple, abs_le]
    constructor <;> linarith

/-- **Taking a multiple off is exact**, whatever the signs are. -/
theorem Has.sub_multiple {n : Int} {unit factor : Rat} (hq : p.Has q)
    (hproduct : p.Has (n * unit)) (hfactor : 0 < factor) (hlow : 7 / 8 ≤ unit * factor)
    (hhigh : unit * factor ≤ 1) (hsize : 7 * n.natAbs ≤ 2 ^ (p.format.fieldSize + 1))
    (hn : roundHalfEven (p.format.round (q * factor)) = n) : p.Has (q - n * unit) := by
  rcases lt_trichotomy n 0 with hneg | rfl | hpos
  · have hopposite : p.Has (((-n : Int) : Rat) * unit) := by
      rw [Int.cast_neg, neg_mul]
      exact hproduct.neg
    have hround : roundHalfEven (p.format.round (-q * factor)) = -n := by
      rw [neg_mul, Format.round_neg, roundHalfEven_neg, hn]
    have hdifference := hq.neg.sub_multiple_of_pos hopposite hfactor hlow hhigh
      (by rwa [Int.natAbs_neg]) hround (by omega)
    rw [Int.cast_neg, neg_mul, neg_sub_neg, ← neg_sub] at hdifference
    simpa using hdifference.neg
  · rwa [Int.cast_zero, zero_mul, sub_zero]
  · exact hq.sub_multiple_of_pos hproduct hfactor hlow hhigh hsize hn hpos

/-- **The product of an integer and of leading bits** is a number of the precision, unless it is too
large for a finite one. -/
theorem has_mul_truncateToBits_iff {k : Int} {kept more : Nat} (hq : 0 < q) (hkept : 1 ≤ kept)
    (hroom : kept + more ≤ p.format.fieldSize + 1) (hk : k.natAbs ≤ 2 ^ more)
    (hnormal : p.format.minNormalExponent ≤ floorLog2 q) :
    p.Has (k * truncateToBits q kept) ↔ |k * truncateToBits q kept| ≤ p.format.maxValue := by
  rw [has_iff, and_iff_right (Format.isNumber_mul_truncateToBits hq hkept hroom hk hnormal)]

end Precision

end Elementary
