import Elementary.Number.Basic
import Elementary.Proofs.Computation
import Elementary.Proofs.Format.Datum
import Elementary.Proofs.Format.Nearest

/-!
# Overflow

Encoding compares the rounded number with the largest finite one. The count of units of the power
of two that follows the finite numbers is even, so it takes the tie: a number is rounded up to that
power from half a unit below it on, the midpoint included. How the overflow is then reported
depends on whether the number can be shown in the message.

## Main results

* `Format.pow2_le_round_iff`: a power of two is reached from half a unit below it on.
* `Format.encode?_eq_none_iff`: what overflows is rounded to the power of two after the largest
  exponent, or beyond.
* `Number.encode_outcome`: the overflow test of encoding, and what is raised.
-/

namespace Elementary

namespace Format

variable {fmt : Format} {q : Rat} {k : Int} {E E' m : Nat}

/-- A power of two that is not below the smallest positive number is a number of the format. -/
theorem isNumber_pow2 (hk : fmt.minSubnormalExponent ≤ k) : fmt.IsNumber (pow2 k) := by
  obtain ⟨E, m, hm, h⟩ := exists_magnitude_eq_natCast_mul (n := 1) Nat.one_le_two_pow hk
  rw [Nat.cast_one, one_mul] at h
  rw [h]
  show fmt.IsNumber (Datum.signed false (fmt.magnitude E m))
  exact isNumber_signed_magnitude hm

/-- An even count of quanta is reached from half a quantum below it on. -/
theorem even_mul_le_round_iff {n : Int} (hn : n % 2 = 0) :
    n * pow2 (fmt.quantumExponent |q|) ≤ fmt.round q ↔
      n * pow2 (fmt.quantumExponent |q|) - pow2 (fmt.quantumExponent |q| - 1) ≤ q := by
  rw [round_eq]
  generalize fmt.quantumExponent |q| = u
  have hpos := pow2_pos u
  have hhalf : 1 / 2 * pow2 u = pow2 (u - 1) := by
    have htwice : pow2 u = 2 * pow2 (u - 1) := by rw [← pow2_add_one, sub_add_cancel]
    rw [htwice]
    ring
  rw [mul_le_mul_iff_left₀ hpos, Int.cast_le, le_roundHalfEven_iff hn, le_div_iff₀ hpos, sub_mul,
    hhalf]

/-- **A power of two is reached from half a unit below it on**, the unit being that of the numbers
just below it. The smallest positive number is no such power: its count, one, is odd. -/
theorem pow2_le_round_iff (hk : fmt.minSubnormalExponent < k) :
    pow2 k ≤ fmt.round q ↔
      pow2 k - pow2 (max (k - 1) fmt.minNormalExponent - fmt.fieldSize - 1) ≤ q := by
  have hborder : fmt.minSubnormalExponent + fmt.fieldSize = fmt.minNormalExponent := by
    rw [minSubnormalExponent, minNormalExponent]
    ring
  have hstart : k = k - 1 + 1 := by ring
  rcases le_or_gt (pow2 k) q with habove | hbelow
  · -- from the power on
    have hround : fmt.round (pow2 k) ≤ fmt.round q := round_mono habove
    rw [(isNumber_pow2 hk.le).round_eq_self] at hround
    have hpos := pow2_pos (max (k - 1) fmt.minNormalExponent - fmt.fieldSize - 1)
    exact iff_of_true hround (by linarith)
  rcases lt_or_ge q (pow2 (k - 1)) with hlow | hbinade
  · -- below the binade that ends with the power
    have hround : fmt.round q ≤ fmt.round (pow2 (k - 1)) := round_mono hlow.le
    rw [(isNumber_pow2 (by omega)).round_eq_self] at hround
    have htwice : pow2 k = 2 * pow2 (k - 1) := by rw [← pow2_add_one, ← hstart]
    have hpos := pow2_pos (k - 1)
    have hunit : pow2 (max (k - 1) fmt.minNormalExponent - fmt.fieldSize - 1) ≤ pow2 (k - 1) :=
      pow2_le_pow2.mpr (by omega)
    exact iff_of_false (by linarith) (by linarith)
  · -- in that binade, where the power is an even count of quanta
    have hquantum :
        fmt.quantumExponent |q| = max (k - 1) fmt.minNormalExponent - fmt.fieldSize := by
      rw [quantumExponent, abs_of_pos ((pow2_pos _).trans_le hbinade),
        floorLog2_eq hbinade (hstart ▸ hbelow)]
    obtain ⟨j, hj⟩ : ∃ j : Nat, k = (j + 1 : Nat) + fmt.quantumExponent |q| :=
      ⟨(k - 1 - fmt.quantumExponent |q|).toNat, by omega⟩
    have heven : ((2 ^ (j + 1) : Nat) : Int) % 2 = 0 := by
      rw [Nat.pow_succ]
      omega
    rw [← hquantum, pow2_eq_natCast_mul hj, ← Int.cast_natCast]
    exact even_mul_le_round_iff heven

/-- A magnitude is not below a power of two exactly if its exponent field is not below that of the
power. -/
theorem pow2_le_magnitude_iff (hm : m < 2 ^ fmt.fieldSize) (hE : E' ≠ 0) :
    pow2 (E' + fmt.bias) ≤ fmt.magnitude E m ↔ E' ≤ E := by
  constructor
  · intro h
    have := pow2_lt_pow2.mp (h.trans_lt (magnitude_lt_pow2 hm))
    omega
  · intro h
    have hpow : (E' : Int) + fmt.bias ≤ E + fmt.bias := by omega
    exact (pow2_le_pow2.mpr hpow).trans (pow2_le_magnitude (by omega))

/-- **What overflows** is rounded to the power of two after the largest exponent, or beyond. -/
theorem encode?_eq_none_iff : fmt.encode? q = none ↔ pow2 (fmt.maxExponent + 1) ≤ fmt.round |q| := by
  obtain ⟨E, m, hm, hround⟩ := exists_magnitude_eq_round fmt (abs_nonneg q)
  have hsigned : fmt.round q = Datum.signed (decide (q < 0)) (fmt.magnitude E m) := by
    rw [← hround]
    rcases lt_or_ge q 0 with h | h
    · rw [decide_eq_true h, abs_of_neg h, round_neg]
      exact (neg_neg _).symm
    · rw [decide_eq_false h.not_gt, abs_of_nonneg h]
      rfl
  have hmax : fmt.maxExponent + 1 = fmt.specialExponent + fmt.bias := by
    rw [maxExponent_eq]
    ring
  rw [encode?_eq hm hsigned, hround, hmax, pow2_le_magnitude_iff hm fmt.specialExponent_pos.ne']
  split <;> simp_all

/-- **With normal numbers** in the format, overflow begins at the midpoint between the largest finite
number and the next power of two, the midpoint included. -/
theorem encode?_eq_none_iff_of_normal (h : fmt.minNormalExponent ≤ fmt.maxExponent) :
    fmt.encode? q = none ↔
      pow2 fmt.maxExponent * (2 - pow2 (-(fmt.fieldSize : Int) - 1)) ≤ |q| := by
  have hk : fmt.minSubnormalExponent < fmt.maxExponent + 1 := by
    rw [minNormalExponent] at h
    rw [minSubnormalExponent]
    omega
  have hunit : pow2 fmt.maxExponent * pow2 (-(fmt.fieldSize : Int) - 1) =
      pow2 (fmt.maxExponent - fmt.fieldSize - 1) := by
    rw [← pow2_add]
    congr 1
    ring
  rw [encode?_eq_none_iff, pow2_le_round_iff hk, add_sub_cancel_right, max_eq_left h, mul_sub,
    hunit, pow2_add_one, mul_comm (pow2 fmt.maxExponent)]

/-- **Without normal numbers** the unit of the largest finite number is twice as large, and overflow
begins at what would be the largest finite number otherwise. -/
theorem encode?_eq_none_iff_of_subnormal (h : fmt.maxExponent < fmt.minNormalExponent)
    (hfield : 0 < fmt.fieldSize) : fmt.encode? q = none ↔ fmt.maxValue ≤ |q| := by
  have hpos := fmt.specialExponent_pos
  have hmax := fmt.maxExponent_eq
  have hnext : fmt.minNormalExponent = fmt.maxExponent + 1 := by
    rw [minNormalExponent] at *
    omega
  have hk : fmt.minSubnormalExponent < fmt.maxExponent + 1 := by
    rw [minNormalExponent] at hnext
    rw [minSubnormalExponent]
    omega
  have hunit : pow2 fmt.maxExponent * pow2 (-(fmt.fieldSize : Int)) =
      pow2 (fmt.maxExponent + 1 - fmt.fieldSize - 1) := by
    rw [← pow2_add]
    congr 1
    ring
  rw [encode?_eq_none_iff, pow2_le_round_iff hk, add_sub_cancel_right, max_eq_right h.le, hnext,
    maxValue, mul_sub, hunit, pow2_add_one, mul_comm (pow2 fmt.maxExponent)]

end Format

/-! ### How an overflow is reported -/

namespace Number

/-- **The coding of a quotient**, or its overflow, which is reported as such if the quotient can be
shown. -/
theorem encode_ratio (q : Rat) (fmt : Format) :
    (ratio q).encode fmt = match fmt.encode? q with
      | some c => .ok c
      | none => .error (if isShowable q then .overflow (ratText q) fmt.name
          else .tooManyDigits none) := by
  have hvalue : (ratio q).toRat = .ok q := rfl
  have hshown : (ratio q).shown = shownRat q := rfl
  rw [encode, hvalue, ok_bind, hshown]
  cases fmt.encode? q with
  | some c => rfl
  | none =>
    rw [shownRat]
    cases isShowable q <;> rfl

/-- The coding of an exact value in a precision is that of the quotient in its format. -/
theorem encode_ratio_format (q : Rat) (p : Precision) :
    (ratio q).encode p.format = p.encode q := rfl

/-- **The overflow test of encoding.** In a format with normal numbers an exact value overflows
from the midpoint between the largest finite number and the next power of two on, the midpoint
included; every smaller one has the coding of a finite number. The overflow is reported as such when
the value can be shown, and otherwise the report fails because the value has too many digits. In a
format without normal numbers the bound is another one. -/
theorem encode_outcome (fmt : Format) (v : Rat) :
    (fmt.minNormalExponent ≤ fmt.maxExponent →
      ((ratio v).encode fmt = .error (.overflow (ratText v) fmt.name) ↔
        pow2 fmt.maxExponent * (2 - pow2 (-(fmt.fieldSize : Int) - 1)) ≤ |v| ∧
          isShowable v = true) ∧
      ((ratio v).encode fmt = .error (.tooManyDigits none) ↔
        pow2 fmt.maxExponent * (2 - pow2 (-(fmt.fieldSize : Int) - 1)) ≤ |v| ∧
          isShowable v = false) ∧
      (|v| < pow2 fmt.maxExponent * (2 - pow2 (-(fmt.fieldSize : Int) - 1)) →
        ∃ c : Nat, (ratio v).encode fmt = .ok c ∧
          c < 2 ^ (1 + fmt.exponentSize + fmt.fieldSize) ∧
          c / 2 ^ fmt.fieldSize % 2 ^ fmt.exponentSize ≠ 2 ^ fmt.exponentSize - 1)) ∧
    (fmt.maxExponent < fmt.minNormalExponent → 0 < fmt.fieldSize →
      (fmt.encode? v = none ↔ fmt.maxValue ≤ |v|)) := by
  refine ⟨fun hnormal => ?_, Format.encode?_eq_none_iff_of_subnormal⟩
  rw [← Format.encode?_eq_none_iff_of_normal hnormal, ← not_le,
    ← Format.encode?_eq_none_iff_of_normal hnormal, encode_ratio]
  cases hc : fmt.encode? v with
  | none => cases isShowable v <;> simp
  | some c =>
    have hspecial : ¬ fmt.exponentField c = fmt.specialExponent := by
      rw [← Format.decode?_eq_none_iff, Format.decode?_of_encode? hc]
      simp
    rw [Format.exponentField_natCast] at hspecial
    simpa using ⟨Format.encode?_lt hc, hspecial⟩

/-- The midpoint itself, in double precision. -/
theorem encode_midpoint :
    (ratio (pow2 1023 * (2 - pow2 (-53)))).encode Precision.double.format =
      .error (.overflow (ratText (pow2 1023 * (2 - pow2 (-53)))) "binary64") :=
  ((encode_outcome Precision.double.format (pow2 1023 * (2 - pow2 (-53)))).1
    (by decide)).1.mpr ⟨le_abs_self _, by decide +kernel⟩

/-- An integer beyond the midpoint whose overflow is not reported as such, whether it is encoded in
a format or in a precision. -/
theorem encode_hugeInteger :
    pow2 Precision.double.format.maxExponent *
        (2 - pow2 (-(Precision.double.format.fieldSize : Int) - 1)) ≤ |((10 ^ 5000 : Nat) : Rat)| ∧
      (ratio ((10 ^ 5000 : Nat) : Rat)).encode Precision.double.format =
        .error (.tooManyDigits none) ∧
      Precision.double.encode ((10 ^ 5000 : Nat) : Rat) = .error (.tooManyDigits none) := by
  have hoverflow : Precision.double.format.encode? ((10 ^ 5000 : Nat) : Rat) = none := by
    decide +kernel
  have hlong : isShowable ((10 ^ 5000 : Nat) : Rat) = false := by decide +kernel
  have hencode : (ratio ((10 ^ 5000 : Nat) : Rat)).encode Precision.double.format =
      .error (.tooManyDigits none) := by
    rw [encode_ratio, hoverflow, hlong]
    rfl
  exact ⟨(Format.encode?_eq_none_iff_of_normal (by decide)).mp hoverflow, hencode,
    (encode_ratio_format _ .double).symm.trans hencode⟩

end Number

end Elementary
