import Elementary.Number.Rounding
import Mathlib.Algebra.Order.GroupWithZero.Basic
import Mathlib.Algebra.Order.Field.Rat
import Mathlib.Tactic.FieldSimp
import Mathlib.Tactic.Linarith
import Mathlib.Tactic.NormNum
import Mathlib.Tactic.Positivity
import Mathlib.Tactic.Ring

/-!
# Binades

A positive number lies in exactly one binade, the numbers from a power of two up to the next one.
`floorLog2` finds it from the lengths of numerator and denominator and one comparison; here that is
shown to be the exponent of the binade, whatever the lengths are. The rest of the module is the
arithmetic of `pow2` and of `roundHalfEven` on which the formats rest.

## Main results

* `pow2_floorLog2_le`, `lt_pow2_floorLog2_add_one`: a positive number lies in the binade whose
  exponent is found.
* `floorLog2_eq`, `floorLog2_eq_iff`: no other binade contains it.
* `le_roundHalfEven`, `roundHalfEven_le`: rounding to an integer does not pass an integer.
-/

namespace Elementary

/-! ### Powers of two -/

theorem pow2_pos (e : Int) : 0 < pow2 e := zpow_pos two_pos e

theorem pow2_ne_zero (e : Int) : pow2 e ≠ 0 := (pow2_pos e).ne'

theorem pow2_add (a b : Int) : pow2 (a + b) = pow2 a * pow2 b :=
  zpow_add₀ two_ne_zero a b

@[simp] theorem pow2_zero : pow2 0 = 1 := zpow_zero _

theorem pow2_add_one (e : Int) : pow2 (e + 1) = 2 * pow2 e := by
  rw [pow2_add, mul_comm]
  congr 1

theorem pow2_one : pow2 1 = 2 := zpow_one _

theorem pow2_two : pow2 2 = 4 := by norm_num [pow2]

theorem pow2_neg_one : pow2 (-1) = 1 / 2 := by norm_num [pow2]

theorem pow2_neg_two : pow2 (-2) = 1 / 4 := by norm_num [pow2]

theorem pow2_natCast (n : Nat) : pow2 n = ((2 ^ n : Nat) : Rat) := by
  rw [pow2, zpow_natCast]
  norm_cast

/-- A power of two is a whole multiple of every smaller one. -/
theorem pow2_eq_natCast_mul {a b : Int} {k : Nat} (h : a = k + b) :
    pow2 a = ((2 ^ k : Nat) : Rat) * pow2 b := by
  rw [h, pow2_add, pow2_natCast]

theorem pow2_le_pow2 {a b : Int} : pow2 a ≤ pow2 b ↔ a ≤ b :=
  zpow_le_zpow_iff_right₀ one_lt_two

theorem pow2_lt_pow2 {a b : Int} : pow2 a < pow2 b ↔ a < b :=
  zpow_lt_zpow_iff_right₀ one_lt_two

/-- Multiples of a unit compare as their counts do. -/
theorem natCast_mul_pow2_le {m n : Nat} (e : Int) :
    (m : Rat) * pow2 e ≤ n * pow2 e ↔ m ≤ n := by
  rw [mul_le_mul_iff_left₀ (pow2_pos e), Nat.cast_le]

/-- Multiples of a unit compare as their counts do. -/
theorem natCast_mul_pow2_lt {m n : Nat} (e : Int) :
    (m : Rat) * pow2 e < n * pow2 e ↔ m < n := by
  rw [mul_lt_mul_iff_left₀ (pow2_pos e), Nat.cast_lt]

/-! ### The binade of a positive number -/

/-- A positive natural number has its leading binary digit at the place its length says. -/
theorem pow2_bitLength_sub_one_le {n : Nat} (hn : n ≠ 0) :
    pow2 (bitLength n - 1) ≤ n := by
  have hlen : (bitLength n : Int) - 1 = (n.log2 : Nat) := by simp [bitLength, hn]
  rw [hlen, pow2_natCast]
  exact_mod_cast Nat.log2_self_le hn

/-- A natural number has no binary digit beyond its length. -/
theorem lt_pow2_bitLength (n : Nat) : (n : Rat) < pow2 (bitLength n) := by
  rw [pow2_natCast]
  by_cases hn : n = 0
  · subst hn
    simp
  · rw [bitLength, if_neg hn]
    exact_mod_cast Nat.lt_log2_self

/-- The lengths of numerator and denominator tell the binary exponent up to one: `q` lies strictly
between the neighbouring powers of two. -/
theorem between_pow2_bitLength {q : Rat} (hq : 0 < q) :
    pow2 ((bitLength q.num.natAbs : Int) - bitLength q.den - 1) < q ∧
      q < pow2 ((bitLength q.num.natAbs : Int) - bitLength q.den + 1) := by
  set a : Int := ((bitLength q.num.natAbs : Nat) : Int)
  set b : Int := ((bitLength q.den : Nat) : Int)
  have hnum : 0 < q.num := Rat.num_pos.mpr hq
  have hn : q.num.natAbs ≠ 0 := by omega
  have hden : (0 : Rat) < q.den := by exact_mod_cast q.den_pos
  have hcast : ((q.num.natAbs : Nat) : Rat) = (q.num : Rat) := by
    rw [← Int.cast_natCast, Int.natAbs_of_nonneg hnum.le]
  have hmul : q * q.den = q.num.natAbs := by rw [hcast, Rat.mul_den_eq_num]
  have hlow : pow2 (a - 1) ≤ q * q.den := hmul ▸ pow2_bitLength_sub_one_le hn
  have hhigh : q * q.den < pow2 a := hmul ▸ lt_pow2_bitLength _
  have hdlow : pow2 (b - 1) ≤ q.den := pow2_bitLength_sub_one_le q.den_nz
  have hdhigh : (q.den : Rat) < pow2 b := lt_pow2_bitLength _
  constructor
  · have h : pow2 (a - b - 1) * q.den < q * q.den := by
      calc pow2 (a - b - 1) * q.den < pow2 (a - b - 1) * pow2 b :=
            mul_lt_mul_of_pos_left hdhigh (pow2_pos _)
        _ = pow2 (a - 1) := by rw [← pow2_add]; congr 1; ring
        _ ≤ q * q.den := hlow
    exact lt_of_mul_lt_mul_right h hden.le
  · have h : q * q.den < pow2 (a - b + 1) * q.den := by
      calc q * q.den < pow2 a := hhigh
        _ = pow2 (a - b + 1) * pow2 (b - 1) := by rw [← pow2_add]; congr 1; ring
        _ ≤ pow2 (a - b + 1) * q.den := mul_le_mul_of_nonneg_left hdlow (pow2_pos _).le
    exact lt_of_mul_lt_mul_right h hden.le

/-- A positive number is not below its binade. -/
theorem pow2_floorLog2_le {q : Rat} (hq : 0 < q) : pow2 (floorLog2 q) ≤ q := by
  obtain ⟨hlow, -⟩ := between_pow2_bitLength hq
  unfold floorLog2
  dsimp only
  split
  · exact hlow.le
  · next h => exact not_lt.mp h

/-- A positive number is below the next binade. -/
theorem lt_pow2_floorLog2_add_one {q : Rat} (hq : 0 < q) : q < pow2 (floorLog2 q + 1) := by
  obtain ⟨-, hhigh⟩ := between_pow2_bitLength hq
  unfold floorLog2
  dsimp only
  split
  · next h => rwa [sub_add_cancel]
  · exact hhigh

/-- **Only one binade** contains a number. -/
theorem floorLog2_eq {q : Rat} {e : Int} (hlow : pow2 e ≤ q) (hhigh : q < pow2 (e + 1)) :
    floorLog2 q = e := by
  have hq : 0 < q := (pow2_pos e).trans_le hlow
  have h₁ : pow2 e < pow2 (floorLog2 q + 1) := hlow.trans_lt (lt_pow2_floorLog2_add_one hq)
  have h₂ : pow2 (floorLog2 q) < pow2 (e + 1) := (pow2_floorLog2_le hq).trans_lt hhigh
  rw [pow2_lt_pow2] at h₁ h₂
  omega

/-- **The exponent that is found is exact**, whatever the lengths of numerator and denominator are:
it is the only one for which a positive number lies between its power of two and the next. -/
theorem floorLog2_eq_iff {q : Rat} (hq : 0 < q) (e : Int) :
    floorLog2 q = e ↔ (2 : Rat) ^ e ≤ q ∧ q < (2 : Rat) ^ (e + 1) := by
  constructor
  · rintro rfl
    exact ⟨pow2_floorLog2_le hq, lt_pow2_floorLog2_add_one hq⟩
  · rintro ⟨hlow, hhigh⟩
    exact floorLog2_eq hlow hhigh

/-- A number just below one, whose numerator and denominator have the same length. -/
theorem floorLog2_eq_iff_belowOne :
    0 < (2 ^ 100 / (2 ^ 100 + 1) : Rat) ∧ floorLog2 (2 ^ 100 / (2 ^ 100 + 1)) = -1 ∧
      ∀ e : Int, (2 : Rat) ^ e ≤ 2 ^ 100 / (2 ^ 100 + 1) →
        (2 ^ 100 / (2 ^ 100 + 1) : Rat) < 2 ^ (e + 1) → e = -1 := by
  have hq : 0 < (2 ^ 100 / (2 ^ 100 + 1) : Rat) := by norm_num
  have hexponent : floorLog2 (2 ^ 100 / (2 ^ 100 + 1)) = -1 := by decide +kernel
  refine ⟨hq, hexponent, fun e hlow hhigh => ?_⟩
  rw [← (floorLog2_eq_iff hq e).mpr ⟨hlow, hhigh⟩, hexponent]

/-- A number below a power of two lies in a lower binade. -/
theorem floorLog2_lt {q : Rat} {e : Int} (hq : 0 < q) (h : q < pow2 e) : floorLog2 q < e :=
  pow2_lt_pow2.mp ((pow2_floorLog2_le hq).trans_lt h)

/-- **The decomposition of a number** into a mantissa and a power of two. -/
theorem mantissa_mul_pow2 (q : Rat) : q * pow2 (-floorLog2 q) * pow2 (floorLog2 q) = q := by
  rw [mul_assoc, ← pow2_add, neg_add_cancel, pow2_zero, mul_one]

/-- The mantissa of a positive number lies **between one and two**. -/
theorem mantissa_bounds {q : Rat} (hq : 0 < q) :
    1 ≤ q * pow2 (-floorLog2 q) ∧ q * pow2 (-floorLog2 q) < 2 := by
  have hpos := pow2_pos (floorLog2 q)
  have hlow := pow2_floorLog2_le hq
  have hhigh := lt_pow2_floorLog2_add_one hq
  rw [pow2_add_one] at hhigh
  constructor
  · refine le_of_mul_le_mul_right ?_ hpos
    rwa [mantissa_mul_pow2, one_mul]
  · refine lt_of_mul_lt_mul_right ?_ hpos.le
    rwa [mantissa_mul_pow2]

/-- Only one decomposition has such a mantissa. -/
theorem floorLog2_mul_pow2 {m : Rat} (hlow : 1 ≤ m) (hhigh : m < 2) (e : Int) :
    floorLog2 (m * pow2 e) = e := by
  have hpos := pow2_pos e
  refine floorLog2_eq ?_ ?_
  · nlinarith
  · rw [pow2_add_one]
    exact mul_lt_mul_of_pos_right hhigh hpos

/-! ### Rounding to an integer -/

/-- Rounding gives one of the two neighbouring integers. -/
theorem roundHalfEven_eq_floor_or (q : Rat) :
    roundHalfEven q = q.floor ∨ (roundHalfEven q = q.floor + 1 ∧ (q.floor : Rat) < q) := by
  unfold roundHalfEven
  dsimp only
  split
  · next h =>
    right
    refine ⟨rfl, ?_⟩
    rcases h with h | ⟨h, -⟩ <;> linarith
  · exact Or.inl rfl

/-- Integers are rounded to themselves. -/
@[simp] theorem roundHalfEven_intCast (n : Int) : roundHalfEven n = n := by
  rcases roundHalfEven_eq_floor_or (n : Rat) with h | ⟨-, h⟩
  · rw [h, Rat.floor_intCast]
  · rw [Rat.floor_intCast] at h
    exact absurd h (lt_irrefl _)

/-- Rounding does not fall below an integer that is not above the number. -/
theorem le_roundHalfEven {n : Int} {q : Rat} (h : (n : Rat) ≤ q) : n ≤ roundHalfEven q := by
  have hfloor : n ≤ q.floor := Rat.le_floor_iff.mpr h
  rcases roundHalfEven_eq_floor_or q with hr | ⟨hr, -⟩ <;> omega

/-- Rounding does not rise above an integer that is not below the number. -/
theorem roundHalfEven_le {n : Int} {q : Rat} (h : q ≤ n) : roundHalfEven q ≤ n := by
  have hfloor : q.floor ≤ n := by
    exact_mod_cast (Rat.floor_le q).trans h
  rcases roundHalfEven_eq_floor_or q with hr | ⟨hr, hlt⟩
  · omega
  · have : q.floor < n := by exact_mod_cast hlt.trans_le h
    omega

end Elementary
