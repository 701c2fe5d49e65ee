import Elementary.Proofs.Number.Binade
import Mathlib.Data.Sign.Defs

/-!
# Leading bits

A positive number that is cut to its leading bits stays in its binade: it counts units of the last
of these bits, and the count has as many bits as are left.

The unit comes from the magnitude of a number, but the count is the floor of the signed quotient.
So a negative number goes down as well, away from zero: what is left of it has the leading bits of
the number only where nothing is cut off, and the two sides of zero are not mirror images. The
result is nevertheless one that a second cut leaves alone, also where it has reached the next
binade.

## Main definitions

* `leadingUnit`: the unit of the last leading bit.
* `IsCut`: the number without the bits behind the leading ones.

## Main results

* `exists_truncateToBits`: the count of units that is left of a positive number.
* `pow2_le_truncateToBits_iff`: a number that is cut stays above the powers of two below it.
* `truncateToBits_eq_self_iff`: nothing is cut off from the multiples of the unit.
* `truncateToBits_spec`: where the result is the cut of a number, and what it is elsewhere.
-/

namespace Elementary

variable {q : Rat} {bits : Nat}

/-- **A positive number cut to its leading bits** counts units of the last of them. -/
theorem exists_truncateToBits (hq : 0 < q) (hbits : 1 ≤ bits) :
    ∃ n : Nat, 2 ^ (bits - 1) ≤ n ∧ n < 2 ^ bits ∧
      truncateToBits q bits = n * pow2 (floorLog2 q - bits + 1) := by
  have hunit := pow2_pos (floorLog2 q - bits + 1)
  have hlow : ((2 ^ (bits - 1) : Nat) : Rat) ≤ q / pow2 (floorLog2 q - bits + 1) := by
    rw [le_div_iff₀ hunit, ← pow2_eq_natCast_mul (a := floorLog2 q) (by omega)]
    exact pow2_floorLog2_le hq
  have hhigh : q / pow2 (floorLog2 q - bits + 1) < (2 ^ bits : Nat) := by
    rw [div_lt_iff₀ hunit, ← pow2_eq_natCast_mul (a := floorLog2 q + 1) (by omega)]
    exact lt_pow2_floorLog2_add_one hq
  have hfloor : ((2 ^ (bits - 1) : Nat) : Int) ≤ (q / pow2 (floorLog2 q - bits + 1)).floor :=
    Rat.le_floor_iff.mpr (by exact_mod_cast hlow)
  have hceil : (q / pow2 (floorLog2 q - bits + 1)).floor < (2 ^ bits : Nat) := by
    exact_mod_cast (Rat.floor_le _).trans_lt hhigh
  obtain ⟨n, hn⟩ := Int.eq_ofNat_of_zero_le ((Int.natCast_nonneg _).trans hfloor)
  rw [hn] at hfloor hceil
  refine ⟨n, by exact_mod_cast hfloor, by exact_mod_cast hceil, ?_⟩
  rw [truncateToBits, Rat.abs_of_nonneg hq.le, hn, Int.cast_natCast]

/-- A number that is cut to its leading bits **stays above the powers of two** below it. -/
theorem pow2_le_truncateToBits_iff {e : Int} (hq : 0 < q) (hbits : 1 ≤ bits) :
    pow2 e ≤ truncateToBits q bits ↔ e ≤ floorLog2 q := by
  obtain ⟨n, hlow, hhigh, hcut⟩ := exists_truncateToBits hq hbits
  rw [hcut]
  constructor
  · intro h
    have hlt : pow2 e < pow2 (floorLog2 q + 1) := by
      refine h.trans_lt ?_
      rw [pow2_eq_natCast_mul (a := floorLog2 q + 1) (k := bits)
        (b := floorLog2 q - bits + 1) (by ring), natCast_mul_pow2_lt]
      exact hhigh
    have := pow2_lt_pow2.mp hlt
    omega
  · intro h
    refine (pow2_le_pow2.mpr h).trans ?_
    rw [pow2_eq_natCast_mul (a := floorLog2 q) (k := bits - 1)
      (b := floorLog2 q - bits + 1) (by omega), natCast_mul_pow2_le]
    exact hlow

/-! ### Both sides of zero -/

/-- The **unit of the last** of the leading bits of a number. -/
def leadingUnit (q : Rat) (bits : Nat) : Rat := pow2 (floorLog2 q.abs - bits + 1)

/-- `t` is `q` **without the bits behind the leading ones**: on the side of `q`, a count of units
with as many bits as are left, and less than a unit nearer to zero. -/
def IsCut (q : Rat) (bits : Nat) (t : Rat) : Prop :=
  ∃ n : Nat, 2 ^ (bits - 1) ≤ n ∧ n < 2 ^ bits ∧
    t = SignType.sign q * (n * leadingUnit q bits) ∧
    0 ≤ |q| - |t| ∧ |q| - |t| < leadingUnit q bits

theorem leadingUnit_pos (q : Rat) (bits : Nat) : 0 < leadingUnit q bits := pow2_pos _

@[simp] theorem leadingUnit_neg (q : Rat) (bits : Nat) :
    leadingUnit (-q) bits = leadingUnit q bits := by
  rw [leadingUnit, leadingUnit, Rat.abs_neg]

theorem leadingUnit_of_pos (hq : 0 < q) : leadingUnit q bits = pow2 (floorLog2 q - bits + 1) := by
  rw [leadingUnit, Rat.abs_of_nonneg hq.le]

theorem leadingUnit_eq_pow2 (q : Rat) (bits : Nat) :
    leadingUnit q bits = pow2 (floorLog2 |q| - bits + 1) := by
  rcases le_total 0 q with hq | hq
  · rw [leadingUnit, Rat.abs_of_nonneg hq, abs_of_nonneg hq]
  · rw [leadingUnit, Rat.abs_of_nonpos hq, abs_of_nonpos hq]

/-- The magnitude of a number has **as many bits as are left**, counted in units of the last. -/
theorem leadingUnit_bounds (hq : q ≠ 0) (hbits : 1 ≤ bits) :
    (2 ^ (bits - 1) : Nat) * leadingUnit q bits ≤ |q| ∧
      |q| < (2 ^ bits : Nat) * leadingUnit q bits := by
  have hpos : 0 < |q| := abs_pos.mpr hq
  rw [leadingUnit_eq_pow2, ← pow2_eq_natCast_mul (a := floorLog2 |q|) (by omega),
    ← pow2_eq_natCast_mul (a := floorLog2 |q| + 1) (by omega)]
  exact ⟨pow2_floorLog2_le hpos, lt_pow2_floorLog2_add_one hpos⟩

theorem truncateToBits_eq_floor (q : Rat) (bits : Nat) :
    truncateToBits q bits = (q / leadingUnit q bits).floor * leadingUnit q bits := rfl

/-- The result is less than a unit **below** the number, on both sides of zero. -/
theorem truncateToBits_near (q : Rat) (bits : Nat) :
    0 ≤ q - truncateToBits q bits ∧ q - truncateToBits q bits < leadingUnit q bits := by
  have hunit := leadingUnit_pos q bits
  have hquotient : q = q / leadingUnit q bits * leadingUnit q bits :=
    (div_mul_cancel₀ q hunit.ne').symm
  have hle : ((q / leadingUnit q bits).floor : Rat) ≤ q / leadingUnit q bits := Rat.floor_le _
  have hlt : q / leadingUnit q bits < (q / leadingUnit q bits).floor + 1 := by
    exact_mod_cast Rat.lt_floor_add_one _
  have hrest : q - truncateToBits q bits =
      (q / leadingUnit q bits - (q / leadingUnit q bits).floor) * leadingUnit q bits := by
    rw [truncateToBits_eq_floor, sub_mul, ← hquotient]
  rw [hrest]
  constructor
  · exact mul_nonneg (by linarith) hunit.le
  · calc _ < 1 * leadingUnit q bits := mul_lt_mul_of_pos_right (by linarith) hunit
      _ = _ := one_mul _

/-- **Nothing is cut off** from the multiples of the unit, and from no other number. -/
theorem truncateToBits_eq_self_iff :
    truncateToBits q bits = q ↔ ∃ k : Int, q = k * leadingUnit q bits := by
  constructor
  · intro h
    exact ⟨_, h.symm⟩
  · rintro ⟨k, hk⟩
    have hquotient : q / leadingUnit q bits = k := by
      rw [div_eq_iff (leadingUnit_pos q bits).ne']
      exact hk
    rw [truncateToBits_eq_floor, hquotient, Rat.floor_intCast, ← hk]

/-- A positive number **loses the bits** behind the leading ones. -/
theorem isCut_of_pos (hq : 0 < q) (hbits : 1 ≤ bits) : IsCut q bits (truncateToBits q bits) := by
  obtain ⟨n, hlow, hhigh, hcut⟩ := exists_truncateToBits hq hbits
  rw [← leadingUnit_of_pos hq] at hcut
  have hnear := truncateToBits_near q bits
  have hnonneg : 0 ≤ truncateToBits q bits :=
    hcut ▸ mul_nonneg (Nat.cast_nonneg n) (leadingUnit_pos q bits).le
  refine ⟨n, hlow, hhigh, by simp [sign_pos hq, hcut], ?_⟩
  rwa [abs_of_pos hq, abs_of_nonneg hnonneg]

/-- The magnitude of a negative number is **rounded up** to a count of units, which may be the first
of the next binade. -/
theorem exists_truncateToBits_of_neg (hq : q < 0) (hbits : 1 ≤ bits) :
    ∃ n : Nat, 2 ^ (bits - 1) ≤ n ∧ n ≤ 2 ^ bits ∧
      truncateToBits q bits = -(n * leadingUnit q bits) := by
  have hunit := leadingUnit_pos q bits
  obtain ⟨hlow, hhigh⟩ := leadingUnit_bounds hq.ne hbits
  rw [abs_of_neg hq] at hlow hhigh
  have hbelow : q / leadingUnit q bits ≤ ((-(2 ^ (bits - 1) : Nat) : Int) : Rat) := by
    rw [div_le_iff₀ hunit]
    push_cast at hlow ⊢
    linarith
  have habove : ((-(2 ^ bits : Nat) : Int) : Rat) ≤ q / leadingUnit q bits := by
    rw [le_div_iff₀ hunit]
    push_cast at hhigh ⊢
    linarith
  have hfloor : (q / leadingUnit q bits).floor ≤ -((2 ^ (bits - 1) : Nat) : Int) := by
    exact_mod_cast (Rat.floor_le _).trans hbelow
  have hceil : -((2 ^ bits : Nat) : Int) ≤ (q / leadingUnit q bits).floor :=
    Rat.le_floor_iff.mpr habove
  obtain ⟨n, hn⟩ := Int.eq_ofNat_of_zero_le
    (neg_nonneg.mpr (hfloor.trans (neg_nonpos.mpr (Int.natCast_nonneg _))))
  refine ⟨n, by omega, by omega, ?_⟩
  rw [truncateToBits_eq_floor, ← neg_mul]
  congr 1
  exact_mod_cast (neg_eq_iff_eq_neg.mp hn)

/-- What is left of a negative number **is its cut** only where nothing is cut off. -/
theorem isCut_iff_of_neg (hq : q < 0) (hbits : 1 ≤ bits) :
    IsCut q bits (truncateToBits q bits) ↔ truncateToBits q bits = q := by
  have hnear := (truncateToBits_near q bits).1
  obtain ⟨n, hlow, hhigh, hcut⟩ := exists_truncateToBits_of_neg hq hbits
  constructor
  · rintro ⟨-, -, -, -, hle, -⟩
    rw [abs_of_neg hq, abs_of_nonpos (by linarith)] at hle
    linarith
  · intro hself
    have hunit := leadingUnit_pos q bits
    -- a number that is its own cut has not reached the next binade
    have hlt : n < 2 ^ bits := by
      have hbinade := (leadingUnit_bounds hq.ne hbits).2
      rw [abs_of_neg hq, neg_eq_iff_eq_neg.mpr (hself.symm.trans hcut)] at hbinade
      exact_mod_cast lt_of_mul_lt_mul_right hbinade hunit.le
    refine ⟨n, hlow, hlt, ?_, ?_, ?_⟩
    · rw [sign_neg hq, hcut]
      simp
    · rw [hself, sub_self]
    · rwa [hself, sub_self]

/-- A number that counts units with as many bits as are left is one of which **nothing is cut
off**, on both sides of zero. -/
theorem truncateToBits_of_count {n : Nat} {e : Int} (hbits : 1 ≤ bits) (hlow : 2 ^ (bits - 1) ≤ n)
    (hhigh : n < 2 ^ bits) :
    truncateToBits (n * pow2 e) bits = n * pow2 e ∧
      truncateToBits (-(n * pow2 e)) bits = -(n * pow2 e) := by
  have hpos : (0 : Rat) < n * pow2 e :=
    mul_pos (by exact_mod_cast (pow_pos two_pos _).trans_le hlow) (pow2_pos e)
  have hbinade : floorLog2 (n * pow2 e) = e + bits - 1 := by
    refine floorLog2_eq ?_ ?_
    · rw [pow2_eq_natCast_mul (a := e + bits - 1) (k := bits - 1) (b := e) (by omega)]
      exact (natCast_mul_pow2_le e).mpr hlow
    · rw [pow2_eq_natCast_mul (a := e + bits - 1 + 1) (k := bits) (b := e) (by omega)]
      exact (natCast_mul_pow2_lt e).mpr hhigh
  have hunit : leadingUnit (n * pow2 e) bits = pow2 e := by
    rw [leadingUnit_of_pos hpos, hbinade]
    congr 1
    ring
  constructor <;> rw [truncateToBits_eq_self_iff]
  · exact ⟨n, by rw [hunit, Int.cast_natCast]⟩
  · exact ⟨-n, by rw [leadingUnit_neg, hunit, Int.cast_neg, Int.cast_natCast, neg_mul]⟩

/-- **A second cut** changes nothing. -/
theorem truncateToBits_truncateToBits (hq : q ≠ 0) (hbits : 1 ≤ bits) :
    truncateToBits (truncateToBits q bits) bits = truncateToBits q bits := by
  rcases lt_or_gt_of_ne hq with hneg | hpos
  · obtain ⟨n, hlow, hhigh, hcut⟩ := exists_truncateToBits_of_neg hneg hbits
    rw [hcut, leadingUnit]
    rcases hhigh.lt_or_eq with hlt | rfl
    · exact (truncateToBits_of_count hbits hlow hlt).2
    · -- the first number of the next binade counts units that are twice as large
      have hnext : ((2 ^ bits : Nat) : Rat) * pow2 (floorLog2 q.abs - bits + 1) =
          (2 ^ (bits - 1) : Nat) * pow2 (floorLog2 q.abs - bits + 2) := by
        rw [← pow2_natCast, ← pow2_natCast, ← pow2_add, ← pow2_add]
        congr 1
        omega
      rw [hnext]
      exact (truncateToBits_of_count hbits le_rfl
        (Nat.pow_lt_pow_right one_lt_two (by omega))).2
  · obtain ⟨n, hlow, hhigh, hcut⟩ := exists_truncateToBits hpos hbits
    rw [hcut]
    exact (truncateToBits_of_count hbits hlow hhigh).1

/-- The two sides of zero are **mirror images** only where nothing is cut off. -/
theorem truncateToBits_neg_iff :
    truncateToBits (-q) bits = -truncateToBits q bits ↔ truncateToBits q bits = q := by
  have hunit := leadingUnit_pos q bits
  constructor
  · intro h
    have hbelow := (truncateToBits_near q bits).1
    have hbelow' := (truncateToBits_near (-q) bits).1
    rw [h] at hbelow'
    linarith
  · intro h
    obtain ⟨k, hk⟩ := truncateToBits_eq_self_iff.mp h
    rw [h, truncateToBits_eq_self_iff, leadingUnit_neg]
    exact ⟨-k, by rw [Int.cast_neg, neg_mul, ← hk]⟩

/-- **The leading bits of a number.** What is left is a cut of every positive number, and of a
negative one only where nothing is cut off: otherwise its magnitude is rounded up, by less than a
unit, to a count of units that may be the first of the next binade. A second cut changes nothing,
and the cuts of a number and of its opposite are opposite only where nothing is cut off. -/
theorem truncateToBits_spec (hq : q ≠ 0) (hbits : 1 ≤ bits) :
    (IsCut q bits (truncateToBits q bits) ↔ 0 < q ∨ truncateToBits q bits = q) ∧
      (q < 0 → ∃ n : Nat, 2 ^ (bits - 1) ≤ n ∧ n ≤ 2 ^ bits ∧
        truncateToBits q bits = -(n * leadingUnit q bits) ∧
        0 ≤ |truncateToBits q bits| - |q| ∧
        |truncateToBits q bits| - |q| < leadingUnit q bits) ∧
      truncateToBits (truncateToBits q bits) bits = truncateToBits q bits ∧
      (truncateToBits (-q) bits = -truncateToBits q bits ↔
        ∃ k : Int, q = k * leadingUnit q bits) := by
  refine ⟨?_, fun hneg => ?_, truncateToBits_truncateToBits hq hbits,
    truncateToBits_neg_iff.trans truncateToBits_eq_self_iff⟩
  · rcases lt_or_gt_of_ne hq with hneg | hpos
    · rw [isCut_iff_of_neg hneg hbits, or_iff_right hneg.not_gt]
    · exact iff_of_true (isCut_of_pos hpos hbits) (.inl hpos)
  · obtain ⟨n, hlow, hhigh, hcut⟩ := exists_truncateToBits_of_neg hneg hbits
    have hnear := truncateToBits_near q bits
    refine ⟨n, hlow, hhigh, hcut, ?_⟩
    rw [abs_of_neg hneg, abs_of_nonpos (by linarith), neg_sub_neg]
    exact hnear

/-- The leading bits of `5 / 4` and of `-5 / 4`. -/
theorem truncateToBits_spec_fiveQuarters :
    IsCut (5 / 4) 1 (truncateToBits (5 / 4) 1) ∧
      truncateToBits (truncateToBits (-5 / 4) 1) 1 = truncateToBits (-5 / 4) 1 :=
  ⟨(@truncateToBits_spec (5 / 4) 1 (by norm_num) le_rfl).1.mpr (.inl (by norm_num)),
    (@truncateToBits_spec (-5 / 4) 1 (by norm_num) le_rfl).2.2.1⟩

/-- The leading bit of `-5 / 4` is that of `-1`, but what is left is `-2`. -/
theorem not_isCut_truncateToBits :
    truncateToBits (-5 / 4) 1 = -2 ∧ IsCut (-5 / 4) 1 (-1) ∧
      ¬ IsCut (-5 / 4) 1 (truncateToBits (-5 / 4) 1) ∧
      truncateToBits (-(-5 / 4)) 1 ≠ -truncateToBits (-5 / 4) 1 := by
  have hvalue : truncateToBits (-5 / 4) 1 = -2 := by decide +kernel
  have hopposite : truncateToBits (-(-5 / 4)) 1 = 1 := by decide +kernel
  have hunit : leadingUnit (-5 / 4) 1 = 1 := by decide +kernel
  refine ⟨hvalue, ⟨1, le_rfl, by norm_num, ?_, ?_, ?_⟩, ?_, ?_⟩
  · rw [hunit, sign_neg (by norm_num)]
    norm_num
  · norm_num [abs_of_neg]
  · rw [hunit]
    norm_num [abs_of_neg]
  · rw [hvalue]
    rintro ⟨-, -, -, -, hle, -⟩
    norm_num [abs_of_neg] at hle
  · rw [hvalue, hopposite]
    norm_num

end Elementary
