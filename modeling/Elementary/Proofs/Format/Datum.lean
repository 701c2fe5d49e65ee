import Elementary.Evaluation.Emulation
import Elementary.Proofs.Format.Coding

/-!
# The data of a format

A datum is free to hold any magnitude; a datum of a format holds one that the format has. Every
operation gives a datum of the format again: most because they round, the others because what they
compute has no more significant bits than their operand. Bringing a datum of a format to that
format changes nothing, so it does not matter how often it is done.

## Main definitions

* `Datum.IsMember`: the data of a format.

## Main results

* `Datum.isMember_ofCoding`: what a coding stands for is a datum of its format.
* `Datum.convert_eq_self`: bringing a datum of a format to the format changes nothing.
* `Datum.isMember_add`, `isMember_mul`, `isMember_floor`, ...: the operations stay in the format.
* `Datum.ofRat_abs_of_decode?`: what a coding stands for is exact in double precision.
-/

namespace Elementary

namespace Format

variable {fmt : Format}

/-! ### Numbers with few significant bits -/

/-- A number whose count of units needs at most one bit more than the fraction field is a number of
the format, if its unit is not below that of the subnormal numbers. The count is doubled, and the
unit halved, until the count has a leading one or the unit is the smallest. -/
theorem exists_magnitude_eq_natCast_mul {n : Nat} {e : Int} (hn : n ≤ 2 ^ (fmt.fieldSize + 1))
    (he : fmt.minSubnormalExponent ≤ e) :
    ∃ E m, m < 2 ^ fmt.fieldSize ∧ (n : Rat) * pow2 e = fmt.magnitude E m := by
  obtain ⟨k, hk⟩ : ∃ k : Nat, e = fmt.minSubnormalExponent + k :=
    ⟨(e - fmt.minSubnormalExponent).toNat, by omega⟩
  have hunit : fmt.minSubnormalExponent + fmt.fieldSize = fmt.minNormalExponent := by
    rw [minSubnormalExponent, minNormalExponent]
    omega
  induction k generalizing n e with
  | zero =>
    have hexp : e + fmt.fieldSize = fmt.minNormalExponent := by omega
    obtain ⟨E, m, hm, h⟩ := exists_magnitude_eq hn hexp.ge (fun _ => hexp)
    exact ⟨E, m, hm, by rw [← h, add_sub_cancel_right]⟩
  | succ k ih =>
    by_cases hlead : 2 ^ fmt.fieldSize ≤ n
    · have hnormal : fmt.minNormalExponent ≤ e + fmt.fieldSize := by omega
      obtain ⟨E, m, hm, h⟩ := exists_magnitude_eq hn hnormal
        (fun hlow => absurd hlow (not_lt.mpr hlead))
      exact ⟨E, m, hm, by rw [← h, add_sub_cancel_right]⟩
    · have hdouble : 2 * n ≤ 2 ^ (fmt.fieldSize + 1) := by
        rw [Nat.pow_succ]
        omega
      obtain ⟨E, m, hm, h⟩ := ih (e := e - 1) hdouble (by omega) (by push_cast at hk; omega)
      refine ⟨E, m, hm, ?_⟩
      calc (n : Rat) * pow2 e = n * pow2 (e - 1 + 1) := by rw [sub_add_cancel]
        _ = ((2 * n : Nat) : Rat) * pow2 (e - 1) := by
          rw [pow2_add_one]
          push_cast
          ring
        _ = fmt.magnitude E m := h

/-- The powers of two of the exponent range are below the largest finite number. -/
theorem pow2_maxExponent_le_maxValue : pow2 fmt.maxExponent ≤ fmt.maxValue := by
  have hpow : 2 ^ (fmt.fieldSize + 1) = 2 * 2 ^ fmt.fieldSize := Nat.pow_succ'
  have hpos := fmt.two_pow_fieldSize_pos
  rw [maxValue_eq, pow2_eq_natCast_mul (a := fmt.maxExponent) (k := fmt.fieldSize)
    (b := fmt.maxExponent - fmt.fieldSize) (by ring), natCast_mul_pow2_le]
  omega

/-- A significand has at most one bit more than the fraction field. -/
theorem significand_le {E m : Nat} (hm : m < 2 ^ fmt.fieldSize) :
    fmt.significand E m ≤ 2 ^ (fmt.fieldSize + 1) := by
  rw [significand, Nat.pow_succ]
  split <;> omega

/-- Rounding changes no number of the format, zero included. -/
theorem round_magnitude {E m : Nat} (hm : m < 2 ^ fmt.fieldSize) :
    fmt.round (fmt.magnitude E m) = fmt.magnitude E m := by
  have h : fmt.round (Datum.signed false (fmt.magnitude E m)) =
      Datum.signed false (fmt.magnitude E m) := round_signed_magnitude hm
  exact h

variable (fmt) in
/-- A nonnegative number is rounded to a magnitude. -/
theorem exists_magnitude_eq_round {q : Rat} (hq : 0 ≤ q) :
    ∃ E m, m < 2 ^ fmt.fieldSize ∧ fmt.round q = fmt.magnitude E m := by
  rcases hq.eq_or_lt with rfl | hpos
  · refine ⟨0, 0, fmt.two_pow_fieldSize_pos, ?_⟩
    rw [round, if_pos rfl, magnitude_eq_zero_iff.mpr ⟨rfl, rfl⟩]
  · obtain ⟨E, m, hm, h⟩ := exists_magnitude_eq_roundPositive fmt hpos
    refine ⟨E, m, hm, ?_⟩
    rw [round, if_neg hpos.ne', if_neg (not_lt.mpr hq), h]

theorem round_nonneg {q : Rat} (hq : 0 ≤ q) : 0 ≤ fmt.round q := by
  obtain ⟨E, m, -, h⟩ := exists_magnitude_eq_round fmt hq
  rw [h]
  exact magnitude_nonneg

/-- **Rounding twice** is rounding once. -/
theorem round_round {q : Rat} (hq : 0 ≤ q) : fmt.round (fmt.round q) = fmt.round q := by
  obtain ⟨E, m, hm, h⟩ := exists_magnitude_eq_round fmt hq
  rw [h, round_magnitude hm]

end Format

namespace Datum

variable {fmt : Format} {negative : Bool} {q : Rat} {x y : Datum}

/-! ### Membership -/

/-- Whether a datum **belongs to a format**: as a number it has a magnitude that rounding leaves
alone, up to the largest finite one. -/
def IsMember (fmt : Format) : Datum → Prop
  | finite _ q => 0 ≤ q ∧ fmt.round q = q ∧ q ≤ fmt.maxValue
  | _ => True

theorem isMember_finite :
    (finite negative q).IsMember fmt ↔ 0 ≤ q ∧ fmt.round q = q ∧ q ≤ fmt.maxValue := Iff.rfl

@[simp] theorem isMember_nan : nan.IsMember fmt := trivial

@[simp] theorem isMember_infinite : (infinite negative).IsMember fmt := trivial

/-- A finite datum of a format holds the magnitude of an exponent field and a fraction field. -/
theorem isMember_finite_iff :
    (finite negative q).IsMember fmt ↔
      ∃ E m, E < fmt.specialExponent ∧ m < 2 ^ fmt.fieldSize ∧ q = fmt.magnitude E m := by
  constructor
  · rintro ⟨hq, hround, hmax⟩
    obtain ⟨E, m, hm, h⟩ := Format.exists_magnitude_eq_round fmt hq
    rw [hround] at h
    exact ⟨E, m, (Format.magnitude_le_maxValue_iff hm).mp (h ▸ hmax), hm, h⟩
  · rintro ⟨E, m, hE, hm, rfl⟩
    exact ⟨Format.magnitude_nonneg, Format.round_magnitude hm,
      (Format.magnitude_le_maxValue_iff hm).mpr hE⟩

/-- **What a coding stands for** is a datum of its format. -/
theorem isMember_ofCoding (fmt : Format) (coding : Nat) : (ofCoding fmt coding).IsMember fmt := by
  unfold ofCoding
  dsimp only
  split
  · split <;> trivial
  · next hE =>
    have hlt := fmt.exponentField_lt coding
    have hsize := fmt.specialExponent_add_one
    exact isMember_finite_iff.mpr ⟨_, _, by omega, fmt.fractionField_lt coding, rfl⟩

theorem isMember_zero : (finite negative 0).IsMember fmt :=
  isMember_finite_iff.mpr ⟨0, 0, fmt.specialExponent_pos, fmt.two_pow_fieldSize_pos,
    (Format.magnitude_eq_zero_iff.mpr ⟨rfl, rfl⟩).symm⟩

/-- **Rounding a magnitude** gives a datum of the format. -/
theorem isMember_ofMagnitude (hq : 0 ≤ q) : (ofMagnitude fmt negative q).IsMember fmt := by
  unfold ofMagnitude
  dsimp only
  split
  · trivial
  · next hmax =>
    exact ⟨Format.round_nonneg hq, Format.round_round hq, not_lt.mp hmax⟩

/-- A magnitude of the format is rounded to itself. -/
theorem ofMagnitude_eq (h : (finite negative q).IsMember fmt) :
    ofMagnitude fmt negative q = finite negative q := by
  obtain ⟨-, hround, hmax⟩ := h
  unfold ofMagnitude
  dsimp only
  rw [hround, if_neg (not_lt.mpr hmax)]

theorem isMember_ofRat : (ofRat fmt negative q).IsMember fmt := by
  unfold ofRat
  split
  · exact isMember_zero
  · exact isMember_ofMagnitude (Rat.abs_nonneg)

/-- **Bringing a datum of a format to the format** changes nothing. -/
@[simp] theorem convert_eq_self (h : x.IsMember fmt) : x.convert fmt = x := by
  cases x with
  | nan => rfl
  | infinite negative => rfl
  | finite negative q => exact ofMagnitude_eq h

/-- Bringing a datum of any format to a format gives a datum of that. -/
theorem IsMember.convert {fmt' : Format} (h : x.IsMember fmt') :
    (x.convert fmt).IsMember fmt := by
  cases x with
  | nan => trivial
  | infinite negative => trivial
  | finite negative q => exact isMember_ofMagnitude h.1

/-! ### Operations that round -/

theorem IsMember.neg (h : x.IsMember fmt) : x.neg.IsMember fmt := by
  cases x <;> exact h

theorem IsMember.abs (h : x.IsMember fmt) : x.abs.IsMember fmt := by
  cases x <;> exact h

theorem isMember_add : (x.add fmt y).IsMember fmt := by
  cases x <;> cases y <;> simp only [add] <;> try trivial
  · split <;> trivial
  · exact isMember_ofRat

theorem isMember_sub : (x.sub fmt y).IsMember fmt := isMember_add

theorem IsMember.mul (hx : x.IsMember fmt) (hy : y.IsMember fmt) : (x.mul fmt y).IsMember fmt := by
  cases x <;> cases y <;> simp only [Datum.mul] <;> try trivial
  · split <;> trivial
  · split <;> trivial
  · exact isMember_ofMagnitude (mul_nonneg hx.1 hy.1)

theorem IsMember.div (hx : x.IsMember fmt) (hy : y.IsMember fmt) : (x.div fmt y).IsMember fmt := by
  cases x <;> cases y <;> simp only [Datum.div] <;> try trivial
  · exact isMember_zero
  · split
    · split <;> trivial
    · exact isMember_ofMagnitude (div_nonneg hx.1 hy.1)

theorem isMember_powerOfTwo (e : Int) : (powerOfTwo fmt e).IsMember fmt :=
  isMember_ofMagnitude (pow2_pos _).le

/-! ### Operations that are exact -/

/-- A magnitude with few significant bits, neither too fine nor too large, is one of the format. -/
theorem isMember_natCast_mul {n : Nat} {e : Int} (hn : n ≤ 2 ^ (fmt.fieldSize + 1))
    (he : fmt.minSubnormalExponent ≤ e) (hmax : (n : Rat) * pow2 e ≤ pow2 fmt.maxExponent) :
    (finite negative (n * pow2 e)).IsMember fmt := by
  obtain ⟨E, m, hm, h⟩ := Format.exists_magnitude_eq_natCast_mul hn he
  refine isMember_finite_iff.mpr ⟨E, m, ?_, hm, h⟩
  rw [← Format.magnitude_le_maxValue_iff hm, ← h]
  exact hmax.trans Format.pow2_maxExponent_le_maxValue

end Datum

namespace Precision

variable (p : Precision)

/-- Half the unit in the last place of one is not too fine for a precision. -/
theorem minSubnormalExponent_lt :
    p.format.minSubnormalExponent < -(p.format.fieldSize : Int) := by
  cases p <;> decide

theorem minNormalExponent_neg : p.format.minNormalExponent < 0 := by
  cases p <;> decide

/-- Whole numbers with no more bits than the fraction field are not too large for a precision. -/
theorem fieldSize_le_maxExponent : (p.format.fieldSize : Int) ≤ p.format.maxExponent := by
  cases p <;> decide

theorem one_le_maxExponent : 1 ≤ p.format.maxExponent := by
  cases p <;> decide

end Precision

namespace Datum

variable {p : Precision} {negative : Bool} {q : Rat} {x : Datum}

/-- A whole number with no more bits than the fraction field is one of the format. -/
theorem isMember_natCast {n : Nat} (hn : n ≤ 2 ^ p.format.fieldSize) :
    (finite negative n).IsMember p.format := by
  have hsize : n ≤ 2 ^ (p.format.fieldSize + 1) :=
    hn.trans (Nat.pow_le_pow_right two_pos (Nat.le_succ _))
  have hunit : p.format.minSubnormalExponent ≤ 0 := by
    have := p.minSubnormalExponent_lt
    omega
  have hmax : (n : Rat) * pow2 0 ≤ pow2 p.format.maxExponent := by
    calc (n : Rat) * pow2 0 ≤ ((2 ^ p.format.fieldSize : Nat) : Rat) * pow2 0 :=
          (natCast_mul_pow2_le 0).mpr hn
      _ = pow2 p.format.fieldSize := by rw [pow2_zero, mul_one, pow2_natCast]
      _ ≤ pow2 p.format.maxExponent := pow2_le_pow2.mpr p.fieldSize_le_maxExponent
  have h : (finite negative (n * pow2 0)).IsMember p.format :=
    isMember_natCast_mul hsize hunit hmax
  rwa [pow2_zero, mul_one] at h

/-- **A neighbouring integer** of a number of the format is one of the format: a number that is no
integer is small enough for its neighbours to be exact. -/
theorem IsMember.of_integral {n : Int} (h : (finite negative q).IsMember p.format)
    (hlow : ∀ k : Int, (k : Rat) ≤ q → k ≤ n) (hhigh : ∀ k : Int, q ≤ k → n ≤ k) :
    (finite negative (n : Rat)).IsMember p.format := by
  obtain ⟨E, m, hE, hm, hq⟩ := isMember_finite_iff.mp h
  have hnonneg : 0 ≤ n := hlow 0 (by rw [Int.cast_zero]; exact h.1)
  rw [Format.magnitude_eq] at hq
  by_cases hunit : 0 ≤ p.format.unitExponent E
  · -- every number of a unit that is whole is an integer
    obtain ⟨u, hu⟩ := Int.eq_ofNat_of_zero_le hunit
    have hint : q = ((p.format.significand E m * 2 ^ u : Nat) : Int) := by
      rw [hq, hu, pow2_natCast]
      push_cast
      ring
    have heq : n = ((p.format.significand E m * 2 ^ u : Nat) : Int) :=
      le_antisymm (hhigh _ hint.le) (hlow _ hint.ge)
    rwa [heq, ← hint]
  · have hsmall : q ≤ ((2 ^ p.format.fieldSize : Nat) : Int) := by
      have hle : p.format.unitExponent E ≤ -1 := by omega
      calc q = (p.format.significand E m : Rat) * pow2 (p.format.unitExponent E) := hq
        _ ≤ (p.format.significand E m : Rat) * pow2 (-1) :=
          mul_le_mul_of_nonneg_left (pow2_le_pow2.mpr hle) (Nat.cast_nonneg _)
        _ ≤ ((2 ^ (p.format.fieldSize + 1) : Nat) : Rat) * pow2 (-1) :=
          (natCast_mul_pow2_le _).mpr (Format.significand_le hm)
        _ = pow2 p.format.fieldSize := (pow2_eq_natCast_mul (by push_cast; ring)).symm
        _ = ((2 ^ p.format.fieldSize : Nat) : Int) := by
          rw [pow2_natCast, Int.cast_natCast]
    obtain ⟨k, rfl⟩ := Int.eq_ofNat_of_zero_le hnonneg
    have hk : k ≤ 2 ^ p.format.fieldSize := by exact_mod_cast hhigh _ hsmall
    rw [Int.cast_natCast]
    exact isMember_natCast hk

theorem IsMember.nearestInteger (h : x.IsMember p.format) :
    x.nearestInteger.IsMember p.format := by
  cases x with
  | nan => trivial
  | infinite negative => trivial
  | finite negative q =>
    exact h.of_integral (fun _ => le_roundHalfEven) (fun _ => roundHalfEven_le)

theorem IsMember.floor (h : x.IsMember p.format) : x.floor.IsMember p.format := by
  cases x with
  | nan => trivial
  | infinite negative => trivial
  | finite negative q =>
    cases negative
    · have hfloor := h.of_integral (n := q.floor) (fun _ => Rat.le_floor_iff.mpr)
        (fun k hk => by exact_mod_cast (Rat.floor_le q).trans hk)
      exact hfloor
    · -- the magnitude of a negative number is rounded up
      have hceil := h.of_integral (n := -(-q).floor)
        (fun k hk => by
          have := (Rat.floor_le (-q)).trans (neg_le_neg hk)
          have : (-q).floor ≤ -k := by exact_mod_cast this
          omega)
        (fun k hk => by
          have : -k ≤ (-q).floor := Rat.le_floor_iff.mpr (by push_cast; exact neg_le_neg hk)
          omega)
      rw [Int.cast_neg] at hceil
      exact hceil

/-- A number of the format **brought next to one**, into the binade of one or the one below, keeps
its significant bits. -/
theorem IsMember.scaled (h : (finite negative q).IsMember p.format) (hpos : 0 < q) {k : Int}
    (hk : 0 ≤ k) (hk' : k ≤ 1) :
    (finite negative (q / pow2 (floorLog2 q + k))).IsMember p.format := by
  obtain ⟨E, m, hE, hm, hq⟩ := isMember_finite_iff.mp h
  have hroom := p.minSubnormalExponent_lt
  have hfine : p.format.minSubnormalExponent ≤ p.format.unitExponent E - (floorLog2 q + k) := by
    rw [Format.unitExponent]
    by_cases hE0 : E = 0
    · subst hE0
      have hlog : floorLog2 q < p.format.minNormalExponent :=
        hq ▸ Format.floorLog2_magnitude_lt hm (hq ▸ hpos.ne')
      have hnormal := p.minNormalExponent_neg
      rw [Format.minSubnormalExponent] at *
      omega
    · have hlog : floorLog2 q = E + p.format.bias := hq ▸ Format.floorLog2_magnitude hm hE0
      omega
  have hsplit : q / pow2 (floorLog2 q + k) =
      (p.format.significand E m : Rat) * pow2 (p.format.unitExponent E - (floorLog2 q + k)) := by
    rw [div_eq_iff (pow2_ne_zero _), mul_assoc, ← pow2_add, sub_add_cancel, hq,
      Format.magnitude_eq]
  rw [hsplit]
  refine isMember_natCast_mul (Format.significand_le hm) hfine ?_
  rw [← hsplit, div_le_iff₀ (pow2_pos _), ← pow2_add]
  have hlt := lt_pow2_floorLog2_add_one hpos
  have hexp : floorLog2 q + 1 ≤ p.format.maxExponent + (floorLog2 q + k) := by
    have := p.one_le_maxExponent
    omega
  exact hlt.le.trans (pow2_le_pow2.mpr hexp)

/-- The **mantissa** has the significant bits of the datum. -/
theorem IsMember.mantissa (h : x.IsMember p.format) : x.mantissa.IsMember p.format := by
  cases x with
  | nan => trivial
  | infinite negative => trivial
  | finite negative q =>
    simp only [Datum.mantissa]
    by_cases hzero : q = 0
    · rw [if_pos hzero]
      exact isMember_zero
    · have hscaled := h.scaled (h.1.lt_of_ne (Ne.symm hzero)) le_rfl zero_le_one
      rw [add_zero] at hscaled
      rwa [if_neg hzero]

/-! ### From one precision to double precision -/

/-- **A number of a precision** is one of double precision. -/
theorem isMember_double (h : (finite false q).IsMember p.format) :
    (finite false q).IsMember Precision.double.format := by
  cases p with
  | double => exact h
  | single =>
    obtain ⟨E, m, hE, hm, rfl⟩ := isMember_finite_iff.mp h
    have hunit : Precision.single.format.unitExponent E = (max E 1 : Nat) - 150 := by
      have hbias : Precision.single.format.bias = -127 := by decide
      have hfield : Precision.single.format.fieldSize = 23 := rfl
      rw [Format.unitExponent, hbias, hfield]
      omega
    have hspecial : E < 255 := hE
    have hsize : Precision.single.format.significand E m ≤ 2 ^ 24 := Format.significand_le hm
    rw [Format.magnitude_eq]
    apply isMember_natCast_mul
    · exact hsize.trans (Nat.pow_le_pow_right two_pos (by decide))
    · have hfine : Precision.double.format.minSubnormalExponent = -1074 := by decide
      omega
    · calc (Precision.single.format.significand E m : Rat) *
            pow2 (Precision.single.format.unitExponent E)
          ≤ ((2 ^ 24 : Nat) : Rat) * pow2 (Precision.single.format.unitExponent E) :=
            (natCast_mul_pow2_le _).mpr hsize
        _ = pow2 (24 + Precision.single.format.unitExponent E) := (pow2_eq_natCast_mul rfl).symm
        _ ≤ pow2 1023 := pow2_le_pow2.mpr (by omega)

/-- The magnitude of what a coding stands for is a number of the format. -/
theorem isMember_of_decode? {c : Int} {v : Rat}
    (h : p.format.decode? c = some v) : (finite false v.abs).IsMember p.format := by
  have hfraction : p.format.fractionField c < 2 ^ p.format.fieldSize := by
    have hpos := p.format.two_pow_fieldSize_pos
    rw [Format.fractionField, Nat.pow_eq]
    omega
  have hexponent : p.format.exponentField c < 2 ^ p.format.exponentSize := by
    have hpos := Nat.two_pow_pos p.format.exponentSize
    rw [Format.exponentField, Nat.pow_eq, Nat.pow_eq]
    omega
  have hspecial := p.format.specialExponent_add_one
  rw [Format.decode?] at h
  dsimp only at h
  split at h
  · cases h
  · next hne =>
    obtain rfl := Option.some.inj h
    have hlt : p.format.exponentField c < p.format.specialExponent := by omega
    refine isMember_finite_iff.mpr ⟨_, _, hlt, hfraction, ?_⟩
    have habs : (signed (decide (p.format.signField c ≠ 0)) (p.format.magnitude
        (p.format.exponentField c) (p.format.fractionField c))).abs =
          p.format.magnitude (p.format.exponentField c) (p.format.fractionField c) :=
      abs_signed Format.magnitude_nonneg _
    simpa [signed] using habs

/-- The magnitude of what a coding stands for is not rounded in double precision. -/
theorem ofRat_abs_of_decode? {c : Int} {v : Rat}
    (h : p.format.decode? c = some v) :
    ofRat Precision.double.format false v.abs = .finite false v.abs := by
  have hmember := isMember_double (isMember_of_decode? h)
  have hnonneg : 0 ≤ v.abs := hmember.1
  rw [ofRat]
  split
  · next hzero => rw [hzero]
  · rw [Rat.abs_of_nonneg hnonneg, decide_eq_false (not_lt.mpr hnonneg)]
    exact ofMagnitude_eq hmember

end Datum

end Elementary
