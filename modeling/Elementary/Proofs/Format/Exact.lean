import Elementary.Proofs.BigFloat.Exact
import Elementary.Proofs.Format.Coding
import Elementary.Proofs.Format.Datum
import Elementary.Proofs.Number.Nearest

/-!
# The numbers of a precision

A finite datum denotes a number, and the two zeros denote the same one. The operations that take a
number of a precision to another one without any rounding are described here by what they do to the
numbers: negation, magnitude, the two integral parts, exponent and mantissa, and the order.

## Main definitions

* `Datum.Denotes`: the number that a finite datum denotes.
* `Precision.Has`: the finite numbers of a precision.

## Main results

* `Precision.Has.fits`: the numbers of a precision have no more bits than its mantissa.
* `Datum.Denotes.nearestInteger`, `Datum.Denotes.mantissa` and the like: the operations on numbers.
-/

namespace Elementary

/-- The magnitude of an integer. -/
theorem abs_intCast (n : Int) : (n : Rat).abs = ((n.natAbs : Int) : Rat) := by
  rcases Int.le_total 0 n with h | h
  · rw [Rat.abs_of_nonneg (by exact_mod_cast h), Int.natAbs_of_nonneg h]
  · rw [Rat.abs_of_nonpos (by exact_mod_cast h), Int.ofNat_natAbs_of_nonpos h, Int.cast_neg]

namespace Datum

variable {p r : Precision} {x y : Datum} {q s : Rat}

/-- A finite datum **denotes** a number. -/
inductive Denotes : Datum → Rat → Prop
  | finite (negative : Bool) {m : Rat} (h : 0 ≤ m) :
    Denotes (.finite negative m) (signed negative m)

theorem denotes_finite (q : Rat) : (finite (decide (q < 0)) q.abs).Denotes q := by
  have h := Denotes.finite (decide (q < 0)) (Rat.abs_nonneg : 0 ≤ q.abs)
  rwa [signed_abs] at h

/-- Data of one number differ at most in the sign of a zero: they belong to the same formats. -/
theorem Denotes.isMember (hx : x.Denotes q) (hy : y.Denotes q) (h : y.IsMember p.format) :
    x.IsMember p.format := by
  cases hx with
  | @finite a m hm =>
    generalize hq : signed a m = q' at hy
    cases hy with
    | @finite b m' hm' =>
      have heq : m = m' := by rw [← abs_signed hm a, hq, abs_signed hm' b]
      exact heq ▸ h

end Datum

/-- A precision **has** a number when one of its finite data denotes it. -/
def Precision.Has (p : Precision) (q : Rat) : Prop :=
  ∃ x : Datum, x.Denotes q ∧ x.IsMember p.format

namespace Datum

variable {p r : Precision} {x y : Datum} {q s : Rat}

theorem Denotes.isMember_of_has (hx : x.Denotes q) (h : p.Has q) : x.IsMember p.format := by
  obtain ⟨y, hy, hmember⟩ := h
  exact hx.isMember hy hmember

/-- A datum of a number of a format is the same in the format. -/
theorem Denotes.convert (h : x.Denotes q) (hq : p.Has q) : (x.convert p.format).Denotes q := by
  rwa [convert_eq_self (h.isMember_of_has hq)]

/-- A number of a format is not rounded to it. -/
theorem denotes_ofRat (hq : p.Has q) : (ofRat p.format false q).Denotes q := by
  rw [ofRat]
  split
  · next h =>
    subst h
    exact .finite false le_rfl
  · rw [ofMagnitude_eq ((denotes_finite q).isMember_of_has hq)]
    exact denotes_finite q

/-- **What a finite coding stands for** denotes the number of the coding. -/
theorem denotes_ofCoding {fmt : Format} {coding : Nat} {q : Rat}
    (h : fmt.decode? coding = some q) : (ofCoding fmt coding).Denotes q := by
  rw [Format.decode?] at h
  rw [ofCoding]
  dsimp only at h ⊢
  split at h
  · cases h
  · next hE =>
    rw [if_neg hE]
    obtain rfl := Option.some.inj h
    have hdenotes := Denotes.finite (decide (fmt.signField coding ≠ 0))
      (@Format.magnitude_nonneg fmt (fmt.exponentField coding) (fmt.fractionField coding))
    simpa only [signed, decide_eq_true_eq] using hdenotes

/-! ### Operations on numbers -/

theorem Denotes.neg (h : x.Denotes q) : x.neg.Denotes (-q) := by
  cases h with
  | finite negative hm =>
    have hneg := Denotes.finite (!negative) hm
    cases negative
    · exact hneg
    · rw [signed, if_pos rfl, neg_neg]
      exact hneg

theorem Denotes.abs (h : x.Denotes q) : x.abs.Denotes q.abs := by
  cases h with
  | finite negative hm =>
    rw [abs_signed hm]
    exact .finite false hm

theorem Denotes.nearestInteger (h : x.Denotes q) :
    x.nearestInteger.Denotes (roundHalfEven q : Int) := by
  cases h with
  | @finite negative m hm =>
    have hround : (0 : Rat) ≤ (roundHalfEven m : Int) := by
      exact_mod_cast le_roundHalfEven (by exact_mod_cast hm)
    have hdenotes := Denotes.finite negative hround
    cases negative
    · exact hdenotes
    · rw [signed, if_pos rfl, roundHalfEven_neg, Int.cast_neg]
      exact hdenotes

theorem Denotes.floor (h : x.Denotes q) : x.floor.Denotes (q.floor : Int) := by
  cases h with
  | @finite negative m hm =>
    cases negative
    · have hfloor : (0 : Rat) ≤ (m.floor : Int) := by
        exact_mod_cast Rat.le_floor_iff.mpr (by exact_mod_cast hm)
      exact .finite false hfloor
    · have hfloor : (0 : Rat) ≤ -((-m).floor : Int) := by
        have hle : ((-m).floor : Rat) ≤ -m := Rat.floor_le _
        linarith
      have hdenotes := Denotes.finite true hfloor
      rwa [signed, if_pos rfl, neg_neg] at hdenotes

/-- What is left of a number on division by two. -/
theorem Denotes.isOdd_eq {n : Int} (h : x.Denotes n) : x.isOdd = decide (n % 2 = 1) := by
  generalize hn : (n : Rat) = q at h
  cases h with
  | @finite negative m hm =>
    have hcast : m = ((n.natAbs : Int) : Rat) := by
      rw [← abs_signed hm negative, ← hn, abs_intCast]
    have hhalf : (((n.natAbs : Int) : Rat) / 2).floor = (n.natAbs : Int) / 2 := by
      refine eq_of_forall_le_iff fun k => ?_
      rw [Rat.le_floor_iff, le_div_iff₀ two_pos, Int.le_ediv_iff_mul_le two_pos]
      norm_cast
    have hodd : ((n.natAbs : Int) / 2 * 2 ≠ (n.natAbs : Int)) ↔ n % 2 = 1 := by omega
    rw [isOdd, hcast, hhalf, decide_eq_decide, ← hodd]
    norm_cast

theorem Denotes.isZero_eq (h : x.Denotes q) : x.isZero = decide (q = 0) := by
  cases h with
  | finite negative hm => rw [isZero, decide_eq_decide, signed_eq_zero_iff]

theorem Denotes.exponent_eq (h : x.Denotes q) (hq : q ≠ 0) : x.exponent = floorLog2 q.abs := by
  cases h with
  | @finite negative m hm =>
    have hm0 : m ≠ 0 := mt signed_eq_zero_iff.mpr hq
    rw [abs_signed hm, exponent, if_neg hm0]

theorem Denotes.mantissa (h : x.Denotes q) (hq : q ≠ 0) :
    x.mantissa.Denotes (q * pow2 (-floorLog2 q.abs)) := by
  cases h with
  | @finite negative m hm =>
    have hm0 : m ≠ 0 := mt signed_eq_zero_iff.mpr hq
    have hpow : pow2 (-floorLog2 m) = (pow2 (floorLog2 m))⁻¹ := zpow_neg 2 (floorLog2 m)
    have hdenotes := Denotes.finite negative (div_nonneg hm (pow2_pos (floorLog2 m)).le)
    rw [abs_signed hm, Datum.mantissa, if_neg hm0, hpow]
    cases negative
    · exact hdenotes
    · rw [signed, if_pos rfl, neg_mul, ← div_eq_mul_inv]
      exact hdenotes

/-- **The order** of two data is that of their numbers. -/
theorem Denotes.compare?_eq (hx : x.Denotes q) (hy : y.Denotes s) :
    compare? x y = some (if q < s then .lt else if q = s then .eq else .gt) := by
  cases hx
  cases hy
  rfl

theorem Denotes.toRat?_eq (h : x.Denotes q) : x.toRat? = some q := by
  cases h
  rfl

end Datum

/-! ### The numbers of a precision -/

namespace Precision.Has

variable {p r : Precision} {q : Rat}

theorem neg (h : p.Has q) : p.Has (-q) := by
  obtain ⟨x, hx, hmember⟩ := h
  exact ⟨x.neg, hx.neg, hmember.neg⟩

theorem abs (h : p.Has q) : p.Has q.abs := by
  obtain ⟨x, hx, hmember⟩ := h
  exact ⟨x.abs, hx.abs, hmember.abs⟩

theorem nearestInteger (h : p.Has q) : p.Has (roundHalfEven q : Int) := by
  obtain ⟨x, hx, hmember⟩ := h
  exact ⟨_, hx.nearestInteger, hmember.nearestInteger⟩

theorem floor (h : p.Has q) : p.Has (q.floor : Int) := by
  obtain ⟨x, hx, hmember⟩ := h
  exact ⟨_, hx.floor, hmember.floor⟩

theorem mantissa (h : p.Has q) (hq : q ≠ 0) : p.Has (q * pow2 (-floorLog2 q.abs)) := by
  obtain ⟨x, hx, hmember⟩ := h
  exact ⟨_, hx.mantissa hq, hmember.mantissa⟩

/-- The numbers of a precision are those of any **wider** one. -/
theorem wider (h : p.Has q) (hr : p.wider r = r) : r.Has q := by
  obtain ⟨_, ⟨negative, hm⟩, hmember⟩ := h
  refine ⟨_, .finite negative hm, ?_⟩
  cases r with
  | double => exact Datum.isMember_double hmember
  | single =>
    cases p with
    | single => exact hmember
    | double => cases hr

/-- A number of a precision **counts units** that are not too fine. -/
theorem exists_count (h : p.Has q) :
    ∃ n e : Int, n.natAbs < 2 ^ (p.format.fieldSize + 1) ∧ p.format.minSubnormalExponent ≤ e ∧
      q = n * pow2 e := by
  obtain ⟨_, ⟨negative, -⟩, hmember⟩ := h
  obtain ⟨E, m, -, hm, rfl⟩ := Datum.isMember_finite_iff.mp hmember
  have hunit : p.format.minSubnormalExponent ≤ p.format.unitExponent E := by
    rw [Format.minSubnormalExponent, Format.unitExponent]
    omega
  have hlt : p.format.significand E m < 2 ^ (p.format.fieldSize + 1) := by
    rw [Format.significand, Nat.pow_succ]
    split <;> omega
  rw [Format.magnitude_eq]
  refine ⟨if negative then -(p.format.significand E m : Int) else p.format.significand E m,
    p.format.unitExponent E, ?_, hunit, ?_⟩
  · cases negative <;> simpa using hlt
  · cases negative <;> simp [Datum.signed]

/-- **The numbers of a precision fit** into the bits of its mantissa. -/
theorem fits (h : p.Has q) : Fits p.format.mantissaSize q := by
  obtain ⟨n, e, hn, -, hq⟩ := h.exists_count
  exact ⟨n, e, hn, hq⟩

end Precision.Has

namespace Precision

variable {p r : Precision} {q : Rat}

/-- Whole numbers with no more bits than the fraction field are numbers of a precision. -/
theorem has_intCast {n : Int} (hn : n.natAbs ≤ 2 ^ p.format.fieldSize) : p.Has n := by
  have hnat : p.Has (n.natAbs : Nat) :=
    ⟨.finite false _, .finite false (Nat.cast_nonneg _), Datum.isMember_natCast hn⟩
  rcases n.natAbs_eq with h | h
  · rw [h, Int.cast_natCast]
    exact hnat
  · rw [h, Int.cast_neg, Int.cast_natCast]
    exact hnat.neg

/-- A power of two in the range of the exponents is a number of a precision. -/
theorem has_pow2 {e : Int} (hlow : p.format.minSubnormalExponent ≤ e)
    (hhigh : e ≤ p.format.maxExponent) : p.Has (pow2 e) := by
  have hmember : (Datum.finite false (((1 : Nat) : Rat) * pow2 e)).IsMember p.format :=
    Datum.isMember_natCast_mul Nat.one_le_two_pow hlow (by
      rw [Nat.cast_one, one_mul]
      exact pow2_le_pow2.mpr hhigh)
  rw [Nat.cast_one, one_mul] at hmember
  exact ⟨_, .finite false (pow2_pos e).le, hmember⟩

/-- The exponents of a precision have **fewer bits** than its fraction field. -/
theorem two_mul_natAbs_exponent_le {e : Int} (hlow : p.format.minSubnormalExponent ≤ e)
    (hhigh : e ≤ p.format.maxExponent) : 2 * e.natAbs ≤ 2 ^ p.format.fieldSize := by
  have hroom : -((2 ^ p.format.fieldSize : Nat) : Int) ≤ 2 * p.format.minSubnormalExponent ∧
      2 * p.format.maxExponent ≤ (2 ^ p.format.fieldSize : Nat) := by
    cases p <;> decide
  omega

/-- The exponent of a number lies **in the range** of the exponents of its precision. -/
theorem Has.exponent_range (h : p.Has q) (hq : q ≠ 0) :
    p.format.minSubnormalExponent ≤ floorLog2 q.abs ∧
      floorLog2 q.abs ≤ p.format.maxExponent := by
  obtain ⟨_, ⟨negative, hm⟩, hmember⟩ := h
  rw [Datum.abs_signed hm]
  obtain ⟨E, m, hE, hfraction, rfl⟩ := Datum.isMember_finite_iff.mp hmember
  have hne : p.format.magnitude E m ≠ 0 := mt Datum.signed_eq_zero_iff.mpr hq
  have hpos := Format.magnitude_pos hne
  constructor
  · have hunit : p.format.minSubnormalExponent ≤ p.format.unitExponent E := by
      rw [Format.minSubnormalExponent, Format.unitExponent]
      omega
    have hcount : ((1 : Nat) : Rat) ≤ p.format.significand E m := by
      rw [Format.magnitude_eq] at hne
      exact_mod_cast Nat.one_le_iff_ne_zero.mpr fun hzero => hne (by rw [hzero]; simp)
    have hlow : pow2 p.format.minSubnormalExponent ≤ p.format.magnitude E m := by
      calc pow2 p.format.minSubnormalExponent ≤ pow2 (p.format.unitExponent E) :=
            pow2_le_pow2.mpr hunit
        _ = ((1 : Nat) : Rat) * pow2 (p.format.unitExponent E) := by rw [Nat.cast_one, one_mul]
        _ ≤ p.format.significand E m * pow2 (p.format.unitExponent E) :=
            mul_le_mul_of_nonneg_right hcount (pow2_pos _).le
        _ = p.format.magnitude E m := p.format.magnitude_eq E m |>.symm
    have := pow2_lt_pow2.mp (hlow.trans_lt (lt_pow2_floorLog2_add_one hpos))
    omega
  · by_cases hE0 : E = 0
    · subst hE0
      have hlt := Format.floorLog2_magnitude_lt hfraction hne
      have hnormal := p.minNormalExponent_neg
      have hone := p.one_le_maxExponent
      omega
    · rw [Format.floorLog2_magnitude hfraction hE0, Format.maxExponent_eq]
      omega

/-- The exponent of a number of a precision is a number of it. -/
theorem Has.exponent (h : p.Has q) (hq : q ≠ 0) : p.Has (floorLog2 q.abs : Int) := by
  have hrange := h.exponent_range hq
  have hcount := two_mul_natAbs_exponent_le hrange.1 hrange.2
  exact has_intCast (by omega)

/-- The exponent of a positive number of a precision, **counted twice**. -/
theorem Has.two_mul_natAbs_exponent_le (h : p.Has q) (hq : 0 < q) :
    2 * (floorLog2 q).natAbs ≤ 2 ^ p.format.fieldSize := by
  have hrange := h.exponent_range hq.ne'
  rw [Rat.abs_of_nonneg hq.le] at hrange
  exact Precision.two_mul_natAbs_exponent_le hrange.1 hrange.2

end Precision

end Elementary
