import Elementary.Format.Datum
import Elementary.Proofs.Format.Magnitude
import Mathlib.Tactic.IntervalCases

/-!
# Codings and numbers

A coding is three fields side by side. The fields never overlap, so that joining their bits is the
same as adding them up, and each can be read back. With the numbers of the format on the other
side, encoding and decoding are inverse to each other, up to rounding in one direction and up to
the sign of zero in the other.

## Main results

* `assemble_eq_add`: the bits of the fields do not meet.
* `exponentField_assemble`, `fractionField_assemble`, `signField_assemble`: the fields read back.
* `encode?_eq`: the coding of a number, from the fields of what it is rounded to.
* `decode?_assemble`: the number of three fields.
* `coding_inverse`: encoding and decoding are inverse over the whole format.
-/

namespace Elementary

/-! ### Magnitudes with a sign -/

namespace Datum

@[simp] theorem signed_zero (negative : Bool) : signed negative 0 = 0 := by
  cases negative <;> simp [signed]

@[simp] theorem signed_eq_zero_iff {negative : Bool} {q : Rat} :
    signed negative q = 0 ↔ q = 0 := by
  cases negative <;> simp [signed]

theorem signed_not (negative : Bool) (q : Rat) : signed (!negative) q = -signed negative q := by
  cases negative <;> simp [signed]

theorem signed_mul_signed (a b : Bool) (p q : Rat) :
    signed a p * signed b q = signed (a != b) (p * q) := by
  cases a <;> cases b <;> simp [signed]

theorem signed_div_signed (a b : Bool) (p q : Rat) :
    signed a p / signed b q = signed (a != b) (p / q) := by
  cases a <;> cases b <;> simp [signed, neg_div, div_neg]

/-- A number and its sign. -/
theorem signed_abs (q : Rat) : signed (decide (q < 0)) q.abs = q := by
  by_cases h : q < 0
  · rw [decide_eq_true h, Rat.abs_of_nonpos h.le]
    exact neg_neg q
  · rw [decide_eq_false h, Rat.abs_of_nonneg (not_lt.mp h)]
    rfl

theorem abs_signed {m : Rat} (h : 0 ≤ m) (negative : Bool) : (signed negative m).abs = m := by
  cases negative
  · exact Rat.abs_of_nonneg h
  · exact Rat.abs_neg.trans (Rat.abs_of_nonneg h)

end Datum

namespace Format

variable {fmt : Format} {negative : Bool} {E m : Nat}

/-! ### The fields of a coding -/

/-- The sign as a field. -/
def signBit (negative : Bool) : Nat := if negative then 1 else 0

theorem signBit_le_one (negative : Bool) : signBit negative ≤ 1 := by
  cases negative <;> decide

/-- The exponent and the fraction together lie below the sign. -/
theorem fields_lt (hE : E < 2 ^ fmt.exponentSize) (hm : m < 2 ^ fmt.fieldSize) :
    E * 2 ^ fmt.fieldSize + m < 2 ^ (fmt.exponentSize + fmt.fieldSize) := by
  rw [Nat.pow_add]
  calc E * 2 ^ fmt.fieldSize + m < (E + 1) * 2 ^ fmt.fieldSize := by
        rw [Nat.succ_mul]
        omega
    _ ≤ 2 ^ fmt.exponentSize * 2 ^ fmt.fieldSize := Nat.mul_le_mul_right _ hE

/-- **The bits of the fields do not meet**: joining them is adding them up. -/
theorem assemble_eq_add (hE : E < 2 ^ fmt.exponentSize) (hm : m < 2 ^ fmt.fieldSize) :
    fmt.assemble negative E m =
      signBit negative * 2 ^ (fmt.exponentSize + fmt.fieldSize) + (E * 2 ^ fmt.fieldSize + m) := by
  have hlow := fields_lt hE hm
  rw [← Nat.shiftLeft_eq, ← Nat.shiftLeft_eq] at *
  rw [assemble, signBit]
  rw [Nat.shiftLeft_add_eq_or_of_lt hm] at *
  rw [Nat.shiftLeft_add_eq_or_of_lt hlow, Nat.add_comm fmt.fieldSize, Nat.or_comm,
    Nat.or_comm m]

/-- A coding fits the width of the format. -/
theorem assemble_lt (hE : E < 2 ^ fmt.exponentSize) (hm : m < 2 ^ fmt.fieldSize) :
    fmt.assemble negative E m < 2 ^ fmt.bitSize := by
  have hlow := fields_lt hE hm
  have hsign := Nat.mul_le_mul_right (2 ^ (fmt.exponentSize + fmt.fieldSize))
    (signBit_le_one negative)
  have hsize : 2 ^ fmt.bitSize = 2 * 2 ^ (fmt.exponentSize + fmt.fieldSize) := by
    rw [bitSize, Nat.add_assoc, Nat.pow_add, Nat.pow_one]
  rw [assemble_eq_add hE hm, hsize]
  omega

theorem fractionField_natCast (c : Nat) : fmt.fractionField c = c % 2 ^ fmt.fieldSize := by
  rw [fractionField, Nat.pow_eq]
  omega

theorem exponentField_natCast (c : Nat) :
    fmt.exponentField c = c / 2 ^ fmt.fieldSize % 2 ^ fmt.exponentSize := by
  rw [exponentField]
  rw [Nat.pow_eq, Nat.pow_eq, ← Int.natCast_ediv, ← Int.natCast_emod, Int.toNat_natCast]

theorem signField_natCast (c : Nat) :
    fmt.signField c = (c / 2 ^ (fmt.exponentSize + fmt.fieldSize) : Nat) := by
  rw [signField, Nat.pow_eq, Int.natCast_ediv]

variable (fmt) in
theorem fractionField_lt (c : Nat) : fmt.fractionField c < 2 ^ fmt.fieldSize := by
  rw [fractionField_natCast]
  exact Nat.mod_lt _ fmt.two_pow_fieldSize_pos

variable (fmt) in
theorem exponentField_lt (c : Nat) : fmt.exponentField c < 2 ^ fmt.exponentSize := by
  rw [exponentField_natCast]
  exact Nat.mod_lt _ (Nat.two_pow_pos _)

/-- A coding as a count of the weight of the exponent field, and the fraction. -/
theorem assemble_eq_mul_add (hE : E < 2 ^ fmt.exponentSize) (hm : m < 2 ^ fmt.fieldSize) :
    fmt.assemble negative E m =
      (signBit negative * 2 ^ fmt.exponentSize + E) * 2 ^ fmt.fieldSize + m := by
  rw [assemble_eq_add hE hm, Nat.pow_add]
  ring

theorem fractionField_assemble (hE : E < 2 ^ fmt.exponentSize) (hm : m < 2 ^ fmt.fieldSize) :
    fmt.fractionField (fmt.assemble negative E m) = m := by
  rw [fractionField_natCast, assemble_eq_mul_add hE hm, Nat.mul_add_mod', Nat.mod_eq_of_lt hm]

theorem exponentField_assemble (hE : E < 2 ^ fmt.exponentSize) (hm : m < 2 ^ fmt.fieldSize) :
    fmt.exponentField (fmt.assemble negative E m) = E := by
  rw [exponentField_natCast, assemble_eq_mul_add hE hm, Nat.mul_comm _ (2 ^ fmt.fieldSize),
    Nat.mul_add_div fmt.two_pow_fieldSize_pos, Nat.div_eq_of_lt hm, Nat.add_zero,
    Nat.mul_add_mod', Nat.mod_eq_of_lt hE]

theorem signField_assemble (hE : E < 2 ^ fmt.exponentSize) (hm : m < 2 ^ fmt.fieldSize) :
    fmt.signField (fmt.assemble negative E m) = signBit negative := by
  rw [signField_natCast, assemble_eq_add hE hm, Nat.mul_comm (signBit negative),
    Nat.mul_add_div (Nat.two_pow_pos _), Nat.div_eq_of_lt (fields_lt hE hm), Nat.add_zero]

/-- The sign that a coding shows. -/
def isNegativeCoding (fmt : Format) (c : Nat) : Bool := decide (fmt.signField c ≠ 0)

/-- A coding of the format's width is what its three fields make up. -/
theorem assemble_fields {c : Nat} (hc : c < 2 ^ fmt.bitSize) :
    fmt.assemble (fmt.isNegativeCoding c) (fmt.exponentField c) (fmt.fractionField c) = c := by
  have hsign : signBit (fmt.isNegativeCoding c) = c / 2 ^ (fmt.exponentSize + fmt.fieldSize) := by
    have hlt : c / 2 ^ (fmt.exponentSize + fmt.fieldSize) < 2 := by
      rw [Nat.div_lt_iff_lt_mul (Nat.two_pow_pos _), ← Nat.pow_succ']
      rwa [bitSize, Nat.add_assoc, Nat.add_comm] at hc
    rw [isNegativeCoding, signField_natCast]
    interval_cases c / 2 ^ (fmt.exponentSize + fmt.fieldSize) <;> rfl
  rw [assemble_eq_mul_add (fmt.exponentField_lt c) (fmt.fractionField_lt c), hsign,
    exponentField_natCast, fractionField_natCast, Nat.add_comm fmt.exponentSize, Nat.pow_add,
    ← Nat.div_div_eq_div_mul, Nat.div_add_mod', Nat.div_add_mod']

/-- The coding whose only bit is the sign is that of negative zero. -/
theorem assemble_eq_two_pow_iff (hE : E < 2 ^ fmt.exponentSize) (hm : m < 2 ^ fmt.fieldSize) :
    fmt.assemble negative E m = 2 ^ (fmt.exponentSize + fmt.fieldSize) ↔
      negative = true ∧ E = 0 ∧ m = 0 := by
  have hlow := fields_lt hE hm
  have hfields : E * 2 ^ fmt.fieldSize + m = 0 ↔ E = 0 ∧ m = 0 := by
    rw [Nat.add_eq_zero_iff, Nat.mul_eq_zero, or_iff_left fmt.two_pow_fieldSize_pos.ne']
  rw [assemble_eq_add hE hm, ← hfields]
  cases negative
  · simp only [signBit, Bool.false_eq_true, if_false, false_and, iff_false]
    omega
  · simp only [signBit, if_true, true_and]
    omega

/-! ### The number of a coding -/

/-- **The number of three fields**; the special exponent field has none. -/
theorem decode?_assemble (hE : E < 2 ^ fmt.exponentSize) (hm : m < 2 ^ fmt.fieldSize) :
    fmt.decode? (fmt.assemble negative E m) =
      if E = fmt.specialExponent then none
      else some (Datum.signed negative (fmt.magnitude E m)) := by
  rw [decode?, Datum.signed]
  rw [exponentField_assemble hE hm, fractionField_assemble hE hm, signField_assemble hE hm]
  cases negative <;> rfl

/-- Only the special exponent field has no number. -/
theorem decode?_eq_none_iff (c : Int) :
    fmt.decode? c = none ↔ fmt.exponentField c = fmt.specialExponent := by
  rw [decode?]
  dsimp only
  split <;> simp_all

/-! ### The coding of a number -/

/-- The fields of a magnitude, read off its binary exponent and its count of units. -/
theorem encodeMagnitude_magnitude (hm : m < 2 ^ fmt.fieldSize) :
    fmt.encodeMagnitude negative (fmt.magnitude E m) = fmt.assemble negative E m := by
  rw [encodeMagnitude]
  by_cases hzero : fmt.magnitude E m = 0
  · obtain ⟨rfl, rfl⟩ := magnitude_eq_zero_iff.mp hzero
    rw [if_pos hzero]
  rw [if_neg hzero]
  dsimp only
  have hcount : fmt.magnitude E m / pow2 (fmt.unitExponent E) = (fmt.significand E m : Nat) := by
    rw [magnitude_eq, mul_div_cancel_right₀ _ (pow2_ne_zero _)]
  by_cases hE : E = 0
  · -- the binary exponent shows that the number is subnormal
    subst hE
    have hunit : fmt.minSubnormalExponent = fmt.unitExponent 0 := by
      rw [minSubnormalExponent, unitExponent, max_eq_right (Nat.zero_le 1)]
      push_cast
      ring
    rw [if_pos (floorLog2_magnitude_lt hm hzero), hunit, hcount, significand, if_pos rfl,
      Rat.num_natCast, Int.toNat_natCast]
  · have hmax : max E 1 = E := by omega
    have hnormal : ¬ (E : Int) + fmt.bias < fmt.minNormalExponent := by
      rw [minNormalExponent]
      omega
    have hunit : (E : Int) + fmt.bias - fmt.fieldSize = fmt.unitExponent E := by
      rw [unitExponent, hmax]
    rw [floorLog2_magnitude hm hE, if_neg hnormal, hunit, hcount, significand, if_neg hE,
      Rat.num_natCast, Int.toNat_natCast, add_sub_cancel_right, Int.toNat_natCast, Nat.pow_eq,
      Nat.add_sub_cancel_left]

theorem round_neg (q : Rat) : fmt.round (-q) = -fmt.round q := by
  simp only [round]
  rcases lt_trichotomy q 0 with h | rfl | h
  · have hneg : ¬ -q < 0 := by linarith
    rw [if_neg (neg_ne_zero.mpr h.ne), if_neg hneg, if_neg h.ne, if_pos h, neg_neg]
  · simp
  · have hneg : ¬ q < 0 := by linarith
    rw [if_neg (neg_ne_zero.mpr h.ne'), if_pos (neg_neg_of_pos h), if_neg h.ne', if_neg hneg,
      neg_neg]

/-- Rounding keeps the sign. -/
theorem round_signed (negative : Bool) (q : Rat) :
    fmt.round (Datum.signed negative q) = Datum.signed negative (fmt.round q) := by
  cases negative
  · rfl
  · exact round_neg q

variable (fmt) in
/-- **Every rounded number** is a magnitude with a sign. -/
theorem exists_fields_round (q : Rat) :
    ∃ negative E m, m < 2 ^ fmt.fieldSize ∧
      fmt.round q = Datum.signed negative (fmt.magnitude E m) := by
  have hf := fmt.two_pow_fieldSize_pos
  rw [round]
  rcases lt_trichotomy q 0 with h | h | h
  · obtain ⟨E, m, hm, hround⟩ := exists_magnitude_eq_roundPositive fmt (neg_pos.mpr h)
    exact ⟨true, E, m, hm, by rw [if_neg h.ne, if_pos h, hround]; rfl⟩
  · exact ⟨false, 0, 0, hf, by rw [if_pos h]; exact (magnitude_eq_zero_iff.mpr ⟨rfl, rfl⟩).symm⟩
  · obtain ⟨E, m, hm, hround⟩ := exists_magnitude_eq_roundPositive fmt h
    have hneg : ¬ q < 0 := by linarith
    exact ⟨false, E, m, hm, by rw [if_neg h.ne', if_neg hneg, hround]; rfl⟩

/-- Rounding changes no number of the format, of either sign. -/
theorem round_signed_magnitude (hm : m < 2 ^ fmt.fieldSize) :
    fmt.round (Datum.signed negative (fmt.magnitude E m)) =
      Datum.signed negative (fmt.magnitude E m) := by
  have hround : fmt.round (fmt.magnitude E m) = fmt.magnitude E m := by
    rw [round]
    by_cases hzero : fmt.magnitude E m = 0
    · rw [if_pos hzero, hzero]
    · have hneg : ¬ fmt.magnitude E m < 0 := not_lt.mpr magnitude_nonneg
      rw [if_neg hzero, if_neg hneg, roundPositive_magnitude hm hzero]
  rw [round_signed, hround]

/-- A magnitude with a sign lies below zero when the sign says so and it is not zero. -/
theorem signed_magnitude_neg_iff :
    Datum.signed negative (fmt.magnitude E m) < 0 ↔ negative = true ∧ ¬ (E = 0 ∧ m = 0) := by
  have hnonneg : 0 ≤ fmt.magnitude E m := magnitude_nonneg
  have hzero : fmt.magnitude E m = 0 ↔ E = 0 ∧ m = 0 := magnitude_eq_zero_iff
  rw [← hzero]
  cases negative
  · simpa [Datum.signed] using hnonneg
  · simpa [Datum.signed] using hnonneg.lt_iff_ne'

/-- **The coding of a number** that is rounded to a given magnitude: the fields of that magnitude,
unless its exponent field is the special one or beyond. Zero loses its sign. -/
theorem encode?_eq {q : Rat} (hm : m < 2 ^ fmt.fieldSize)
    (hq : fmt.round q = Datum.signed negative (fmt.magnitude E m)) :
    fmt.encode? q =
      if E < fmt.specialExponent then
        some (fmt.assemble (negative && !decide (E = 0 ∧ m = 0)) E m)
      else none := by
  have hsign : decide (Datum.signed negative (fmt.magnitude E m) < 0) =
      (negative && !decide (E = 0 ∧ m = 0)) := by
    rw [Bool.eq_iff_iff]
    simp only [decide_eq_true_eq, signed_magnitude_neg_iff, Bool.and_eq_true, Bool.not_eq_true',
      decide_eq_false_iff_not]
  unfold encode?
  dsimp only
  rw [hq, Datum.abs_signed magnitude_nonneg, hsign, encodeMagnitude_magnitude hm]
  by_cases hE : E < fmt.specialExponent
  · rw [if_pos hE, if_neg (not_lt.mpr ((magnitude_le_maxValue_iff hm).mpr hE))]
  · rw [if_neg hE, if_pos (not_le.mp (mt (magnitude_le_maxValue_iff hm).mp hE))]

/-- What a number is rounded to, from its coding. -/
theorem encode?_eq_some {q : Rat} {c : Nat} (h : fmt.encode? q = some c) :
    ∃ negative E m, E < fmt.specialExponent ∧ m < 2 ^ fmt.fieldSize ∧
      c = fmt.assemble negative E m ∧
      fmt.round q = Datum.signed negative (fmt.magnitude E m) := by
  obtain ⟨negative, E, m, hm, hround⟩ := fmt.exists_fields_round q
  rw [encode?_eq hm hround] at h
  by_cases hE : E < fmt.specialExponent
  · rw [if_pos hE, Option.some.injEq] at h
    refine ⟨_, E, m, hE, hm, h.symm, hround.trans ?_⟩
    by_cases hzero : E = 0 ∧ m = 0
    · rw [magnitude_eq_zero_iff.mpr hzero, Datum.signed_zero, Datum.signed_zero]
    · simp [hzero]
  · rw [if_neg hE] at h
    exact absurd h (by simp)

/-! ### The two directions -/

/-- Decoding gives back **the rounded number**. -/
theorem decode?_of_encode? {q : Rat} {c : Nat} (h : fmt.encode? q = some c) :
    fmt.decode? c = some (fmt.round q) := by
  obtain ⟨negative, E, m, hE, hm, rfl, hround⟩ := encode?_eq_some h
  have hsize := fmt.specialExponent_add_one
  rw [decode?_assemble (by omega) hm, if_neg hE.ne, hround]

/-- A coding that encoding gives has the width of the format. -/
theorem encode?_lt {q : Rat} {c : Nat} (h : fmt.encode? q = some c) : c < 2 ^ fmt.bitSize := by
  obtain ⟨negative, E, m, hE, hm, rfl, -⟩ := encode?_eq_some h
  have hsize := fmt.specialExponent_add_one
  exact assemble_lt (by omega) hm

/-- Encoding gives back **the fields of a finite number**; the coding of negative zero, whose only
bit is the sign, becomes that of zero. -/
theorem encode?_signed_magnitude (hE : E < fmt.specialExponent) (hm : m < 2 ^ fmt.fieldSize) :
    fmt.encode? (Datum.signed negative (fmt.magnitude E m)) =
      some (if fmt.assemble negative E m = 2 ^ (fmt.exponentSize + fmt.fieldSize) then 0
        else fmt.assemble negative E m) := by
  have hsize := fmt.specialExponent_add_one
  have hzero : fmt.assemble negative E m = 2 ^ (fmt.exponentSize + fmt.fieldSize) ↔
      negative = true ∧ E = 0 ∧ m = 0 := assemble_eq_two_pow_iff (by omega) hm
  rw [encode?_eq hm (round_signed_magnitude hm), if_pos hE, Option.some.injEq]
  split
  · next hplace =>
    obtain ⟨rfl, rfl, rfl⟩ := hzero.mp hplace
    simp [assemble]
  · next hplace =>
    have hsign : (negative && !decide (E = 0 ∧ m = 0)) = negative := by
      cases negative
      · rfl
      · rw [decide_eq_false fun h => hplace (hzero.mpr ⟨rfl, h⟩)]
        rfl
    rw [hsign]

/-- A coding of the format's width whose exponent field is not special has a number, and that
number has the coding. -/
theorem exists_decode?_eq_some {c : Nat} (hc : c < 2 ^ fmt.bitSize)
    (hE : fmt.exponentField c ≠ fmt.specialExponent) :
    ∃ q, fmt.decode? c = some q ∧
      fmt.encode? q = some (if c = 2 ^ (fmt.exponentSize + fmt.fieldSize) then 0 else c) := by
  have hElt := fmt.exponentField_lt c
  have hm := fmt.fractionField_lt c
  have hsize := fmt.specialExponent_add_one
  have hfields := assemble_fields hc
  refine ⟨Datum.signed (fmt.isNegativeCoding c)
    (fmt.magnitude (fmt.exponentField c) (fmt.fractionField c)), ?_, ?_⟩
  · calc fmt.decode? c = fmt.decode? (fmt.assemble (fmt.isNegativeCoding c)
            (fmt.exponentField c) (fmt.fractionField c)) := by rw [hfields]
      _ = _ := by rw [decode?_assemble hElt hm, if_neg hE]
  · rw [encode?_signed_magnitude (by omega) hm, hfields]

/-- **Encoding and decoding are inverse** over the whole of a format. What encoding gives fits the
width of the format and is decoded to the rounded number; a coding that fits the width and whose
exponent field is not all ones is decoded to a number with that coding, negative zero apart; and
of the codings that fit, exactly those whose exponent field is all ones have no number. -/
theorem coding_inverse (fmt : Format) :
    (∀ (q : Rat) (c : Nat), fmt.encode? q = some c →
      c < 2 ^ (1 + fmt.exponentSize + fmt.fieldSize) ∧ fmt.decode? c = some (fmt.round q)) ∧
    (∀ c : Nat, c < 2 ^ (1 + fmt.exponentSize + fmt.fieldSize) →
      c / 2 ^ fmt.fieldSize % 2 ^ fmt.exponentSize ≠ 2 ^ fmt.exponentSize - 1 →
      ∃ q, fmt.decode? c = some q ∧
        fmt.encode? q = some (if c = 2 ^ (fmt.exponentSize + fmt.fieldSize) then 0 else c)) ∧
    (∀ c : Nat, c < 2 ^ (1 + fmt.exponentSize + fmt.fieldSize) →
      (fmt.decode? c = none ↔
        c / 2 ^ fmt.fieldSize % 2 ^ fmt.exponentSize = 2 ^ fmt.exponentSize - 1)) := by
  refine ⟨?_, ?_, ?_⟩
  · intro q c h
    exact ⟨encode?_lt h, decode?_of_encode? h⟩
  · intro c hc hE
    rw [← exponentField_natCast] at hE
    exact exists_decode?_eq_some hc hE
  · intro c _
    rw [decode?_eq_none_iff, exponentField_natCast]
    rfl

/-- The largest subnormal number and half a unit more is rounded into the smallest normal one. -/
example : Precision.single.format.encode? (((2 : Nat) ^ 24 - 1 : Nat) * pow2 (-150)) =
    some 0x00800000 := by
  decide +kernel

end Format

end Elementary
