import Elementary.Proofs.Format.Datum
import Elementary.Proofs.Format.Nearest
import Mathlib.Order.Monotone.Basic

/-!
# The order of codings

Below the coding of the infinity the codings are ordered as their numbers are: the fraction field
counts the units of a binade, and when it is full the exponent field goes on to the next binade,
which starts where the last one ends. So the nonnegative numbers of a format are a sequence without
gaps, and since rounding is monotone, encoding is.

## Main definitions

* `Format.codedMagnitude`: the magnitude of a coding without a sign, the exponent not bounded.

## Main results

* `Format.strictMono_codedMagnitude`: greater codings have greater magnitudes.
* `Format.coding_monotone`: rounding, encoding and decoding keep the order.
-/

namespace Elementary.Format

variable {fmt : Format} {E E' m m' : Nat} {q : Rat}

/-- A magnitude with a **smaller exponent field**, or with the same one and a smaller fraction, is
smaller. -/
theorem magnitude_lt_magnitude (hm : m < 2 ^ fmt.fieldSize) (h : E < E' ∨ (E = E' ∧ m < m')) :
    fmt.magnitude E m < fmt.magnitude E' m' := by
  rcases h with hlt | ⟨rfl, hlt⟩
  · have hbinade : (E : Int) + 1 + fmt.bias ≤ E' + fmt.bias := by omega
    calc fmt.magnitude E m < pow2 (E + 1 + fmt.bias) := magnitude_lt_pow2 hm
      _ ≤ pow2 (E' + fmt.bias) := pow2_le_pow2.mpr hbinade
      _ ≤ fmt.magnitude E' m' := pow2_le_magnitude (by omega)
  · rw [magnitude_eq, magnitude_eq, natCast_mul_pow2_lt, significand, significand]
    split <;> omega

/-- The **magnitude of a coding** without a sign; the exponent field may be any. -/
def codedMagnitude (fmt : Format) (c : Nat) : Rat :=
  fmt.magnitude (c / 2 ^ fmt.fieldSize) (c % 2 ^ fmt.fieldSize)

/-- The magnitude of two fields is that of the coding which they make up. -/
theorem codedMagnitude_fields (hm : m < 2 ^ fmt.fieldSize) :
    fmt.codedMagnitude (E * 2 ^ fmt.fieldSize + m) = fmt.magnitude E m := by
  rw [codedMagnitude, Nat.mul_comm, Nat.mul_add_div fmt.two_pow_fieldSize_pos,
    Nat.div_eq_of_lt hm, Nat.add_zero, Nat.mul_add_mod, Nat.mod_eq_of_lt hm]

/-- **Greater codings have greater magnitudes**, across binades and across the border of the
subnormal numbers. -/
theorem strictMono_codedMagnitude (fmt : Format) : StrictMono fmt.codedMagnitude := by
  intro c d hcd
  refine magnitude_lt_magnitude (Nat.mod_lt _ fmt.two_pow_fieldSize_pos) ?_
  rcases (Nat.div_le_div_right (c := 2 ^ fmt.fieldSize) hcd.le).lt_or_eq with h | h
  · exact Or.inl h
  · have hc := Nat.div_add_mod c (2 ^ fmt.fieldSize)
    have hd := Nat.div_add_mod d (2 ^ fmt.fieldSize)
    rw [h] at hc
    exact Or.inr ⟨h, by omega⟩

/-! ### The codings below the infinity -/

/-- The coding of the infinity, above all codings of finite numbers without a sign. -/
theorem coding_infinite (fmt : Format) :
    (Datum.infinite false).coding fmt = fmt.specialExponent * 2 ^ fmt.fieldSize := by
  have hsize := fmt.specialExponent_add_one
  rw [Datum.coding, assemble_eq_add (by omega) fmt.two_pow_fieldSize_pos, signBit]
  simp

/-- **Below the infinity** every coding has a number, its magnitude. -/
theorem decode?_of_lt_infinite {c : Nat} (hc : c < (Datum.infinite false).coding fmt) :
    fmt.decode? c = some (fmt.codedMagnitude c) := by
  have hsize := fmt.specialExponent_add_one
  have hE : c / 2 ^ fmt.fieldSize < fmt.specialExponent := by
    rw [coding_infinite] at hc
    exact Nat.div_lt_of_lt_mul (by rwa [Nat.mul_comm])
  have hm := Nat.mod_lt c fmt.two_pow_fieldSize_pos
  have hfields : fmt.assemble false (c / 2 ^ fmt.fieldSize) (c % 2 ^ fmt.fieldSize) = c := by
    rw [assemble_eq_mul_add (by omega) hm, signBit, if_neg Bool.false_ne_true, Nat.zero_mul,
      Nat.zero_add, Nat.div_add_mod']
  calc fmt.decode? c
      = fmt.decode? (fmt.assemble false (c / 2 ^ fmt.fieldSize) (c % 2 ^ fmt.fieldSize)) := by
        rw [hfields]
    _ = some (fmt.codedMagnitude c) := by
        rw [decode?_assemble (by omega) hm, if_neg hE.ne]
        rfl

/-- A nonnegative number has a coding **below the infinity**, whose magnitude is the rounded
number. -/
theorem encode?_of_nonneg {c : Nat} (hq : 0 ≤ q) (h : fmt.encode? q = some c) :
    fmt.codedMagnitude c = fmt.round q := by
  obtain ⟨E, m, hm, hround⟩ := exists_magnitude_eq_round fmt hq
  have hsigned : fmt.round q = Datum.signed false (fmt.magnitude E m) := hround
  rw [encode?_eq hm hsigned] at h
  split at h
  · next hE =>
    have hsize := fmt.specialExponent_add_one
    rw [Bool.false_and, Option.some.injEq, assemble_eq_mul_add (by omega) hm, signBit,
      if_neg Bool.false_ne_true, Nat.zero_mul, Nat.zero_add] at h
    rw [← h, codedMagnitude_fields hm, hround]
  · cases h

/-- A nonnegative number of the format is the magnitude of a coding. -/
theorem IsNumber.exists_codedMagnitude_eq (hq : fmt.IsNumber q) (hnonneg : 0 ≤ q) :
    ∃ c, fmt.codedMagnitude c = q := by
  obtain ⟨E, m, hm, hround⟩ := exists_magnitude_eq_round fmt hnonneg
  rw [hq.round_eq_self] at hround
  exact ⟨_, (codedMagnitude_fields hm).trans hround.symm⟩

/-- **No number of the format lies between** the magnitudes of consecutive codings. -/
theorem IsNumber.le_or_le_codedMagnitude (hq : fmt.IsNumber q) (c : Nat) :
    q ≤ fmt.codedMagnitude c ∨ fmt.codedMagnitude (c + 1) ≤ q := by
  have hmono := fmt.strictMono_codedMagnitude
  rcases le_total q 0 with hneg | hnonneg
  · exact Or.inl (hneg.trans magnitude_nonneg)
  · obtain ⟨d, rfl⟩ := hq.exists_codedMagnitude_eq hnonneg
    rw [hmono.le_iff_le, hmono.le_iff_le]
    omega

/-- **Rounding, encoding and decoding are monotone.** Rounding keeps the order; of nonnegative
numbers with codings the codings are in the same order; and the codings below that of the infinity
have numbers that increase with the coding, with no number of the format between consecutive
ones. -/
theorem coding_monotone (fmt : Format) :
    (∀ x y, x ≤ y → fmt.round x ≤ fmt.round y) ∧
    (∀ x y c d, 0 ≤ x → x ≤ y → fmt.encode? x = some c → fmt.encode? y = some d → c ≤ d) ∧
    (∀ c d : Nat, c < d → d < (Datum.infinite false).coding fmt →
      ∃ a b, fmt.decode? c = some a ∧ fmt.decode? d = some b ∧ a < b ∧
        (d = c + 1 → ∀ y, fmt.IsNumber y → y ≤ a ∨ b ≤ y)) := by
  have hmono := fmt.strictMono_codedMagnitude
  refine ⟨fun x y h => round_mono h, ?_, ?_⟩
  · intro x y c d hx hxy hc hd
    rw [← hmono.le_iff_le, encode?_of_nonneg hx hc, encode?_of_nonneg (hx.trans hxy) hd]
    exact round_mono hxy
  · intro c d hcd hd
    refine ⟨_, _, decode?_of_lt_infinite (hcd.trans hd), decode?_of_lt_infinite hd, hmono hcd, ?_⟩
    rintro rfl y hy
    exact hy.le_or_le_codedMagnitude c

end Elementary.Format
