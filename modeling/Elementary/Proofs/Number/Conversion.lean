import Elementary.Proofs.BigFloat.Quotient
import Elementary.Proofs.Number.Literal
import Mathlib.Data.Sign.Basic

/-!
# Written quotients at a working precision

A number that is written as a quotient, or as a literal, comes to a working precision by two
roundings: first of its numerator, then of the quotient by its denominator. Nothing is lost of a
number that fits. Of the others no more is lost than their last bit, although two roundings may
miss the nearest number; where the numerator fits the first rounding does nothing, and the nearest
number is found. Only a literal with a row of digits that is too long is refused.

## Main definitions

* `Number.IsQuotient`: the numbers that are written as quotients or literals.
* `Number.IsReadable`: the numbers without a row of digits that is too long.

## Main results

* `Number.toBig_quotient`: what a quotient is at a working precision.
-/

namespace Elementary

namespace Number

open Literal

variable {bits : Nat} {n : Number} {q : Rat}

/-- A number is **written as a quotient**: as a rational, or as a literal of it. -/
inductive IsQuotient : Number → Rat → Prop
  | ratio (q : Rat) : IsQuotient (.ratio q) q
  | literal {s : String} {p : Parts} (hp : parts? (Text.strip s.toList) = some p)
    (hden : p.denominator ≠ 0) : IsQuotient (.literal s) p.value

/-- A number **can be read** when it is no literal with a row of digits that is too long. -/
def IsReadable (n : Number) : Prop := ∀ s, n = .literal s → Literal.HasRoom s

/-- A quotient that can be read comes to a working precision as its rational does. -/
theorem IsQuotient.toBig_eq (h : n.IsQuotient q) (hread : n.IsReadable) (bits : Nat) :
    n.toBig bits = .ok (.ofRat bits q) := by
  cases h with
  | ratio => rfl
  | literal hp hden => rw [toBig, rational_eq_value hp (hread _ rfl) hden, Except.map]

/-- A quotient that cannot be read is refused. -/
theorem IsQuotient.toBig_of_not_isReadable (h : n.IsQuotient q) (hread : ¬ n.IsReadable)
    (bits : Nat) :
    ∃ given, Text.digitLimit < given ∧ n.toBig bits = .error (.tooManyDigits (some given)) := by
  cases h with
  | ratio => exact absurd (fun s hs => nomatch hs) hread
  | @literal s p hp hden =>
    cases hlong : p.overlong? with
    | none =>
      refine absurd ?_ hread
      rintro _ ⟨⟩ p' hp'
      rw [hp, Option.mem_some_iff] at hp'
      exact hp' ▸ hlong
    | some given =>
      refine ⟨given, ?_, ?_⟩
      · simpa using List.find?_some hlong
      · rw [toBig, rational, hp]
        simp only [hlong]
        rfl

/-- **A quotient at a working precision.** It is itself when it fits, it is off by no more than the
last bit, it keeps its sign, and it is the nearest number when its numerator fits; a literal with a
row of digits that is too long is refused. -/
theorem toBig_quotient (hbits : 1 ≤ bits) (h : n.IsQuotient q) :
    (n.IsReadable → ∃ (x : BigFloat) (y : Rat), n.toBig bits = .ok x ∧
      (∀ digits, (big x digits).toRat = .ok y) ∧
      (Fits bits q → y = q) ∧
      |y - q| ≤ pow2 (1 - bits) * |q| ∧
      SignType.sign y = SignType.sign q ∧
      (q.num.natAbs < 2 ^ bits → IsNearest bits q y)) ∧
    (¬ n.IsReadable → ∃ given, Text.digitLimit < given ∧
      n.toBig bits = .error (.tooManyDigits (some given))) := by
  refine ⟨fun hread => ?_, fun hread => h.toBig_of_not_isReadable hread bits⟩
  obtain ⟨x, hx, hvalue⟩ := BigFloat.exists_ofRat_eq hbits q
  have hden : (0 : Rat) < q.den := by exact_mod_cast q.den_pos
  have hquotient : (q.num : Rat) / q.den = q := Rat.num_div_den q
  refine ⟨.finite x, x.toRat, by rw [h.toBig_eq hread, hx], fun _ => rfl, fun hfits => ?_, ?_, ?_,
    fun hnum => ?_⟩
  · obtain ⟨x', hx', hexact⟩ := BigFloat.exists_ofRat hfits
    rw [hx, BigFloat.finite.injEq] at hx'
    rw [hx', hexact]
  · have herror := abs_two_roundings_sub_le hbits q.num hden
    rwa [hquotient, ← hvalue] at herror
  · have hsign : SignType.sign (roundToBits q.num bits / q.den) = SignType.sign q := by
      rw [div_eq_mul_inv, sign_mul, sign_roundToBits hbits, ← sign_mul, ← div_eq_mul_inv,
        hquotient]
    rw [hvalue, sign_roundToBits hbits, hsign]
  · have hfits : Fits bits q.num := ⟨q.num, 0, hnum, by rw [pow2_zero, mul_one]⟩
    rw [roundToBits_of_fits hbits hfits, hquotient] at hvalue
    exact (isNearest_iff hbits).mpr hvalue

/-- A third at two bits. -/
theorem toBig_quotient_third : (ratio (1 / 3)).IsReadable ∧ 1 ≤ 2 ∧
    ∃ (x : BigFloat) (y : Rat), (ratio (1 / 3)).toBig 2 = .ok x ∧
      (∀ digits, (big x digits).toRat = .ok y) ∧ IsNearest 2 (1 / 3) y := by
  have hread : (ratio (1 / 3)).IsReadable := fun s hs => nomatch hs
  obtain ⟨x, y, hx, hy, -, -, -, hnearest⟩ :=
    (@toBig_quotient 2 (ratio (1 / 3)) (1 / 3) (by decide) (.ratio (1 / 3))).1 hread
  exact ⟨hread, by decide, x, y, hx, hy, hnearest (by decide +kernel)⟩

/-- The parts of a row of ones. -/
theorem parts?_ones {k : Nat} (hk : 0 < k) :
    parts? (Text.strip (String.ofList (List.replicate k '1')).toList) =
      some ⟨signed false (Text.natOfDigits (Text.digitValues (List.replicate k '1'))), 1, 0,
        [k, 0]⟩ := by
  have hones : ∀ c ∈ List.replicate k '1', c.isDigit = true := by
    intro c hc
    rw [List.eq_of_mem_replicate hc]
    decide
  have hne : List.replicate k '1' ≠ [] := by
    rw [Ne, List.replicate_eq_nil_iff]
    exact hk.ne'
  have hwhole := parts?_whole false hne hones .absent
  rw [String.toList_ofList, strip_eq_self fun c hc => .inl (hones c hc)]
  rwa [List.append_nil, List.length_replicate] at hwhole

/-- A literal of `4301` ones denotes an integer, but no number of arbitrary precision is made of
it. -/
theorem toBig_ones :
    (∃ q, (literal (String.ofList (List.replicate 4301 '1'))).IsQuotient q) ∧
      ∀ bits, (literal (String.ofList (List.replicate 4301 '1'))).toBig bits =
        .error (.tooManyDigits (some 4301)) := by
  have hparts := parts?_ones (k := 4301) (by decide)
  refine ⟨⟨_, .literal hparts one_ne_zero⟩, fun bits => ?_⟩
  rw [toBig, rational, hparts]
  rfl

end Number

end Elementary
