import Elementary.Proofs.Number.Literal
import Mathlib.Data.List.TakeWhile

/-!
# Decimal notations read back

A decimal notation is written positionally or with an exponent. Both texts are literals, and what
they denote is the value of the notation, whatever its digits are. So the text of a floating-point
number denotes the decimal that is shown, which need not be the number.

## Main definitions

* `Number.Shows`: the exact value that the text of a number shows.
* `Number.IsKept`: the numbers whose texts are read back.

## Main results

* `Decimal.readsAs_positional`, `Decimal.readsAs_scientific`: the two texts of a notation.
* `Number.IsKept.rational_text`: a text is read back as what it shows.
* `Number.Shows.toRat_eq`: what is shown of a number that is no floating-point number is its
  exact value.
-/

namespace Elementary

open Text Literal

/-! ### Texts with a value -/

/-- A text **reads as** a value when it has the parts of a literal that denotes the value. -/
def Literal.ReadsAs (cs : List Char) (q : Rat) : Prop :=
  (∀ c ∈ cs, IsNumberChar c) ∧
    ∃ p, parts? cs = some p ∧ p.denominator ≠ 0 ∧ p.value = q

namespace Literal.ReadsAs

variable {cs : List Char} {s : String} {q : Rat}

/-- A text with room is read as its value. -/
theorem rational_eq (h : ReadsAs s.toList q) (hroom : HasRoom s) : rational s = .ok q := by
  obtain ⟨hchars, p, hp, hden, rfl⟩ := h
  exact rational_eq_value (by rwa [strip_eq_self hchars]) hroom hden

end Literal.ReadsAs

namespace Decimal

variable {d : Decimal} {negative : Bool} {e : Int}

/-- All digits of a notation are decimal. -/
def IsDecimal (d : Decimal) : Prop := ∀ x ∈ d.digits, x < 10

theorem pow10_add (e f : Int) : pow10 (e + f) = pow10 e * pow10 f :=
  zpow_add₀ (by norm_num) e f

theorem pow10_natCast (n : Nat) : pow10 n = ((10 ^ n : Nat) : Rat) := by
  rw [pow10, zpow_natCast]
  norm_num

theorem toRat_eq (d : Decimal) :
    d.toRat = natOfDigits d.digits * pow10 (d.exponent - d.digits.length + 1) := rfl

/-- Digits with so many zeros behind them denote a multiple by a power of ten. -/
theorem natOfDigits_mul_pow10 (ds : List Nat) (k : Nat) (e : Int) :
    (natOfDigits (ds ++ List.replicate k 0) : Rat) * pow10 (e - k) = natOfDigits ds * pow10 e := by
  have hpow : pow10 e = pow10 k * pow10 (e - k) := by
    rw [← pow10_add]
    congr 1
    omega
  rw [natOfDigits_append, natOfDigits_zeros, List.length_replicate, hpow, pow10_natCast]
  push_cast
  ring

theorem cast_signed (negative : Bool) (n : Nat) :
    ((signed negative n : Int) : Rat) = Datum.signed negative n := by
  cases negative <;> simp [signed, Datum.signed]

theorem signed_mul (negative : Bool) (p q : Rat) :
    Datum.signed negative p * q = Datum.signed negative (p * q) := by
  cases negative <;> simp [Datum.signed]

/-- The value of parts without a denominator. -/
theorem value_parts (negative : Bool) (n : Nat) (e : Int) (rows : List Nat) :
    (Parts.mk (signed negative n) 1 e rows).value = Datum.signed negative (n * pow10 e) := by
  rw [Parts.value, cast_signed, Nat.cast_one, div_one, ← pow10, signed_mul]

/-- **A text with a point** reads as the number that its digits denote. -/
theorem readsAs_point {ws fs : List Nat} {es : List Char} {k : Nat} {q : Rat}
    (hws : ∀ x ∈ ws, x < 10) (hfs : ∀ x ∈ fs, x < 10) (hne : ws ≠ [] ∨ fs ≠ [])
    (hes : IsExponent es e k) (hq : natOfDigits (ws ++ fs) * pow10 (e - fs.length) = q) :
    ReadsAs (signMark negative ++ (digitChars ws ++ '.' :: (digitChars fs ++ es)))
      (Datum.signed negative q) := by
  have hws' := fun c (hc : c ∈ digitChars ws) => isDigit_of_mem_digitChars hws hc
  have hfs' := fun c (hc : c ∈ digitChars fs) => isDigit_of_mem_digitChars hfs hc
  refine ⟨fun c hc => ?_, _, parts?_point negative
    (hne.imp (mt List.map_eq_nil_iff.mp) (mt List.map_eq_nil_iff.mp)) hws' hfs' hes,
    one_ne_zero, ?_⟩
  · simp only [List.mem_append, List.mem_cons] at hc
    rcases hc with hc | hc | rfl | hc | hc
    · exact isNumberChar_of_mem_signMark hc
    · exact Or.inl (hws' c hc)
    · exact Or.inr (by decide)
    · exact Or.inl (hfs' c hc)
    · exact hes.isNumberChar hc
  · rw [value_parts, digitValues_append, digitValues_digitChars hws, digitValues_digitChars hfs,
      length_digitChars, hq]

/-- **A text without a point** reads as the number that its digits denote. -/
theorem readsAs_whole {ws : List Nat} {es : List Char} {k : Nat} (hws : ∀ x ∈ ws, x < 10)
    (hne : ws ≠ []) (hes : IsExponent es e k) :
    ReadsAs (signMark negative ++ (digitChars ws ++ es))
      (Datum.signed negative (natOfDigits ws * pow10 e)) := by
  have hws' := fun c (hc : c ∈ digitChars ws) => isDigit_of_mem_digitChars hws hc
  refine ⟨fun c hc => ?_, _, parts?_whole negative (mt List.map_eq_nil_iff.mp hne) hws' hes,
    one_ne_zero, ?_⟩
  · simp only [List.mem_append] at hc
    rcases hc with hc | hc | hc
    · exact isNumberChar_of_mem_signMark hc
    · exact Or.inl (hws' c hc)
    · exact hes.isNumberChar hc
  · rw [value_parts, digitValues_digitChars hws]

/-! ### The two texts of a notation -/

theorem toList_digitText (ds : List Nat) : (digitText ds).toList = digitChars ds :=
  String.toList_ofList

/-- **The positional text** of a notation reads as its value. -/
theorem readsAs_positional (hd : d.IsDecimal) (negative : Bool) :
    ReadsAs (signMark negative ++ d.renderPositional.toList) (Datum.signed negative d.toRat) := by
  have hdecimal : ∀ k, ∀ x ∈ List.replicate k 0, x < 10 := fun k x hx => by
    rw [List.eq_of_mem_replicate hx]
    omega
  rw [renderPositional]
  split
  case isTrue hneg =>
    have hlist : ("0." ++ digitText (List.replicate (d.exponent.natAbs - 1) 0)
        ++ digitText d.digits).toList = digitChars [0] ++
          '.' :: (digitChars (List.replicate (d.exponent.natAbs - 1) 0 ++ d.digits) ++ []) := by
      simp [String.toList_append, toList_digitText, digitChars]
    rw [hlist]
    refine readsAs_point (by simp) (fun x hx => ?_) (Or.inl (by simp)) .absent ?_
    · exact (List.mem_append.mp hx).elim (hdecimal _ x) (hd x)
    · have hzeros : [0] ++ List.replicate (d.exponent.natAbs - 1) 0 =
          List.replicate (d.exponent.natAbs - 1 + 1) 0 := rfl
      rw [toRat_eq, List.length_append, List.length_replicate, ← List.append_assoc, hzeros,
        natOfDigits_append, natOfDigits_zeros, Nat.zero_mul, Nat.zero_add]
      congr 2
      omega
  case isFalse hpos =>
    set split := d.exponent.toNat + 1 with hsplit
    by_cases hlen : d.digits.length ≤ split
    · have hdrop : d.digits.drop split = [] := List.drop_eq_nil_of_le hlen
      have hlist : (digitText (d.digits.take split ++ List.replicate (split - d.digits.length) 0) ++
          "." ++ (if (d.digits.drop split).isEmpty then "0"
            else digitText (d.digits.drop split))).toList =
          digitChars (d.digits ++ List.replicate (split - d.digits.length) 0) ++
            '.' :: (digitChars [0] ++ []) := by
        rw [hdrop, List.take_of_length_le hlen]
        simp [String.toList_append, toList_digitText, digitChars]
      rw [hlist]
      refine readsAs_point (fun x hx => ?_) (by simp) (Or.inr (by simp)) .absent ?_
      · exact (List.mem_append.mp hx).elim (hd x) (hdecimal _ x)
      · have hzeros : d.digits ++ List.replicate (split - d.digits.length) 0 ++ [0] =
            d.digits ++ List.replicate (split - d.digits.length + 1) 0 := by
          rw [List.append_assoc, List.replicate_succ']
        have hexp : (0 : Int) - ([0] : List Nat).length =
            (d.exponent - d.digits.length + 1) - (split - d.digits.length + 1 : Nat) := by
          simp only [List.length_singleton]
          omega
        rw [hzeros, hexp, natOfDigits_mul_pow10, toRat_eq]
    · have hne : d.digits.drop split ≠ [] := by
        rw [Ne, List.drop_eq_nil_iff]
        exact hlen
      have hzero : split - d.digits.length = 0 := by omega
      have hlist : (digitText (d.digits.take split ++ List.replicate (split - d.digits.length) 0) ++
          "." ++ (if (d.digits.drop split).isEmpty then "0"
            else digitText (d.digits.drop split))).toList =
          digitChars (d.digits.take split) ++ '.' :: (digitChars (d.digits.drop split) ++ []) := by
        rw [hzero, List.replicate_zero, List.append_nil,
          if_neg (by simpa using hne)]
        simp [String.toList_append, toList_digitText]
      rw [hlist]
      refine readsAs_point (fun x hx => hd x (List.mem_of_mem_take hx))
        (fun x hx => hd x (List.mem_of_mem_drop hx)) (Or.inr hne) .absent ?_
      rw [List.take_append_drop, toRat_eq, List.length_drop]
      congr 2
      omega

/-- The text of an exponent is an exponent part. -/
theorem isExponent_exponentText (width : Nat) (e : Int) :
    ∃ k, IsExponent (exponentText width e).toList e k := by
  set zeros := List.replicate (width - (toString e.natAbs).length) '0' with hzeros
  set cs := zeros ++ Nat.toDigits 10 e.natAbs with hcs
  have hlist : (exponentText width e).toList =
      'e' :: (if decide (e < 0) then '-' else '+') :: cs := by
    by_cases he : e < 0 <;>
      simp [exponentText, Text.padLeft, he, String.toList_append, hcs, hzeros]
  have hdigits : ∀ c ∈ cs, c.isDigit = true := by
    intro c hc
    rcases List.mem_append.mp hc with hc | hc
    · rw [List.eq_of_mem_replicate hc]
      decide
    · exact isDigit_of_mem_toDigits hc
  have hvalue : natOfDigits (digitValues cs) = e.natAbs := by
    have hvalues : digitValues zeros = List.replicate zeros.length 0 := by
      rw [digitValues, hzeros, List.map_replicate, List.length_replicate]
      rfl
    rw [hcs, digitValues_append, hvalues, natOfDigits_append, natOfDigits_zeros,
      natOfDigits_toDigits, Nat.zero_mul, Nat.zero_add]
  have hne : cs ≠ [] := by simp [hcs, Nat.toDigits_ne_nil]
  have h := IsExponent.present (decide (e < 0)) hne hdigits
  rw [hvalue, signed_natAbs] at h
  exact ⟨cs.length, hlist ▸ h⟩

/-- **The text with an exponent** reads as the value of a notation, when it has a digit in front of
the exponent. -/
theorem readsAs_scientific (hd : d.IsDecimal) (negative : Bool) {pointed : Bool}
    (hpointed : pointed = true ∨ d.digits ≠ []) (width : Nat) :
    ReadsAs (signMark negative ++ (d.renderScientific pointed width).toList)
      (Datum.signed negative d.toRat) := by
  obtain ⟨k, hes⟩ := isExponent_exponentText width d.exponent
  rw [renderScientific]
  by_cases hdrop : d.digits.drop 1 = []
  · have hlen : d.digits.length ≤ 1 := List.drop_eq_nil_iff.mp hdrop
    rw [hdrop, List.take_of_length_le hlen, if_pos List.isEmpty_nil]
    cases pointed with
    | true =>
      have hlist : (digitText d.digits ++ (if true then ".0" else "") ++
          exponentText width d.exponent).toList = digitChars d.digits ++
            '.' :: (digitChars [0] ++ (exponentText width d.exponent).toList) := by
        simp [String.toList_append, toList_digitText, digitChars]
      rw [hlist]
      refine readsAs_point hd (by simp) (Or.inr (by simp)) hes ?_
      have hzeros := natOfDigits_mul_pow10 d.digits 1 d.exponent
      rw [List.length_singleton, ← List.replicate_one, hzeros, toRat_eq]
      cases hdigits : d.digits with
      | nil => simp [natOfDigits]
      | cons x xs =>
        have hone : (x :: xs).length = 1 := by
          rw [hdigits] at hlen
          simp only [List.length_cons] at hlen ⊢
          omega
        rw [hone]
        congr 2
        omega
    | false =>
      have hne : d.digits ≠ [] := hpointed.resolve_left (by decide)
      have hone : d.digits.length = 1 := by
        have := List.length_pos_iff.mpr hne
        omega
      have hlist : (digitText d.digits ++ (if false then ".0" else "") ++
          exponentText width d.exponent).toList =
            digitChars d.digits ++ (exponentText width d.exponent).toList := by
        simp [String.toList_append, toList_digitText]
      have hexp : d.exponent - d.digits.length + 1 = d.exponent := by omega
      rw [hlist, toRat_eq, hexp]
      exact readsAs_whole hd hne hes
  · have hlist : (digitText (d.digits.take 1) ++ ("." ++ digitText (d.digits.drop 1)) ++
        exponentText width d.exponent).toList = digitChars (d.digits.take 1) ++
          '.' :: (digitChars (d.digits.drop 1) ++ (exponentText width d.exponent).toList) := by
      simp [String.toList_append, toList_digitText]
    rw [if_neg (by simpa using hdrop), hlist]
    refine readsAs_point (fun x hx => hd x (List.mem_of_mem_take hx))
      (fun x hx => hd x (List.mem_of_mem_drop hx)) (Or.inr hdrop) hes ?_
    have hlen : 1 < d.digits.length := by
      rw [List.drop_eq_nil_iff] at hdrop
      omega
    rw [List.take_append_drop, toRat_eq, List.length_drop]
    congr 2
    omega

/-! ### The digits of a notation -/

theorem digitsOf_eq (n : Nat) : digitsOf n = digitValues (Nat.toDigits 10 n) := rfl

theorem isDecimal_ofScaled (n : Nat) (scale : Int) : (ofScaled n scale).IsDecimal := by
  intro x hx
  obtain ⟨c, hc, rfl⟩ := List.mem_map.mp hx
  have hrange : 48 ≤ c.toNat ∧ c.toNat ≤ 57 :=
    Char.isDigit_iff_toNat.mp (isDigit_of_mem_toDigits hc)
  have hzero : '0'.toNat = 48 := rfl
  omega

theorem IsDecimal.stripZeros (hd : d.IsDecimal) : d.stripZeros.IsDecimal := by
  intro x hx
  exact hd x (List.mem_reverse.mp (List.dropWhile_subset _ (List.mem_reverse.mp hx)))

theorem isDecimal_ofRat (count : Nat) (q : Rat) : (ofRat count q).IsDecimal := fun x hx =>
  isDecimal_ofScaled _ _ x (List.mem_of_mem_take hx)

/-- What is left of digits without the zeros at their end is nothing only if they denote zero. -/
theorem stripZeros_digits_ne_nil (h : natOfDigits d.digits ≠ 0) : d.stripZeros.digits ≠ [] := by
  intro hnil
  have hdrop : d.digits.reverse.dropWhile (· == 0) = [] := List.reverse_eq_nil_iff.mp hnil
  have hzeros : d.digits = List.replicate d.digits.length 0 := by
    rw [List.dropWhile_eq_nil_iff] at hdrop
    exact List.eq_replicate_iff.mpr
      ⟨rfl, fun x hx => by simpa using hdrop x (List.mem_reverse.mpr hx)⟩
  rw [hzeros, natOfDigits_zeros] at h
  exact h rfl

theorem ofScaled_stripZeros_ne_nil {n : Nat} (hn : n ≠ 0) (scale : Int) :
    (ofScaled n scale).stripZeros.digits ≠ [] :=
  stripZeros_digits_ne_nil (by rwa [ofScaled, digitsOf_eq, natOfDigits_toDigits])

/-- **The search on the grids** ends with a point of a grid that is not zero. -/
theorem searchGrids_eq (interval : Rat × Rat × Bool) (q : Rat) (e : Int) (fuel count : Nat) :
    ∃ n scale, n ≠ 0 ∧ searchGrids interval q e fuel count = ofScaled n scale := by
  induction fuel generalizing count with
  | zero => exact ⟨_, _, Nat.succ_ne_zero _, rfl⟩
  | succ fuel ih =>
    rw [searchGrids]
    split
    · next h =>
      refine ⟨_, _, ?_, rfl⟩
      intro hzero
      simp [hzero] at h
    · split
      · exact ⟨_, _, Nat.succ_ne_zero _, rfl⟩
      · exact ih (count + 1)

theorem shortest_spec (fmt : Format) (q : Rat) :
    (shortest fmt q).IsDecimal ∧ (shortest fmt q).digits ≠ [] := by
  obtain ⟨n, scale, hn, hgrid⟩ := searchGrids_eq (roundingInterval fmt q) q (floorLog10 q) 20 1
  rw [shortest, hgrid]
  exact ⟨(isDecimal_ofScaled n scale).stripZeros, ofScaled_stripZeros_ne_nil hn scale⟩

end Decimal

/-! ### Floating-point numbers -/

theorem toList_signText (negative : Bool) :
    (if negative then "-" else "").toList = signMark negative := by
  cases negative <;> rfl

/-- The text of zero. -/
theorem readsAs_zero (negative : Bool) :
    ReadsAs (signMark negative ++ "0.0".toList) (Datum.signed negative 0) := by
  have hlist : "0.0".toList = digitChars [0] ++ '.' :: (digitChars [0] ++ []) := rfl
  rw [hlist]
  exact Decimal.readsAs_point (by simp) (by simp) (by simp) .absent (by simp [natOfDigits])

namespace Format

/-- The **value that the shortest text shows** of a number given by its magnitude. -/
def shortestValue (fmt : Format) (q : Rat) : Rat :=
  if q = 0 then 0 else (Decimal.shortest fmt q).toRat

/-- **The shortest text** of a number reads as what it shows. -/
theorem readsAs_shortestText (fmt : Format) (negative : Bool) (q : Rat) :
    ReadsAs (fmt.shortestText negative q).toList (Datum.signed negative (fmt.shortestValue q)) := by
  rw [shortestText, shortestValue]
  split
  · rw [String.toList_append, toList_signText]
    exact readsAs_zero negative
  · obtain ⟨hdecimal, hne⟩ := Decimal.shortest_spec fmt q
    rw [String.toList_append, toList_signText]
    split
    · exact Decimal.readsAs_positional hdecimal negative
    · exact Decimal.readsAs_scientific hdecimal negative (Or.inr hne) 2

end Format

namespace BigFloat

/-- The **value that the text shows** of a number with so many significant digits. -/
def shownValue (digits : Nat) (q : Rat) : Rat :=
  if q = 0 then 0
  else Datum.signed (decide (q < 0)) (Decimal.ofRat digits |q|).stripZeros.toRat

theorem readsAs_positiveText (digits : Nat) (negative : Bool) (q : Rat) :
    ReadsAs (signMark negative ++ (positiveText digits q).toList)
      (Datum.signed negative (Decimal.ofRat digits q).stripZeros.toRat) := by
  have hdecimal := (Decimal.isDecimal_ofRat digits q).stripZeros
  rw [positiveText]
  split
  · exact Decimal.readsAs_positional hdecimal negative
  · exact Decimal.readsAs_scientific hdecimal negative (Or.inl rfl) 1

/-- **The text** of a finite number reads as what it shows. -/
theorem readsAs_text (digits : Nat) (x : Dyadic) :
    ReadsAs ((finite x).text digits).toList (shownValue digits x.toRat) := by
  rw [text, shownValue]
  split
  · exact readsAs_zero false
  · split
    · next hneg =>
      rw [decide_eq_true hneg, abs_of_neg hneg, String.toList_append]
      exact readsAs_positiveText digits true (-x.toRat)
    · next hpos =>
      rw [decide_eq_false hpos, abs_of_nonneg (not_lt.mp hpos)]
      exact readsAs_positiveText digits false x.toRat

end BigFloat

/-! ### Written numbers -/

namespace Number

variable {c : Number} {q : Rat}

/-- A number that is **written exactly**: no floating-point number. -/
def IsExact : Number → Prop
  | integer _ | literal _ | ratio _ => True
  | _ => False

/-- The text of a number **shows** a value: the number itself, or of a floating-point number the
decimal of the digits that are shown. -/
def Shows : Number → Rat → Prop
  | double (.finite negative m), q =>
    q = Datum.signed negative (Precision.double.format.shortestValue m)
  | single (.finite negative m), q =>
    q = Datum.signed negative (Precision.single.format.shortestValue m)
  | big (.finite x) digits, q => q = BigFloat.shownValue digits x.toRat
  | integer n, q => q = n
  | ratio r, q => q = r
  | literal s, q => Literal.rational s = .ok q
  | _, _ => False

/-- A number is **kept** when its text can be read back: it is finite, no truth value, and its text
has no row of digits that is too long. -/
structure IsKept (c : Number) : Prop where
  finite : ∃ q, c.toRat = .ok q
  not_truth : ∀ b, c ≠ .truth b
  room : HasRoom c.text

/-- What is shown of a number that is written exactly is the number. -/
theorem Shows.toRat_eq (h : c.Shows q) (hexact : c.IsExact) : c.toRat = .ok q := by
  cases c with
  | integer n =>
    obtain rfl : q = n := h
    rfl
  | ratio r =>
    obtain rfl : q = r := h
    rfl
  | literal s => exact h
  | absent | truth _ | double _ | single _ | big _ _ | sequence => exact hexact.elim

/-- An integer whose text has room can be shown. -/
theorem isShowable_of_hasRoom {r : Rat} (h : HasRoom (ratText r)) : isShowable r = true := by
  obtain ⟨p, hp, -, -, hroom⟩ := parts?_ratText r
  exact hroom.mp (h p hp)

theorem ratText_intCast (n : Int) : ratText n = toString n := by
  rw [ratText, Rat.den_intCast, if_pos rfl, Rat.num_intCast]

/-- **A number that is kept** can be shown, and its text is read back as what it shows. -/
theorem IsKept.rational_text (h : c.IsKept) :
    c.shown = .ok c.text ∧ ∃ q, Literal.rational c.text = .ok q ∧ c.Shows q := by
  obtain ⟨⟨r, hr⟩, htruth, hroom⟩ := h
  cases c with
  | absent | sequence => cases hr
  | truth b => exact absurd rfl (htruth b)
  | integer n =>
    have hroom' : HasRoom (ratText n) := by rwa [ratText_intCast]
    have hn := isShowable_of_hasRoom hroom'
    refine ⟨?_, n, ?_, rfl⟩
    · rw [shown, shownRat, if_pos hn, ratText_intCast]
      rfl
    · rw [text, ← ratText_intCast]
      exact rational_ratText hn
  | literal s => exact ⟨rfl, r, hr, hr⟩
  | ratio q =>
    have hq := isShowable_of_hasRoom hroom
    exact ⟨by rw [shown, shownRat, if_pos hq]; rfl, q, rational_ratText hq, rfl⟩
  | double x =>
    cases x with
    | nan | infinite negative => cases hr
    | finite negative m =>
      exact ⟨rfl, _, (Format.readsAs_shortestText _ negative m).rational_eq hroom, rfl⟩
  | single x =>
    cases x with
    | nan | infinite negative => cases hr
    | finite negative m =>
      exact ⟨rfl, _, (Format.readsAs_shortestText _ negative m).rational_eq hroom, rfl⟩
  | big x digits =>
    cases x with
    | nan | infinite negative => cases hr
    | finite x => exact ⟨rfl, _, (BigFloat.readsAs_text digits x).rational_eq hroom, rfl⟩

end Number

end Elementary
