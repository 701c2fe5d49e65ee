import Elementary.C.Lowering
import Elementary.Proofs.C.Token
import Elementary.Proofs.Format.Datum
import Elementary.Proofs.Text.Hexadecimal

/-!
# Numerals in C

The constants of generated code are hexadecimal numerals: whole numbers, which hold a coding, and
numbers with a point and the power of two that scales them, which hold the exact value of a number
of double precision. Such a numeral is one token, and what it stands for follows from its digits:
a digit behind the point counts for four binary places.

## Main definitions

* `hexInteger?`, `hexFloat?`: the numbers that hexadecimal numerals stand for.

## Main results

* `hexInteger?_coding`: the literal of a coding stands for the coding.
* `hexFloat?_hexText`: the hexadecimal text of a number of double precision stands for that number.
* `hexFloat?_of_decode?`: the literal of a constant stands for the magnitude of the constant.
-/

namespace Elementary.C

open Text (isHexDigit)

variable {cs ds fs : List Char} {n : Nat}

/-! ### What numerals stand for -/

/-- The number of a row of decimal digits. -/
def decimal? (cs : List Char) : Option Nat :=
  if cs.all Char.isDigit && !cs.isEmpty then some (Nat.ofDigitChars 10 cs 0) else none

/-- The number of decimal digits with a sign. -/
def exponent? : List Char → Option Int
  | '+' :: cs => (decimal? cs).map Int.ofNat
  | '-' :: cs => (decimal? cs).map fun n : Nat => -(n : Int)
  | cs => (decimal? cs).map Int.ofNat

/-- The whole number that a **hexadecimal numeral** stands for, whatever letters follow its digits
to tell its type. -/
def hexInteger? (s : String) : Option Nat :=
  match s.toList with
  | '0' :: 'x' :: cs =>
    if (cs.dropWhile isHexDigit).all ['u', 'l'].contains then
      some (Datum.hexDigits (cs.takeWhile isHexDigit))
    else none
  | _ => none

/-- The number of the digits around a point and of what follows them: the letter of the exponent,
and the exponent of two. A digit behind the point counts for four binary places. -/
def scaled? (whole : List Char) (cs : List Char) : Option Rat :=
  let fraction := cs.takeWhile isHexDigit
  match cs.dropWhile isHexDigit with
  | 'p' :: cs =>
    (exponent? cs).map fun e =>
      Datum.hexDigits (whole ++ fraction) * pow2 (e - 4 * fraction.length)
  | _ => none

/-- The number that a **hexadecimal numeral with a point** stands for. -/
def hexFloat? (s : String) : Option Rat :=
  match s.toList with
  | '0' :: 'x' :: cs =>
    match cs.dropWhile isHexDigit with
    | '.' :: rest => scaled? (cs.takeWhile isHexDigit) rest
    | _ => none
  | _ => none

/-! ### Reading digits -/

theorem takeWhile_digits (hds : ∀ c ∈ ds, isHexDigit c = true)
    (hcs : ∀ c ∈ cs.head?, isHexDigit c = false) : (ds ++ cs).takeWhile isHexDigit = ds := by
  rw [List.takeWhile_append_of_pos hds]
  cases cs with
  | nil => simp
  | cons c cs => rw [List.takeWhile_cons_of_neg (by simp [hcs c rfl]), List.append_nil]

theorem dropWhile_digits (hds : ∀ c ∈ ds, isHexDigit c = true)
    (hcs : ∀ c ∈ cs.head?, isHexDigit c = false) : (ds ++ cs).dropWhile isHexDigit = cs := by
  rw [List.dropWhile_append_of_pos hds]
  cases cs with
  | nil => rfl
  | cons c cs => rw [List.dropWhile_cons_of_neg (by simp [hcs c rfl])]

/-- The digits in front of a point, and what is read behind it. -/
theorem hexFloat?_of_toList {s : String} (hs : s.toList = '0' :: 'x' :: (ds ++ '.' :: cs))
    (hds : ∀ c ∈ ds, isHexDigit c = true) : hexFloat? s = scaled? ds cs := by
  have hpoint : ∀ c ∈ ('.' :: cs).head?, isHexDigit c = false := by
    rintro c ⟨⟩
    rfl
  simp [hexFloat?, hs, dropWhile_digits hds hpoint, takeWhile_digits hds hpoint]

/-- The digits behind a point, and the exponent. -/
theorem scaled?_eq (whole : List Char) (hds : ∀ c ∈ ds, isHexDigit c = true) :
    scaled? whole (ds ++ 'p' :: cs) =
      (exponent? cs).map fun e => Datum.hexDigits (whole ++ ds) * pow2 (e - 4 * ds.length) := by
  have hletter : ∀ c ∈ ('p' :: cs).head?, isHexDigit c = false := by
    rintro c ⟨⟩
    rfl
  simp [scaled?, dropWhile_digits hds hletter, takeWhile_digits hds hletter]

/-- **The literal of a coding** stands for the coding. -/
theorem hexInteger?_coding (p : Precision) (n : Nat) :
    hexInteger? ("0x" ++ Text.hex n ++ codingSuffix p) = some n := by
  have hdigits : ∀ c ∈ (Text.hex n).toList, isHexDigit c = true := fun c hc =>
    Text.isHexDigit_of_mem_hex hc
  have hend : ∀ c ∈ (codingSuffix p).toList.head?, isHexDigit c = false := by
    cases p <;> rintro c ⟨⟩ <;> rfl
  have hsuffix : (codingSuffix p).toList.all ['u', 'l'].contains = true := by
    cases p <;> decide
  have hlist : ("0x" ++ Text.hex n ++ codingSuffix p).toList =
      '0' :: 'x' :: ((Text.hex n).toList ++ (codingSuffix p).toList) := by
    simp [String.toList_append]
  simp [hexInteger?, hlist, dropWhile_digits hdigits hend, takeWhile_digits hdigits hend,
    hsuffix, Text.hexDigits_hex]

theorem decimal?_toString (n : Nat) : decimal? (toString n).toList = some n := by
  have hlist : (toString n).toList = Nat.toDigits 10 n := by
    rw [Nat.toString_eq_ofList_toDigits, String.toList_ofList]
  have hdigits : (Nat.toDigits 10 n).all Char.isDigit = true :=
    List.all_eq_true.mpr fun c hc => Nat.isDigit_of_mem_toDigits (by omega) (by omega) hc
  have hne : (Nat.toDigits 10 n).isEmpty = false := by
    rw [List.isEmpty_eq_false_iff]
    exact Nat.toDigits_ne_nil
  rw [hlist, decimal?, hdigits, hne, Nat.ofDigitChars_ten_toDigits]
  rfl

/-- A sign and decimal digits stand for the number that they are written for. -/
theorem exponent?_signed (e : Int) :
    exponent? ((if e < 0 then "-" else "+") ++ toString e.natAbs).toList = some e := by
  by_cases he : e < 0
  · have hlist : ("-" ++ toString e.natAbs).toList = '-' :: (toString e.natAbs).toList :=
      String.toList_append
    have hneg : -(e.natAbs : Int) = e := by omega
    rw [if_pos he, hlist, exponent?, decimal?_toString, Option.map_some, hneg]
  · have hlist : ("+" ++ toString e.natAbs).toList = '+' :: (toString e.natAbs).toList :=
      String.toList_append
    have hnonneg : Int.ofNat e.natAbs = e := by
      rw [Int.ofNat_eq_natCast]
      omega
    rw [if_neg he, hlist, exponent?, decimal?_toString, Option.map_some, hnonneg]

/-! ### The text of numbers of double precision -/

/-- The digits of a significand before and behind the point. -/
theorem toList_hexSignificand (n : Nat) (e : Int) :
    (Datum.hexSignificand n e).toList =
      '0' :: 'x' :: ((toString (n / 2 ^ 52)).toList ++ '.' ::
        ((Text.padLeft 13 '0' (Text.hex (n % 2 ^ 52))).toList ++ 'p' ::
          ((if e < 0 then "-" else "+") ++ toString e.natAbs).toList)) := by
  rw [Datum.hexSignificand]
  simp [String.toList_append]

/-- A fraction is written with thirteen digits. -/
theorem fraction_digits (n : Nat) :
    ∃ ds, (Text.padLeft 13 '0' (Text.hex (n % 2 ^ 52))).toList = ds ∧ ds.length = 13 ∧
      Datum.hexDigits ds = n % 2 ^ 52 ∧ ∀ c ∈ ds, isHexDigit c = true := by
  have hlength : (Text.hex (n % 2 ^ 52)).length ≤ 13 :=
    Text.length_hex_le (by omega) (by omega)
  refine ⟨_, rfl, ?_, ?_, fun c hc => ?_⟩
  · rw [Text.padLeft, String.toList_append, String.toList_ofList, List.length_append,
      List.length_replicate, String.length_toList]
    omega
  · rw [Text.padLeft, String.toList_append, String.toList_ofList,
      Text.hexDigits_replicate_append, Text.hexDigits_hex]
  · rw [Text.padLeft, String.toList_append, String.toList_ofList, List.mem_append] at hc
    rcases hc with hc | hc
    · rw [List.eq_of_mem_replicate hc]
      rfl
    · exact Text.isHexDigit_of_mem_hex hc

/-- The digit before the point of a significand of 53 bits. -/
theorem whole_digit (hn : n < 2 ^ 53) :
    ∃ c, (toString (n / 2 ^ 52)).toList = [c] ∧ isHexDigit c = true ∧
      Datum.hexDigits [c] = n / 2 ^ 52 := by
  have hsmall : n / 2 ^ 52 < 2 := by omega
  have hcases : ∀ d < 2, ∃ c, (toString d).toList = [c] ∧ isHexDigit c = true ∧
      Datum.hexDigits [c] = d := by
    intro d hd
    interval_cases d
    · exact ⟨'0', rfl, rfl, rfl⟩
    · exact ⟨'1', rfl, rfl, rfl⟩
  exact hcases _ hsmall

/-- A **significand of 53 bits** stands for itself, scaled by the exponent. -/
theorem hexFloat?_hexSignificand (hn : n < 2 ^ 53) (e : Int) :
    hexFloat? (Datum.hexSignificand n e) = some (n * pow2 (e - 52)) := by
  obtain ⟨c, hc, hcdigit, hcvalue⟩ := whole_digit hn
  obtain ⟨ds, hds, hlength, hvalue, hdigits⟩ := fraction_digits n
  have hwhole : ∀ d ∈ [c], isHexDigit d = true := by
    simpa using hcdigit
  have hjoined : Datum.hexDigits ([c] ++ ds) = n := by
    rw [Text.hexDigits_append, hcvalue, hvalue, hlength]
    omega
  have hlist := toList_hexSignificand n e
  rw [hc, hds] at hlist
  rw [hexFloat?_of_toList hlist hwhole, scaled?_eq [c] hdigits, exponent?_signed, Option.map_some,
    hjoined, hlength]
  norm_num

/-- A nonnegative **number of double precision** is what its hexadecimal text stands for. -/
theorem hexFloat?_hexText {q : Rat} (h : (Datum.finite false q).IsMember Precision.double.format) :
    hexFloat? (Datum.finite false q).hexText = some q := by
  obtain ⟨E, m, -, hm, rfl⟩ := Datum.isMember_finite_iff.mp h
  set fmt := Precision.double.format with hfmt
  by_cases hzero : fmt.magnitude E m = 0
  · have hvalue : hexFloat? "0x0.0p+0" = some ((0 : Nat) * pow2 (0 - 4 * (1 : Nat))) := rfl
    rw [Datum.hexText, hzero, if_pos rfl]
    simpa using hvalue
  · -- the significand is a count of the unit of the number, with at most 53 bits
    have hsize : fmt.significand E m < 2 ^ 53 := by
      have hm : m < 2 ^ 52 := hm
      have hfield : fmt.fieldSize = 52 := rfl
      rw [Format.significand, hfield]
      split <;> omega
    have hunit : max (floorLog2 (fmt.magnitude E m)) fmt.minNormalExponent - fmt.fieldSize =
        fmt.unitExponent E := by
      have hquantum := Format.quantumExponent_magnitude hm hzero
      rwa [Format.quantumExponent] at hquantum
    have hcount : fmt.magnitude E m / pow2 (fmt.unitExponent E) = (fmt.significand E m : Rat) := by
      rw [Format.magnitude_eq, mul_div_cancel_right₀ _ (pow2_ne_zero _)]
    have htext : (Datum.finite false (fmt.magnitude E m)).hexText =
        Datum.hexSignificand (fmt.significand E m)
          (max (floorLog2 (fmt.magnitude E m)) fmt.minNormalExponent) := by
      rw [Datum.hexText, if_neg hzero, ← hfmt]
      dsimp only
      rw [hunit, hcount]
      simp
    rw [htext, hexFloat?_hexSignificand hsize]
    have hexponent : max (floorLog2 (fmt.magnitude E m)) fmt.minNormalExponent - 52 =
        fmt.unitExponent E := hunit
    rw [hexponent, ← Format.magnitude_eq]

/-- **The literal of a constant** stands for the magnitude of the constant. -/
theorem hexFloat?_of_decode? {p : Precision} {c : Int} {v : Rat}
    (h : p.format.decode? c = some v) :
    hexFloat? (Datum.ofRat Precision.double.format false v.abs).hexText = some v.abs := by
  have hmember := Datum.isMember_double (Datum.isMember_of_decode? h)
  rw [Datum.ofRat_abs_of_decode? h, hexFloat?_hexText hmember]

/-! ### Numerals are tokens -/

/-- The characters of hexadecimal text continue a number. -/
theorem continues_of_mem_hex {c : Char} (hc : c ∈ (Text.hex n).toList) :
    (Token.isWordChar c || c == '.') = true := by
  have hdigit : ∀ d < 16,
      (Token.isWordChar (Text.hexDigit d) || Text.hexDigit d == '.') = true := by
    decide
  obtain ⟨d, hd, rfl⟩ := Text.exists_of_mem_hex hc
  exact hdigit d hd

/-- The characters of decimal text continue a number. -/
theorem continues_of_mem_toString {c : Char} (hc : c ∈ (toString n).toList) :
    (Token.isWordChar c || c == '.') = true := by
  rw [Nat.toString_eq_ofList_toDigits, String.toList_ofList] at hc
  have hdigit : c.isDigit = true := Nat.isDigit_of_mem_toDigits (by omega) (by omega) hc
  rw [Token.isWordChar, Char.isAlphanum, hdigit, Bool.or_true]
  rfl

/-- **The literal of a coding** is one token. -/
theorem spells_coding (p : Precision) (n : Nat) :
    Token.Spells ("0x" ++ Text.hex n ++ codingSuffix p)
      (.number ("0x" ++ Text.hex n ++ codingSuffix p)) := by
  have hsuffix : ∀ c ∈ (codingSuffix p).toList, (Token.isWordChar c || c == '.') = true :=
    List.all_eq_true.mp (by cases p <;> rfl)
  have hlist : ("0x" ++ Text.hex n ++ codingSuffix p).toList =
      '0' :: 'x' :: (Text.hex n ++ codingSuffix p).toList := by
    simp [String.toList_append]
  refine Token.spells_number hlist rfl ?_
  intro c hc
  rw [String.toList_append, List.mem_cons, List.mem_append] at hc
  rcases hc with rfl | hc | hc
  · rfl
  · exact continues_of_mem_hex hc
  · exact hsuffix c hc

/-- **The text of a number of double precision** is one token. -/
theorem spells_hexSignificand (n : Nat) (e : Int) :
    Token.Spells (Datum.hexSignificand n e) (.number (Datum.hexSignificand n e)) := by
  obtain ⟨sign, hsign, hlist⟩ : ∃ sign, (sign = '+' ∨ sign = '-') ∧
      ((if e < 0 then "-" else "+") ++ toString e.natAbs).toList =
        sign :: (toString e.natAbs).toList := by
    rw [String.toList_append]
    by_cases he : e < 0
    · exact ⟨'-', .inr rfl, by rw [if_pos he]; rfl⟩
    · exact ⟨'+', .inl rfl, by rw [if_neg he]; rfl⟩
  have hwhole : (Datum.hexSignificand n e).toList =
      '0' :: ('x' :: ((toString (n / 2 ^ 52)).toList ++ '.' ::
        (Text.padLeft 13 '0' (Text.hex (n % 2 ^ 52))).toList) ++ 'p' :: sign ::
          (toString e.natAbs).toList) := by
    rw [toList_hexSignificand, hlist]
    simp
  refine Token.spells_number_exponent hwhole rfl ?_ hsign fun c hc => continues_of_mem_toString hc
  intro c hc
  rw [Text.padLeft, String.toList_append, String.toList_ofList] at hc
  simp only [List.mem_cons, List.mem_append] at hc
  rcases hc with rfl | hc | rfl | hc | hc
  · rfl
  · exact continues_of_mem_toString hc
  · rfl
  · rw [List.eq_of_mem_replicate hc]
    rfl
  · exact continues_of_mem_hex hc

/-- The text of a nonnegative number of double precision is zero or a significand. -/
theorem hexText_finite_false (q : Rat) :
    (Datum.finite false q).hexText = "0x0.0p+0" ∨
      ∃ n e, (Datum.finite false q).hexText = Datum.hexSignificand n e := by
  rw [Datum.hexText, if_neg Bool.false_ne_true, String.empty_append]
  by_cases hq : q = 0
  · exact .inl (if_pos hq)
  · exact .inr ⟨_, _, if_neg hq⟩

/-- **The literal of a constant** is one token. -/
theorem spells_hexText (q : Rat) :
    Token.Spells (Datum.finite false q).hexText (.number (Datum.finite false q).hexText) := by
  have hlist : "0x0.0p+0".toList = '0' :: (['x', '0', '.', '0'] ++ 'p' :: '+' :: ['0']) := rfl
  have hzero : Token.Spells "0x0.0p+0" (.number "0x0.0p+0") :=
    Token.spells_number_exponent hlist rfl (List.all_eq_true.mp rfl) (.inl rfl)
      (List.all_eq_true.mp rfl)
  rcases hexText_finite_false q with h | ⟨n, e, h⟩
  · rwa [h]
  · rw [h]
    exact spells_hexSignificand n e

/-- The literal of a constant begins with its base mark. -/
theorem begins_hexText (q : Rat) : ∃ cs, (Datum.finite false q).hexText.toList = '0' :: cs := by
  rcases hexText_finite_false q with h | ⟨n, e, h⟩
  · exact ⟨_, by rw [h]; rfl⟩
  · exact ⟨_, by rw [h, toList_hexSignificand]⟩

end Elementary.C
