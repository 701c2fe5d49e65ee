import Elementary.Number.Basic
import Mathlib.Data.List.Induction
import Mathlib.Tactic.Linarith
import Mathlib.Tactic.Ring

/-!
# Texts of numbers read back

An integer, a quotient and a number in decimal notation are written with rows of digits. A row is
read up to the character that ends it, and denotes the number that it is written for. So the text
of a number is a literal of that number, as long as no row is too long to be read.

## Main definitions

* `Literal.EndsRow`: what follows a row of digits.
* `Literal.Parts.value`: the rational that the parts of a literal denote.
* `Literal.HasRoom`: the texts without a row of digits that is too long.

## Main results

* `Literal.digitRun_append`: a row is read up to its end.
* `Literal.integer_toString`: the text of an integer denotes the integer.
* `Literal.rational_ratText`: the text of a rational denotes the rational.
-/

namespace Elementary

variable {c : Char} {cs rest : List Char}

/-! ### Rows of digits -/

namespace Text

/-- The values of a row of digits. -/
def digitValues (cs : List Char) : List Nat := cs.map fun c => c.toNat - '0'.toNat

@[simp] theorem length_digitValues (cs : List Char) : (digitValues cs).length = cs.length :=
  List.length_map _

@[simp] theorem digitValues_append (cs ds : List Char) :
    digitValues (cs ++ ds) = digitValues cs ++ digitValues ds := List.map_append

theorem natOfDigits_concat (ds : List Nat) (d : Nat) :
    natOfDigits (ds ++ [d]) = 10 * natOfDigits ds + d := by
  simp [natOfDigits]

/-- Digits next to each other denote the sum of what they denote in their places. -/
theorem natOfDigits_append (ds es : List Nat) :
    natOfDigits (ds ++ es) = natOfDigits ds * 10 ^ es.length + natOfDigits es := by
  induction es using List.reverseRecOn with
  | nil => simp [natOfDigits]
  | append_singleton es e ih =>
    rw [← List.append_assoc, natOfDigits_concat, ih, natOfDigits_concat, List.length_append,
      List.length_singleton, Nat.pow_succ]
    ring

theorem natOfDigits_zeros (k : Nat) : natOfDigits (List.replicate k 0) = 0 := by
  induction k with
  | zero => rfl
  | succ k ih => rw [List.replicate_succ', natOfDigits_concat, ih]

/-- The digits of a number denote the number. -/
theorem natOfDigits_toDigits (n : Nat) : natOfDigits (digitValues (Nat.toDigits 10 n)) = n := by
  have hfold : natOfDigits (digitValues (Nat.toDigits 10 n)) =
      Nat.ofDigitChars 10 (Nat.toDigits 10 n) 0 := by
    rw [natOfDigits, digitValues, List.foldl_map]
    rfl
  rw [hfold, Nat.ofDigitChars_ten_toDigits]

theorem isDigit_of_mem_toDigits {n : Nat} (hc : c ∈ Nat.toDigits 10 n) : c.isDigit = true :=
  Nat.isDigit_of_mem_toDigits (by omega) (by omega) hc

/-- The characters of a row of digit values. -/
def digitChars (ds : List Nat) : List Char := ds.map fun d => Char.ofNat (48 + d)

@[simp] theorem length_digitChars (ds : List Nat) : (digitChars ds).length = ds.length :=
  List.length_map _

theorem digitChar_spec : ∀ d < 10, (Char.ofNat (48 + d)).isDigit = true ∧
    (Char.ofNat (48 + d)).toNat - '0'.toNat = d := by
  decide

theorem isDigit_of_mem_digitChars {ds : List Nat} (hds : ∀ d ∈ ds, d < 10)
    (hc : c ∈ digitChars ds) : c.isDigit = true := by
  obtain ⟨d, hd, rfl⟩ := List.mem_map.mp hc
  exact (digitChar_spec d (hds d hd)).1

theorem digitValues_digitChars {ds : List Nat} (hds : ∀ d ∈ ds, d < 10) :
    digitValues (digitChars ds) = ds := by
  rw [digitValues, digitChars, List.map_map]
  exact (List.map_congr_left fun d hd => (digitChar_spec d (hds d hd)).2).trans (List.map_id ds)

/-- An integer can be shown when it has no more digits than the limit. -/
theorem isShowable_iff {n : Nat} :
    isShowable n = true ↔ (Nat.toDigits 10 n).length ≤ digitLimit := by
  rw [Nat.length_toDigits_le_iff (by omega) (by decide), isShowable, decide_eq_true_eq, Nat.pow_eq]

/-- A text without characters of a kind keeps its ends. -/
theorem trim_eq_self {kind : Char → Bool} (h : ∀ c ∈ cs, kind c = false) : trim kind cs = cs := by
  have hdrop : ∀ ds : List Char, (∀ c ∈ ds, kind c = false) → ds.dropWhile kind = ds := by
    rintro (_ | ⟨d, ds⟩) hds
    · rfl
    · rw [List.dropWhile_cons, hds d List.mem_cons_self]
      rfl
  rw [trim, hdrop cs h, hdrop cs.reverse fun c hc => h c (List.mem_reverse.mp hc),
    List.reverse_reverse]

end Text

namespace Literal

open Text

/-- What follows a row of digits: nothing, or a character that does not continue it. -/
def EndsRow (rest : List Char) : Prop := ∀ c ∈ rest.head?, digitValue? c = none ∧ c ≠ '_'

theorem EndsRow.nil : EndsRow [] := by
  rintro c ⟨⟩

theorem EndsRow.cons (hc : digitValue? c = none) (hne : c ≠ '_') (rest : List Char) :
    EndsRow (c :: rest) := by
  rintro d hd
  obtain rfl : c = d := by simpa using hd
  exact ⟨hc, hne⟩

theorem EndsRow.slash (rest : List Char) : EndsRow ('/' :: rest) :=
  .cons (by decide) (by decide) rest

theorem EndsRow.point (rest : List Char) : EndsRow ('.' :: rest) :=
  .cons (by decide) (by decide) rest

theorem EndsRow.mark (rest : List Char) : EndsRow ('e' :: rest) :=
  .cons (by decide) (by decide) rest

theorem digitValue?_of_isDigit (hc : c.isDigit = true) :
    digitValue? c = some (c.toNat - '0'.toNat) := by
  rw [digitValue?, if_pos hc]

/-- A digit is read, and the row goes on behind it. -/
theorem digitTail_cons (hc : c.isDigit = true) (cs : List Char) :
    digitTail (c :: cs) = ((c.toNat - '0'.toNat) :: (digitTail cs).1, (digitTail cs).2) := by
  rw [digitTail.eq_def]
  simp only [digitValue?_of_isDigit hc]

/-- A row is over in front of what ends it. -/
theorem digitTail_end (hrest : EndsRow rest) : digitTail rest = ([], rest) := by
  cases rest with
  | nil => rfl
  | cons c rest =>
    obtain ⟨hnone, hne⟩ := hrest c rfl
    rw [digitTail.eq_def]
    simp only [hnone, if_neg hne]

theorem digitTail_append (hcs : ∀ c ∈ cs, c.isDigit = true) (hrest : EndsRow rest) :
    digitTail (cs ++ rest) = (digitValues cs, rest) := by
  induction cs with
  | nil => exact digitTail_end hrest
  | cons c cs ih =>
    rw [List.cons_append, digitTail_cons (hcs c List.mem_cons_self),
      ih fun d hd => hcs d (List.mem_cons_of_mem c hd)]
    rfl

/-- **A row of digits** is read up to its end. -/
theorem digitRun_append (hcs : ∀ c ∈ cs, c.isDigit = true) (hrest : EndsRow rest) :
    digitRun (cs ++ rest) = (digitValues cs, rest) := by
  cases cs with
  | nil =>
    cases rest with
    | nil => rfl
    | cons c rest =>
      have hnone : Text.isDigit c = false := by simp [Text.isDigit, (hrest c rfl).1]
      simp [digitRun, hnone, digitValues]
  | cons c cs =>
    have hdigit : Text.isDigit c = true := by
      simp [Text.isDigit, digitValue?_of_isDigit (hcs c List.mem_cons_self)]
    rw [List.cons_append, digitRun, if_pos hdigit, ← List.cons_append, digitTail_append hcs hrest]

theorem digitRun_eq (hcs : ∀ c ∈ cs, c.isDigit = true) : digitRun cs = (digitValues cs, []) := by
  simpa using digitRun_append hcs .nil

/-! ### Signs and surroundings -/

/-- The mark in front of a negative number. -/
def signMark (negative : Bool) : List Char := if negative then ['-'] else []

/-- The mark of a sign is read as the sign, when a digit follows it. -/
theorem sign_append (negative : Bool) (hcs : ∀ c ∈ cs.head?, c ≠ '-' ∧ c ≠ '+') :
    sign (signMark negative ++ cs) = (negative, cs) := by
  cases negative with
  | true => rfl
  | false =>
    cases cs with
    | nil => rfl
    | cons c cs =>
      obtain ⟨hminus, hplus⟩ := hcs c rfl
      rw [signMark, if_neg (by decide), List.nil_append, sign]
      · intro _ h
        exact hminus (List.cons.inj h).1
      · intro _ h
        exact hplus (List.cons.inj h).1

theorem ne_sign_of_isDigit (hc : c.isDigit = true) : c ≠ '-' ∧ c ≠ '+' := by
  constructor <;> rintro rfl <;> exact absurd hc (by decide)

theorem isBlank_of_isDigit (hc : c.isDigit = true) : isBlank c = false := by
  have hrange : 48 ≤ c.toNat ∧ c.toNat ≤ 57 := Char.isDigit_iff_toNat.mp hc
  simp only [isBlank, Bool.or_eq_false_iff, Bool.and_eq_false_iff, decide_eq_false_iff_not,
    beq_eq_false_iff_ne]
  omega

/-- The characters that texts of numbers consist of. -/
def IsNumberChar (c : Char) : Prop := c.isDigit = true ∨ c ∈ ['-', '+', '/', '.', 'e']

theorem IsNumberChar.isBlank_eq_false (hc : IsNumberChar c) : isBlank c = false := by
  rcases hc with hc | hc
  · exact isBlank_of_isDigit hc
  · simp only [List.mem_cons, List.not_mem_nil, or_false] at hc
    rcases hc with rfl | rfl | rfl | rfl | rfl <;> decide

theorem isNumberChar_of_mem_signMark {negative : Bool} (hc : c ∈ signMark negative) :
    IsNumberChar c := by
  cases negative with
  | true => exact Or.inr (by simp_all [signMark])
  | false => cases hc

theorem strip_eq_self (h : ∀ c ∈ cs, IsNumberChar c) : strip cs = cs :=
  trim_eq_self fun c hc => (h c hc).isBlank_eq_false

/-! ### What the parts of a literal denote -/

/-- The **rational that the parts of a literal denote**. -/
def Parts.value (p : Parts) : Rat := (p.numerator : Rat) / p.denominator * (10 : Rat) ^ p.exponent

/-- A text **has room** when no row of its digits is too long to be read. -/
def HasRoom (s : String) : Prop := ∀ p ∈ parts? (strip s.toList), p.overlong? = none

/-- A literal with room denotes what its parts denote. -/
theorem rational_eq_value {s : String} {p : Parts} (hp : parts? (strip s.toList) = some p)
    (hroom : HasRoom s) (hden : p.denominator ≠ 0) : rational s = .ok p.value := by
  have hshort : p.overlong? = none := hroom p hp
  rw [rational, hp]
  simp only [hshort, if_neg hden]
  rfl

/-! ### Exponents and fractions -/

/-- A text is an **exponent part** for an exponent, or nothing for none. -/
inductive IsExponent : List Char → Int → Nat → Prop
  | absent : IsExponent [] 0 0
  | present {cs : List Char} (negative : Bool) (hne : cs ≠ []) (hcs : ∀ c ∈ cs, c.isDigit = true) :
    IsExponent ('e' :: (if negative then '-' else '+') :: cs)
      (signed negative (natOfDigits (digitValues cs))) cs.length

namespace IsExponent

variable {es : List Char} {e : Int} {k : Nat}

theorem exponentPart_eq (h : IsExponent es e k) : exponentPart es = some (e, k, []) := by
  cases h with
  | absent => rfl
  | @present cs negative hne hcs =>
    have hsign : sign ((if negative then '-' else '+') :: cs) = (negative, cs) := by
      cases negative <;> rfl
    obtain ⟨c, cs, rfl⟩ := List.exists_cons_of_ne_nil hne
    rw [exponentPart, if_pos (by decide), hsign]
    simp only [digitRun_eq hcs, digitValues, List.map_cons, List.length_cons, List.length_map]

theorem endsRow (h : IsExponent es e k) : EndsRow es := by
  cases h with
  | absent => exact .nil
  | present negative hne hcs => exact .mark _

theorem isNumberChar (h : IsExponent es e k) (hc : c ∈ es) : IsNumberChar c := by
  cases h with
  | absent => cases hc
  | present negative hne hcs =>
    rcases List.mem_cons.mp hc with rfl | hc
    · exact Or.inr (by decide)
    · rcases List.mem_cons.mp hc with rfl | hc
      · cases negative <;> exact Or.inr (by decide)
      · exact Or.inl (hcs _ hc)

end IsExponent

/-- In front of digits no sign is read twice. -/
theorem head?_ne_sign {ws : List Char} (hws : ∀ c ∈ ws, c.isDigit = true)
    (hrest : ∀ c ∈ rest.head?, c ≠ '-' ∧ c ≠ '+') :
    ∀ c ∈ (ws ++ rest).head?, c ≠ '-' ∧ c ≠ '+' := by
  cases ws with
  | nil => exact hrest
  | cons w ws =>
    rintro c ⟨⟩
    exact ne_sign_of_isDigit (hws w List.mem_cons_self)

/-- **The parts of digits** with an exponent part. -/
theorem parts?_whole {ws es : List Char} {e : Int} {k : Nat} (negative : Bool) (hne : ws ≠ [])
    (hws : ∀ c ∈ ws, c.isDigit = true) (hes : IsExponent es e k) :
    parts? (signMark negative ++ (ws ++ es)) =
      some ⟨signed negative (natOfDigits (digitValues ws)), 1, e, [ws.length, k]⟩ := by
  have hhead : ∀ c ∈ es.head?, c ≠ '-' ∧ c ≠ '+' := by
    cases hes with
    | absent => rintro c ⟨⟩
    | present negative hne hcs =>
      rintro c ⟨⟩
      decide
  have hfull : (digitValues ws).isEmpty = false := by
    rw [List.isEmpty_eq_false_iff]
    exact mt List.map_eq_nil_iff.mp hne
  have hexponent := hes.exponentPart_eq
  rw [parts?, sign_append negative (head?_ne_sign hws hhead)]
  simp only [digitRun_append hws hes.endsRow]
  cases hes with
  | absent => simp only [hexponent, hfull, length_digitValues, Bool.false_eq_true, if_false]
  | present negative hne hcs =>
    split
    · next _ _ _ h => exact absurd (List.cons.inj h).1 (by decide)
    · next _ _ _ h => exact absurd (List.cons.inj h).1 (by decide)
    · next rest _ _ =>
      simp only [hexponent, hfull, length_digitValues, Bool.false_eq_true, if_false]

/-- **The parts of digits with a point** among them, and an exponent part. -/
theorem parts?_point {ws fs es : List Char} {e : Int} {k : Nat} (negative : Bool)
    (hne : ws ≠ [] ∨ fs ≠ []) (hws : ∀ c ∈ ws, c.isDigit = true)
    (hfs : ∀ c ∈ fs, c.isDigit = true) (hes : IsExponent es e k) :
    parts? (signMark negative ++ (ws ++ '.' :: (fs ++ es))) =
      some ⟨signed negative (natOfDigits (digitValues (ws ++ fs))), 1, e - fs.length,
        [ws.length, fs.length, k]⟩ := by
  have hhead : ∀ c ∈ ('.' :: (fs ++ es)).head?, c ≠ '-' ∧ c ≠ '+' := by
    rintro c ⟨⟩
    decide
  have hfull : ((digitValues ws).isEmpty && (digitValues fs).isEmpty) = false := by
    rcases hne with hne | hne <;>
      simp [List.isEmpty_eq_false_iff.mpr (mt List.map_eq_nil_iff.mp hne), digitValues]
  rw [parts?, sign_append negative (head?_ne_sign hws hhead)]
  simp only [digitRun_append hws (.point _), digitRun_append hfs hes.endsRow, hes.exponentPart_eq,
    hfull, length_digitValues, digitValues_append, Bool.false_eq_true, if_false]

/-! ### Integers and quotients -/

theorem toList_toString (n : Nat) : (toString n).toList = Nat.toDigits 10 n := by
  rw [Nat.toString_eq_ofList_toDigits, String.toList_ofList]

theorem toList_toString_int (n : Int) :
    (toString n).toList = signMark (decide (n < 0)) ++ Nat.toDigits 10 n.natAbs := by
  rw [Int.toString_eq_repr, Int.repr_eq_if]
  by_cases hn : 0 ≤ n
  · have habs : n.toNat = n.natAbs := by omega
    rw [if_pos hn, decide_eq_false (by omega), habs]
    exact toList_toString _
  · have habs : (-n).toNat = n.natAbs := by omega
    rw [if_neg hn, decide_eq_true (by omega), habs, String.toList_append]
    exact congrArg ('-' :: ·) (toList_toString _)

theorem signed_natAbs (n : Int) : signed (decide (n < 0)) n.natAbs = n := by
  by_cases hn : n < 0
  · rw [decide_eq_true hn, signed, if_pos rfl]
    omega
  · rw [decide_eq_false hn, signed, if_neg (by decide)]
    omega

theorem exists_toDigits_eq_cons (n : Nat) :
    ∃ c cs, Nat.toDigits 10 n = c :: cs ∧ ∀ d ∈ c :: cs, d.isDigit = true := by
  obtain ⟨c, cs, hcs⟩ := List.exists_cons_of_ne_nil (Nat.toDigits_ne_nil (n := n) (b := 10))
  exact ⟨c, cs, hcs, fun d hd => isDigit_of_mem_toDigits (hcs ▸ hd)⟩

theorem head?_toDigits_append (n : Nat) (rest : List Char) :
    ∀ c ∈ (Nat.toDigits 10 n ++ rest).head?, c ≠ '-' ∧ c ≠ '+' := by
  obtain ⟨c, cs, hcs, hdigits⟩ := exists_toDigits_eq_cons n
  rw [hcs]
  rintro d ⟨⟩
  exact ne_sign_of_isDigit (hdigits c List.mem_cons_self)

/-- **The text of an integer** denotes the integer. -/
theorem integer_toString {n : Int} (hn : isShowable n.natAbs = true) :
    integer (toString n) = .ok n := by
  have htrim : trim isSpacing (toString n).toList = (toString n).toList := by
    refine trim_eq_self fun c hc => ?_
    rw [toList_toString_int, List.mem_append] at hc
    have hblank : isBlank c = false :=
      hc.elim (fun h => (isNumberChar_of_mem_signMark h).isBlank_eq_false) fun h =>
        isBlank_of_isDigit (isDigit_of_mem_toDigits h)
    rw [isSpacing, hblank, Bool.false_and]
  have hsign := sign_append (decide (n < 0)) (by simpa using head?_toDigits_append n.natAbs [])
  obtain ⟨c, cs, hcs, hdigits⟩ := exists_toDigits_eq_cons n.natAbs
  have hlength : (c :: cs).length ≤ digitLimit := hcs ▸ isShowable_iff.mp hn
  have hvalue : natOfDigits (digitValues (c :: cs)) = n.natAbs := hcs ▸ natOfDigits_toDigits _
  rw [integer, htrim, toList_toString_int, hsign, hcs]
  simp only [digitRun_eq hdigits]
  have hroom : ¬ digitLimit < (digitValues cs).length + 1 := by
    rw [length_digitValues]
    exact Nat.not_lt.mpr hlength
  simp only [digitValues, List.map_cons] at hroom hvalue ⊢
  rw [if_neg hroom, hvalue, signed_natAbs]

/-- The parts of the text of an integer. -/
theorem parts?_toDigits (negative : Bool) (n : Nat) :
    parts? (signMark negative ++ Nat.toDigits 10 n) =
      some ⟨signed negative n, 1, 0, [(Nat.toDigits 10 n).length, 0]⟩ := by
  rw [← List.append_nil (Nat.toDigits 10 n),
    parts?_whole negative Nat.toDigits_ne_nil (fun _ => isDigit_of_mem_toDigits) .absent,
    natOfDigits_toDigits, List.append_nil]

/-- The parts of the text of a quotient. -/
theorem parts?_quotient (negative : Bool) (n m : Nat) :
    parts? (signMark negative ++ (Nat.toDigits 10 n ++ '/' :: Nat.toDigits 10 m)) =
      some ⟨signed negative n, m, 0, [(Nat.toDigits 10 n).length, (Nat.toDigits 10 m).length]⟩ := by
  have hsign := sign_append negative (head?_toDigits_append n ('/' :: Nat.toDigits 10 m))
  obtain ⟨c, cs, hcs, hdigits⟩ := exists_toDigits_eq_cons n
  obtain ⟨d, ds, hds, hdigits'⟩ := exists_toDigits_eq_cons m
  have hvalue : natOfDigits (digitValues (c :: cs)) = n := hcs ▸ natOfDigits_toDigits n
  have hvalue' : natOfDigits (digitValues (d :: ds)) = m := hds ▸ natOfDigits_toDigits m
  rw [parts?, hsign]
  simp only [hcs, hds, digitRun_append hdigits (.slash _), digitRun_eq hdigits']
  simp only [digitValues, List.map_cons] at hvalue hvalue' ⊢
  simp only [hvalue, hvalue', List.length_cons, List.length_map]

theorem isNumberChar_of_mem_toDigits {n : Nat} (hc : c ∈ Nat.toDigits 10 n) : IsNumberChar c :=
  Or.inl (isDigit_of_mem_toDigits hc)

theorem toList_ratText (q : Rat) :
    (Number.ratText q).toList = signMark (decide (q.num < 0)) ++
      (Nat.toDigits 10 q.num.natAbs ++ if q.den = 1 then [] else '/' :: Nat.toDigits 10 q.den) := by
  rw [Number.ratText]
  split
  · rw [toList_toString_int, List.append_nil]
  · rw [String.toList_append, String.toList_append, toList_toString_int, toList_toString,
      List.append_assoc, List.append_assoc]
    rfl

theorem strip_ratText (q : Rat) : strip (Number.ratText q).toList = (Number.ratText q).toList := by
  refine strip_eq_self fun c hc => ?_
  rw [toList_ratText, List.mem_append, List.mem_append] at hc
  rcases hc with hc | hc | hc
  · exact isNumberChar_of_mem_signMark hc
  · exact isNumberChar_of_mem_toDigits hc
  · split at hc
    · cases hc
    · rcases List.mem_cons.mp hc with rfl | hc
      · exact Or.inr (by decide)
      · exact isNumberChar_of_mem_toDigits hc

/-- The parts of the text of a rational: they denote it, and their rows are those of its numerator
and its denominator. -/
theorem parts?_ratText (q : Rat) :
    ∃ p, parts? (strip (Number.ratText q).toList) = some p ∧ p.denominator ≠ 0 ∧ p.value = q ∧
      (p.overlong? = none ↔ Number.isShowable q = true) := by
  rw [strip_ratText, toList_ratText]
  by_cases hden : q.den = 1
  · refine ⟨_, by rw [if_pos hden, List.append_nil]; exact parts?_toDigits _ _, one_ne_zero, ?_, ?_⟩
    · rw [Parts.value, signed_natAbs]
      simp [Rat.coe_int_num_of_den_eq_one hden]
    · have hone : isShowable 1 = true := by decide +kernel
      simp [Parts.overlong?, Number.isShowable, hden, isShowable_iff, hone]
  · refine ⟨_, by rw [if_neg hden]; exact parts?_quotient _ _ _, q.den_nz, ?_, ?_⟩
    · rw [Parts.value, signed_natAbs]
      simp [Rat.num_div_den]
    · simp [Parts.overlong?, Number.isShowable, isShowable_iff]

/-- The text of a rational has room when the rational can be shown. -/
theorem hasRoom_ratText {q : Rat} (hq : Number.isShowable q = true) :
    HasRoom (Number.ratText q) := by
  obtain ⟨p, hp, -, -, hroom⟩ := parts?_ratText q
  intro p' hp'
  obtain rfl : p = p' := Option.some.inj (hp.symm.trans hp')
  exact hroom.mpr hq

/-- **The text of a rational** denotes the rational. -/
theorem rational_ratText {q : Rat} (hq : Number.isShowable q = true) :
    rational (Number.ratText q) = .ok q := by
  obtain ⟨p, hp, hden, hvalue, -⟩ := parts?_ratText q
  rw [rational_eq_value hp (hasRoom_ratText hq) hden, hvalue]

end Literal

end Elementary
