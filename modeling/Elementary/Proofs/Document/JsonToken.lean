import Elementary.Document.Json.Reader
import Elementary.Document.Json.Writer
import Elementary.Proofs.Number.Literal
import Elementary.Proofs.Text.Hexadecimal

/-!
# Tokens of JSON read back

Texts are written between quotes, with escapes for everything but printable ASCII characters, and
integers with their digits. A reader in front of such a token reads what was written, and stops
right behind it.

## Main definitions

* `Json.EndsValue`: what may follow a value.

## Main results

* `Json.readString_escaped`: a text between quotes.
* `Json.readAtom_integer`: an integer.
-/

namespace Elementary.Json

open Text Literal

variable {c : Char} {cs rest : List Char} {n fuel : Nat}

/-! ### Escapes -/

theorem hexValue?_hexDigit : ∀ d < 16, hexValue? (hexDigit d) = some d := by
  decide

/-- A number below `0x10000` is written with four hexadecimal digits. -/
theorem exists_padLeft_hex (hn : n < 0x10000) :
    ∃ p < 16, ∃ q < 16, ∃ r < 16, ∃ s < 16,
      (padLeft 4 '0' (hex n)).toList = [hexDigit p, hexDigit q, hexDigit r, hexDigit s] ∧
        ((p * 16 + q) * 16 + r) * 16 + s = n := by
  set cs := List.replicate (4 - (hex n).length) '0' ++ (hex n).toList with hcs
  have hlist : (padLeft 4 '0' (hex n)).toList = cs := by
    rw [padLeft, String.toList_append, String.toList_ofList]
  have hlength : cs.length = 4 := by
    have hle : (hex n).length ≤ 4 := length_hex_le (by omega) hn
    rw [hcs, List.length_append, List.length_replicate, String.length_toList]
    omega
  have hdigit : ∀ c ∈ cs, ∃ d < 16, c = hexDigit d := by
    intro c hc
    rcases List.mem_append.mp hc with hc | hc
    · exact ⟨0, by omega, List.eq_of_mem_replicate hc⟩
    · exact exists_of_mem_hex hc
  have hvalue : Datum.hexDigits cs = n := by
    rw [hcs, hexDigits_replicate_append, hexDigits_hex]
  rw [hlist]
  match cs, hlength, hdigit, hvalue with
  | [a, b, c, d], _, hdigit, hvalue =>
    obtain ⟨p, hp, rfl⟩ := hdigit a (by simp)
    obtain ⟨q, hq, rfl⟩ := hdigit b (by simp)
    obtain ⟨r, hr, rfl⟩ := hdigit c (by simp)
    obtain ⟨s, hs, rfl⟩ := hdigit d (by simp)
    refine ⟨p, hp, q, hq, r, hr, s, hs, rfl, ?_⟩
    have h₁ := hexDigits_concat [hexDigit p, hexDigit q, hexDigit r] (hexDigit s)
    have h₂ := hexDigits_concat [hexDigit p, hexDigit q] (hexDigit r)
    have h₃ := hexDigits_concat [hexDigit p] (hexDigit q)
    simp only [List.cons_append, List.nil_append, (hexDigit_spec _ hp).2, (hexDigit_spec _ hq).2,
      (hexDigit_spec _ hr).2, (hexDigit_spec _ hs).2] at h₁ h₂ h₃
    omega

theorem readUnit_hex (hn : n < 0x10000) (rest : List Char) :
    readUnit ((padLeft 4 '0' (hex n)).toList ++ rest) = some (n, rest) := by
  obtain ⟨p, hp, q, hq, r, hr, s, hs, hlist, rfl⟩ := exists_padLeft_hex hn
  rw [hlist]
  simp [readUnit, hexValue?_hexDigit, hp, hq, hr, hs]

/-- **An escape by number** is read as the character with that number. -/
theorem readEscape_single (hn : c.toNat < 0x10000) (rest : List Char) :
    readEscape ((padLeft 4 '0' (hex c.toNat)).toList ++ rest) = some (c, rest) := by
  have hvalid : c.toNat < 0xd800 ∨ (0xdfff < c.toNat ∧ c.toNat < 0x110000) := c.valid
  have hhigh : ¬ (0xd800 ≤ c.toNat ∧ c.toNat ≤ 0xdbff) := by omega
  have hlow : ¬ (0xdc00 ≤ c.toNat ∧ c.toNat ≤ 0xdfff) := by omega
  rw [readEscape, readUnit_hex hn, Option.bind_eq_bind, Option.bind_some]
  simp only [if_neg hhigh, if_neg hlow, Char.ofNat_toNat]
  rfl

/-- **An escape by two numbers** is read as one character. -/
theorem readEscape_pair (hn : ¬ c.toNat < 0x10000) (rest : List Char) :
    readEscape ((padLeft 4 '0' (hex (0xd800 + (c.toNat - 0x10000) / 0x400))).toList ++
      (escape (0xdc00 + (c.toNat - 0x10000) % 0x400) ++ rest)) = some (c, rest) := by
  have hvalid : c.toNat < 0xd800 ∨ (0xdfff < c.toNat ∧ c.toNat < 0x110000) := c.valid
  set high := 0xd800 + (c.toNat - 0x10000) / 0x400 with hhigh
  set low := 0xdc00 + (c.toNat - 0x10000) % 0x400 with hlow
  have hhighRange : 0xd800 ≤ high ∧ high ≤ 0xdbff := by omega
  have hlowRange : 0xdc00 ≤ low ∧ low ≤ 0xdfff := by omega
  have hnumber : 0x10000 + (high - 0xd800) * 0x400 + (low - 0xdc00) = c.toNat := by omega
  have hread : readLowUnit (escape low ++ rest) = some (low, rest) := by
    rw [escape, List.cons_append, List.cons_append, readLowUnit, readUnit_hex (by omega),
      Option.bind_eq_bind, Option.bind_some]
    simp only [if_pos hlowRange]
    rfl
  rw [readEscape, readUnit_hex (by omega), Option.bind_eq_bind, Option.bind_some]
  simp only [if_pos hhighRange, hread, hnumber, Char.ofNat_toNat]
  rfl

/-! ### Texts -/

theorem escape_append (n : Nat) (rest : List Char) :
    escape n ++ rest = '\\' :: 'u' :: ((padLeft 4 '0' (hex n)).toList ++ rest) := rfl

theorem escape_ne_nil (n : Nat) : escape n ≠ [] := List.cons_ne_nil _ _

/-- Puts a character in front of the characters that are read next. -/
def prepend (c : Char) : Option (List Char × List Char) → Option (List Char × List Char) :=
  Option.map fun p => (c :: p.1, p.2)

theorem readString_plain (hquote : c ≠ '"') (hslash : c ≠ '\\') (hcontrol : ¬ c.toNat < 0x20)
    (fuel : Nat) (rest : List Char) :
    readString (fuel + 1) (c :: rest) = prepend c (readString fuel rest) := by
  rw [readString.eq_def]
  simp only [if_neg hquote, if_neg hslash, if_neg hcontrol]
  cases readString fuel rest <;> rfl

theorem readString_short {e : Char} (he : shortEscape? e = some c) (hu : e ≠ 'u') (fuel : Nat)
    (rest : List Char) :
    readString (fuel + 1) ('\\' :: e :: rest) = prepend c (readString fuel rest) := by
  rw [readString.eq_def]
  simp only [if_neg (show '\\' ≠ '"' by decide), if_true, he]
  cases readString fuel rest <;> rfl

theorem readString_escape {cs : List Char} (h : readEscape cs = some (c, rest)) (fuel : Nat) :
    readString (fuel + 1) ('\\' :: 'u' :: cs) = prepend c (readString fuel rest) := by
  rw [readString.eq_def]
  simp only [if_neg (show '\\' ≠ '"' by decide), if_true, h, Option.bind_eq_bind,
    Option.bind_some]
  cases readString fuel rest <;> rfl

/-- **How a character is written** between quotes: with a letter, as itself, or with one number or
two. -/
theorem escaped_cases (c : Char) :
    (∃ e, e ≠ 'u' ∧ shortEscape? e = some c ∧ escaped c = ['\\', e]) ∨
      (c ≠ '"' ∧ c ≠ '\\' ∧ ¬ c.toNat < 0x20 ∧ escaped c = [c]) ∨
      (c.toNat < 0x10000 ∧ escaped c = escape c.toNat) ∨
      (¬ c.toNat < 0x10000 ∧ escaped c = escape (0xd800 + (c.toNat - 0x10000) / 0x400) ++
        escape (0xdc00 + (c.toNat - 0x10000) % 0x400)) := by
  by_cases hquote : c = '"'
  · subst hquote
    exact Or.inl ⟨'"', by decide, rfl, rfl⟩
  by_cases hslash : c = '\\'
  · subst hslash
    exact Or.inl ⟨'\\', by decide, rfl, rfl⟩
  by_cases hnew : c = '\n'
  · subst hnew
    exact Or.inl ⟨'n', by decide, rfl, rfl⟩
  by_cases hreturn : c = '\r'
  · subst hreturn
    exact Or.inl ⟨'r', by decide, rfl, rfl⟩
  by_cases htab : c = '\t'
  · subst htab
    exact Or.inl ⟨'t', by decide, rfl, rfl⟩
  by_cases hback : c = '\x08'
  · subst hback
    exact Or.inl ⟨'b', by decide, rfl, rfl⟩
  by_cases hfeed : c = '\x0c'
  · subst hfeed
    exact Or.inl ⟨'f', by decide, rfl, rfl⟩
  refine Or.inr ?_
  rw [escaped, if_neg hquote, if_neg hslash, if_neg hnew, if_neg hreturn, if_neg htab, if_neg hback,
    if_neg hfeed]
  by_cases hplain : 0x20 ≤ c.toNat ∧ c.toNat ≤ 0x7e
  · exact Or.inl ⟨hquote, hslash, by omega, if_pos hplain⟩
  rw [if_neg hplain]
  by_cases hsingle : c.toNat < 0x10000
  · exact Or.inr (Or.inl ⟨hsingle, if_pos hsingle⟩)
  · exact Or.inr (Or.inr ⟨hsingle, if_neg hsingle⟩)

/-- **One character** between quotes is read back. -/
theorem readString_escaped (c : Char) (fuel : Nat) (rest : List Char) :
    readString (fuel + 1) (escaped c ++ rest) = prepend c (readString fuel rest) := by
  rcases escaped_cases c with ⟨e, hu, he, hc⟩ | ⟨hquote, hslash, hcontrol, hc⟩ | ⟨hn, hc⟩ | ⟨hn, hc⟩
  · rw [hc]
    exact readString_short he hu fuel rest
  · rw [hc]
    exact readString_plain hquote hslash hcontrol fuel rest
  · rw [hc, escape_append]
    exact readString_escape (readEscape_single hn rest) fuel
  · rw [hc, List.append_assoc, escape_append]
    exact readString_escape (readEscape_pair hn rest) fuel

/-- **A text between quotes** is read up to its closing quote. -/
theorem readString_string (hfuel : cs.length < fuel) (rest : List Char) :
    readString fuel (cs.flatMap escaped ++ '"' :: rest) = some (cs, rest) := by
  induction cs generalizing fuel with
  | nil =>
    obtain ⟨fuel, rfl⟩ := Nat.exists_eq_add_one_of_ne_zero (Nat.ne_of_gt hfuel)
    rfl
  | cons c cs ih =>
    obtain ⟨fuel, rfl⟩ := Nat.exists_eq_add_one_of_ne_zero (Nat.ne_of_gt (Nat.zero_lt_of_lt hfuel))
    rw [List.flatMap_cons, List.append_assoc, readString_escaped,
      ih (Nat.lt_of_succ_lt_succ hfuel)]
    rfl

/-- Every character takes some place between quotes. -/
theorem length_le_flatMap_escaped (cs : List Char) : cs.length ≤ (cs.flatMap escaped).length := by
  induction cs with
  | nil => exact Nat.le_refl 0
  | cons c cs ih =>
    have hpos : 0 < (escaped c).length := by
      refine List.length_pos_iff.mpr ?_
      rcases escaped_cases c with ⟨e, -, -, hc⟩ | ⟨-, -, -, hc⟩ | ⟨-, hc⟩ | ⟨-, hc⟩ <;> rw [hc]
      · exact List.cons_ne_nil _ _
      · exact List.cons_ne_nil _ _
      · exact escape_ne_nil _
      · exact List.append_ne_nil_of_left_ne_nil (escape_ne_nil _) _
    rw [List.flatMap_cons, List.length_append, List.length_cons]
    omega

/-! ### Values without parts -/

/-- What may **follow a value**: nothing, a comma, or the end of the line. -/
def EndsValue (rest : List Char) : Prop := ∀ c ∈ rest.head?, c = ',' ∨ c = '\n'

theorem digits_append (hcs : ∀ c ∈ cs, c.isDigit = true) (hrest : EndsValue rest) :
    digits (cs ++ rest) = (digitValues cs, rest) := by
  induction cs with
  | nil =>
    cases rest with
    | nil => rfl
    | cons c rest =>
      have hdigit : c.isDigit = false := by
        rcases hrest c rfl with rfl | rfl <;> decide
      rw [List.nil_append, digits, hdigit]
      rfl
  | cons c cs ih =>
    rw [List.cons_append, digits, if_pos (hcs c List.mem_cons_self),
      ih fun d hd => hcs d (List.mem_cons_of_mem c hd)]
    rfl

/-- A row of digits denotes less than a power of ten. -/
theorem natOfDigits_lt (hcs : ∀ c ∈ cs, c.isDigit = true) :
    natOfDigits (digitValues cs) < 10 ^ cs.length := by
  induction cs using List.reverseRecOn with
  | nil => simp [natOfDigits, digitValues]
  | append_singleton cs c ih =>
    have hprefix := ih fun d hd => hcs d (List.mem_append_left _ hd)
    have hrange : 48 ≤ c.toNat ∧ c.toNat ≤ 57 := Char.isDigit_iff_toNat.mp (hcs c (by simp))
    have hlast : digitValues [c] = [c.toNat - 48] := rfl
    rw [digitValues_append, hlast, natOfDigits_concat, List.length_append, List.length_singleton,
      Nat.pow_succ]
    omega

/-- The digits of a number start with a zero only if it is zero. -/
theorem toDigits_ne_zero_cons (hn : n ≠ 0) (cs : List Char) : Nat.toDigits 10 n ≠ '0' :: cs := by
  intro h
  have hdigits : ∀ c ∈ cs, c.isDigit = true := fun c hc =>
    isDigit_of_mem_toDigits (h ▸ List.mem_cons_of_mem '0' hc)
  have hvalue : natOfDigits (digitValues cs) = n := by
    have hsame : natOfDigits (digitValues ('0' :: cs)) = natOfDigits (digitValues cs) := rfl
    rw [← hsame, ← h, natOfDigits_toDigits]
  have hlt : n < 10 ^ cs.length := hvalue ▸ natOfDigits_lt hdigits
  cases cs with
  | nil => exact hn (Nat.lt_one_iff.mp hlt)
  | cons c cs =>
    have hle := (Nat.length_toDigits_le_iff (by omega) (Nat.succ_pos cs.length)).mpr hlt
    rw [h] at hle
    simp at hle

theorem readNumber_toDigits (negative : Bool) (n : Nat) (hrest : EndsValue rest) :
    readNumber negative (Nat.toDigits 10 n ++ rest) =
      some (.integer (signed negative n), rest) := by
  have hfraction : fractionDigits rest = ([], rest) := by
    cases rest with
    | nil => rfl
    | cons c rest => rcases hrest c rfl with rfl | rfl <;> rfl
  have hexponent : Json.exponent? rest = (none, rest) := by
    cases rest with
    | nil => rfl
    | cons c rest => rcases hrest c rfl with rfl | rfl <;> rfl
  by_cases hn : n = 0
  · subst hn
    rw [readNumber.eq_def]
    simp only [Nat.toDigits_zero, List.cons_append, List.nil_append, hfraction, hexponent]
    rfl
  · obtain ⟨c, cs, hcs, hdigits⟩ := exists_toDigits_eq_cons n
    have hvalue : natOfDigits (digitValues (c :: cs)) = n := hcs ▸ natOfDigits_toDigits n
    have hzero : c ≠ '0' := by
      rintro rfl
      exact toDigits_ne_zero_cons hn cs hcs
    have hread := digits_append hdigits hrest
    rw [readNumber, hcs]
    · simp only [hread, digitValues, List.map_cons]
      simp only [digitValues, List.map_cons] at hvalue
      simp only [hfraction, hexponent, hvalue]
      rfl
    · intro _ h
      exact hzero (List.cons.inj (hcs ▸ h)).1

/-- No word starts with a digit, and only one with a minus, which a letter follows. -/
theorem words_eq_none {negative : Bool} (hc : c.isDigit = true) :
    words.findSome? (fun (w, d) =>
      (afterWord? w (signMark negative ++ c :: rest)).map fun rest => (d, rest)) = none := by
  have hne : 'n' ≠ c ∧ 't' ≠ c ∧ 'f' ≠ c ∧ 'N' ≠ c ∧ 'I' ≠ c ∧ '-' ≠ c := by
    refine ⟨?_, ?_, ?_, ?_, ?_, ?_⟩ <;> rintro rfl <;> exact absurd hc (by decide)
  cases negative <;>
    simp_all [words, afterWord?, signMark]

/-- **An integer** is read back. -/
theorem readAtom_integer (n : Int) (hrest : EndsValue rest) :
    readAtom ((toString n).toList ++ rest) = some (.integer n, rest) := by
  obtain ⟨c, cs, hcs, hdigits⟩ := exists_toDigits_eq_cons n.natAbs
  have hread := readNumber_toDigits (decide (n < 0)) n.natAbs hrest
  have hwords := @words_eq_none c (cs ++ rest) (decide (n < 0)) (hdigits c List.mem_cons_self)
  rw [hcs, List.cons_append, signed_natAbs] at hread
  rw [toList_toString_int, List.append_assoc, readAtom.eq_def, hcs, List.cons_append, hwords]
  cases hneg : decide (n < 0) with
  | true =>
    rw [hneg] at hread
    exact hread
  | false =>
    rw [hneg] at hread
    have hminus : c ≠ '-' := (ne_sign_of_isDigit (hdigits c List.mem_cons_self)).1
    simp only [signMark, Bool.false_eq_true, if_false, List.nil_append]
    split
    · next h => exact absurd (List.cons.inj h).1 hminus
    · exact hread

theorem readAtom_null (rest : List Char) :
    readAtom ("null".toList ++ rest) = some (.null, rest) := rfl

theorem readAtom_truth (b : Bool) (rest : List Char) :
    readAtom ((if b then "true" else "false").toList ++ rest) = some (.truth b, rest) := by
  cases b <;> rfl

/-- The text of an integer starts with a minus or a digit. -/
theorem exists_toString_eq_cons (n : Int) :
    ∃ c cs, (toString n).toList = c :: cs ∧ (c = '-' ∨ c.isDigit = true) := by
  obtain ⟨c, cs, hcs, hdigits⟩ := exists_toDigits_eq_cons n.natAbs
  rw [toList_toString_int, hcs]
  cases decide (n < 0) with
  | true => exact ⟨'-', _, rfl, Or.inl rfl⟩
  | false => exact ⟨c, cs, rfl, Or.inr (hdigits c List.mem_cons_self)⟩

end Elementary.Json
