import Elementary.Proofs.C.OperatorTree
import Elementary.Proofs.C.Reading
import Elementary.Proofs.Format.Coding

/-!
# Constants in C

A constant of the format of the generated code is the call of a function on its coding. A constant
of another format is a hexadecimal numeral, with a minus sign in parentheses for a negative one. The
value goes from the coding to a rational number, to a number of double precision and to text, and
nothing is lost on the way: every number of a format is one of double precision, and so is what the
numeral stands for.

## Main definitions

* `rational?`: the number that an operator tree of a numeral stands for.

## Main results

* `hexText_of_decode?`: the hexadecimal text of what a coding stands for.
* `constant_denotes`: what is written for a constant stands for the constant.
-/

namespace Elementary.C

variable {p q : Precision} {c : Int} {v : Rat} {x : Expr} {suffix : String}

/-- The rational number that a **numeral with its sign** stands for. -/
def rational? : Tree → Option Rat
  | .number s => hexFloat? s
  | .unary "-" (.number s) => (hexFloat? s).map fun v => -v
  | _ => none

/-- What a coding stands for is a number of **double precision**. -/
theorem ofRat_of_decode? (h : q.format.decode? c = some v) :
    Datum.ofRat Precision.double.format false v = .finite (decide (v < 0)) v.abs ∧
      (Datum.finite (decide (v < 0)) v.abs).IsMember Precision.double.format := by
  have hmember := Datum.isMember_double (Datum.isMember_of_decode? h)
  refine ⟨?_, hmember⟩
  rw [Datum.ofRat]
  split
  · next hzero =>
    subst hzero
    rfl
  · exact Datum.ofMagnitude_eq hmember

/-- The hexadecimal text of a number is that of its magnitude **behind its sign**. -/
theorem hexText_finite (negative : Bool) (r : Rat) :
    (Datum.finite negative r).hexText =
      (if negative then "-" else "") ++ (Datum.finite false r).hexText := by
  rw [Datum.hexText, Datum.hexText, if_neg Bool.false_ne_true, String.empty_append]

/-- The hexadecimal text of what a coding stands for **begins with a minus sign** when this is
negative, and with a digit otherwise. -/
theorem hexText_of_decode? (h : q.format.decode? c = some v) :
    (Datum.ofRat Precision.double.format false v).hexText =
        (if v < 0 then "-" else "") ++ (Datum.finite false v.abs).hexText ∧
      ((Datum.ofRat Precision.double.format false v).hexText.toList.head? = some '-' ↔ v < 0) := by
  obtain ⟨cs, hcs⟩ := begins_hexText v.abs
  have htext : (Datum.ofRat Precision.double.format false v).hexText =
      (if v < 0 then "-" else "") ++ (Datum.finite false v.abs).hexText := by
    rw [(ofRat_of_decode? h).1, hexText_finite]
    simp only [decide_eq_true_eq]
  refine ⟨htext, ?_⟩
  rw [htext, String.toList_append, hcs]
  by_cases hneg : v < 0
  · simp [hneg]
  · simp [hneg]

/-- **A constant of another format** is written as its hexadecimal text, in parentheses when this
begins with a minus sign. -/
theorem text_constant_of_ne (hq : q ≠ p) (h : q.format.decode? c = some v) :
    ∃ t, constant p c (some (.binary q)) = .ok t ∧
      t.text = if (Datum.ofRat Precision.double.format false v).hexText.toList.head? = some '-' then
          "(" ++ (Datum.ofRat Precision.double.format false v).hexText ++ ")"
        else (Datum.ofRat Precision.double.format false v).hexText := by
  obtain ⟨htext, hsign⟩ := hexText_of_decode? h
  refine ⟨Term.signed (decide (v < 0)) (Datum.finite false v.abs).hexText, ?_, ?_⟩
  · rw [constant, if_neg hq, h]
    dsimp only
    rw [Datum.ofRat_abs_of_decode? h]
  · rw [if_congr hsign rfl rfl, htext, Term.signed]
    by_cases hneg : v < 0
    · simp [hneg, Term.text, String.append_assoc]
    · simp [hneg, Term.text]

/-- The operator tree of a constant of another format **stands for** the constant. -/
theorem rational?_constantTree (hq : q ≠ p) (h : q.format.decode? c = some v) {tree : Tree}
    (htree : constantTree p c (some (.binary q)) = some tree) : rational? tree = some v := by
  rw [constantTree, if_neg hq, h] at htree
  obtain rfl := Option.some.inj htree
  have hvalue := hexFloat?_of_decode? h
  change rational? (signedNumber (decide (v < 0)) _) = _
  rw [signedNumber]
  by_cases hneg : v < 0
  · have habs : -v.abs = v := by rw [Rat.abs_of_nonpos hneg.le, neg_neg]
    rw [if_pos (decide_eq_true hneg), rational?, hvalue, Option.map_some, habs]
  · rw [if_neg (by simpa using hneg), rational?, hvalue, Rat.abs_of_nonneg (not_lt.mp hneg)]

/-- What is written for a constant is **parsed as its operator tree**. -/
theorem parse_constant {format : Option ResultFormat} {t : Term}
    (h : constant p c format = .ok t) :
    ∃ tree, constantTree p c format = some tree ∧ parse t.text = some tree := by
  obtain ⟨tree, htree, hreads⟩ := reads_constant h
  exact ⟨tree, htree, hreads.isEnclosed.parse_eq⟩

/-- The literal of a coding is written with its sign in front. -/
theorem text_codingLiteral (q : Precision) (c : Int) :
    (codingLiteral q c).text =
      (if c < 0 then "-" else "") ++ "0x" ++ Text.hex c.natAbs ++ codingSuffix q := by
  rw [codingLiteral]
  by_cases hneg : c < 0
  · simp only [if_pos hneg, Term.text, String.append_assoc]
  · simp only [if_neg hneg, Term.text, String.append_assoc, String.empty_append]

/-- **Constants keep their exact value.** Take bits as a number of a format, in code of any
precision. When the format is another one and the bits are those of a finite number, the hexadecimal
text of this number is written, in parentheses exactly when it begins with a minus sign, which it
does exactly when the number is negative; what is written is parsed as a numeral with its sign that
stands for the number, and the number is one of double precision, as the numeral is. When the format
is that of the code, the function that makes a number of bits is called on a numeral that holds the
coding itself, whatever it is. -/
theorem constant_denotes (hx : x.coding = .ok c) (suffix : String) :
    (q ≠ p → q.format.exponentField c ≠ q.format.specialExponent →
      ∃ v t text, q.format.decode? c = some v ∧
        lower p suffix (.node (.fromBits (some (.binary q))) [x]) = .ok t ∧
        text = (Datum.ofRat Precision.double.format false v).hexText ∧
        t.text = (if text.toList.head? = some '-' then "(" ++ text ++ ")" else text) ∧
        (text.toList.head? = some '-' ↔ v < 0) ∧
        (parse t.text).bind rational? = some v ∧
        (Datum.finite (decide (v < 0)) v.abs).IsMember Precision.double.format) ∧
    (q = p →
      ∃ t numeral, lower p suffix (.node (.fromBits (some (.binary q))) [x]) = .ok t ∧
        t.text = "from_bits(" ++ (if c < 0 then "-" else "") ++ "0x" ++ Text.hex c.natAbs ++
          codingSuffix q ++ ")" ∧
        parse t.text = some (.call (.name "from_bits") [numeral]) ∧ coding? numeral = some c) := by
  have hlower : lower p suffix (.node (.fromBits (some (.binary q))) [x]) =
      constant p c (some (.binary q)) := by
    rw [lower, hx]
    rfl
  rw [hlower]
  constructor
  · intro hq hfinite
    obtain ⟨v, hv⟩ := Option.ne_none_iff_exists'.mp
      (mt (Format.decode?_eq_none_iff c).mp hfinite)
    obtain ⟨t, ht, htext⟩ := text_constant_of_ne hq hv
    obtain ⟨tree, htree, hparse⟩ := parse_constant ht
    refine ⟨v, t, _, hv, ht, rfl, htext, (hexText_of_decode? hv).2, ?_, (ofRat_of_decode? hv).2⟩
    rw [hparse, Option.bind_some, rational?_constantTree hq hv htree]
  · rintro rfl
    have ht : constant q c (some (.binary q)) =
        .ok (.call "from_bits" [codingLiteral q c]) := by
      rw [constant, if_pos rfl]
    obtain ⟨tree, htree, hparse⟩ := parse_constant ht
    rw [constantTree, if_pos rfl] at htree
    obtain rfl := Option.some.inj htree
    refine ⟨_, _, ht, ?_, hparse, coding?_signedNumber q c⟩
    simp only [Term.text, Term.texts, String.intercalate_singleton, text_codingLiteral,
      String.append_assoc]
    rfl

/-- The bits of the negative number of double precision next to zero, which is subnormal. -/
def smallestBits : Expr := .node (.bitPattern 0x8000000000000001) []

/-- A subnormal number in code of single precision, and bits in code of their own format. -/
theorem constant_denotes_smallest :
    (∃ t, lower .single "f" (.node (.fromBits (some (.binary .double))) [smallestBits]) = .ok t ∧
      t.text = "(-0x0.0000000000001p-1022)" ∧
      (parse t.text).bind rational? = some (-pow2 (-1074))) ∧
    ∃ t numeral,
      lower .double "" (.node (.fromBits (some (.binary .double))) [smallestBits]) = .ok t ∧
        t.text = "from_bits(0x8000000000000001ull)" ∧
        parse t.text = some (.call (.name "from_bits") [numeral]) ∧
        coding? numeral = some 0x8000000000000001 := by
  have hother := (constant_denotes (p := .single) (q := .double) (x := smallestBits) rfl "f").1
    (by decide) (by decide)
  have hown := (constant_denotes (p := .double) (q := .double) (x := smallestBits) rfl "").2 rfl
  obtain ⟨v, t, text, hv, ht, rfl, htext, -, hparse, -⟩ := hother
  have hvalue : Precision.double.format.decode? 0x8000000000000001 = some (-pow2 (-1074)) := by
    decide +kernel
  obtain rfl := Option.some.inj (hv.symm.trans hvalue)
  have hhex : (Datum.ofRat Precision.double.format false (-pow2 (-1074))).hexText =
      "-0x0.0000000000001p-1022" := by
    decide +kernel
  refine ⟨⟨t, ht, ?_, hparse⟩, ?_⟩
  · rw [htext, hhex]
    decide +kernel
  · obtain ⟨t', numeral, ht', htext', hparse', hcoding⟩ := hown
    refine ⟨t', numeral, ht', ?_, hparse', hcoding⟩
    rw [htext']
    decide +kernel

end Elementary.C
