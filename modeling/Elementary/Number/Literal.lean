import Elementary.Failure
import Elementary.Text.DecimalDigit
import Elementary.Text.Printable

/-!
# Number literals

The texts that denote rationals and integers. A literal is a sign, digits that may be separated by
single underscores, and then either a slash and a denominator, or a fraction part and a decimal
exponent; white space may surround it. The digits may be of any script.

## Main definitions

* `Literal.rational`: the rational that a text denotes.
* `Literal.integer`: the integer that a text denotes.
* `Literal.digitRun`: the longest row of digits at the head of a text.
-/

namespace Elementary.Literal

/-- A row of digits that continues one: a digit, or an underscore and a digit, again and again. -/
def digitTail : List Char → List Nat × List Char
  | [] => ([], [])
  | c :: rest =>
    match Text.digitValue? c with
    | some d =>
      let (ds, r) := digitTail rest
      (d :: ds, r)
    | none =>
      if c = '_' then
        match rest with
        | c' :: rest' =>
          match Text.digitValue? c' with
          | some d =>
            let (ds, r) := digitTail rest'
            (d :: ds, r)
          | none => ([], c :: rest)
        | [] => ([], c :: rest)
      else ([], c :: rest)

/-- The **longest row of digits** at the head of a text, single underscores between them left out,
and what follows it. -/
def digitRun (cs : List Char) : List Nat × List Char :=
  match cs with
  | c :: _ => if Text.isDigit c then digitTail cs else ([], cs)
  | [] => ([], cs)

/-- A sign at the head of a text: whether it is a minus, and what follows. -/
def sign : List Char → Bool × List Char
  | '-' :: rest => (true, rest)
  | '+' :: rest => (false, rest)
  | cs => (false, cs)

/-- A number with the sign that stands before it. -/
def signed (negative : Bool) (n : Nat) : Int := if negative then -(n : Int) else n

/-- The exponent part of a literal, with the power of ten that it denotes and the number of its
digits. -/
def exponentPart (cs : List Char) : Option (Int × Nat × List Char) :=
  match cs with
  | c :: rest =>
    if c = 'e' || c = 'E' then
      let (negative, rest) := sign rest
      match digitRun rest with
      | ([], _) => none
      | (ds, rest) => some (signed negative (Text.natOfDigits ds), ds.length, rest)
    else some (0, 0, cs)
  | [] => some (0, 0, cs)

/-- What a literal denotes: a numerator, a denominator that may be zero, and a power of ten; and
the lengths of its rows of digits in the order in which they are read. -/
structure Parts where
  numerator : Int
  denominator : Nat
  exponent : Int
  rows : List Nat

/-- The **parts of a literal** that is not surrounded by white space. -/
def parts? (cs : List Char) : Option Parts :=
  let (negative, cs) := sign cs
  let (whole, cs) := digitRun cs
  match cs with
  | '/' :: rest =>
    match whole, digitRun rest with
    | _ :: _, (d :: ds, []) =>
      some ⟨signed negative (Text.natOfDigits whole), Text.natOfDigits (d :: ds), 0,
        [whole.length, ds.length + 1]⟩
    | _, _ => none
  | '.' :: rest =>
    let (fraction, rest) := digitRun rest
    if whole.isEmpty && fraction.isEmpty then none
    else
      match exponentPart rest with
      | some (e, digits, []) =>
        some ⟨signed negative (Text.natOfDigits (whole ++ fraction)), 1, e - fraction.length,
          [whole.length, fraction.length, digits]⟩
      | _ => none
  | rest =>
    if whole.isEmpty then none
    else
      match exponentPart rest with
      | some (e, digits, []) =>
        some ⟨signed negative (Text.natOfDigits whole), 1, e, [whole.length, digits]⟩
      | _ => none

/-- A row of digits that is **too long** to be read, if there is one. -/
def Parts.overlong? (p : Parts) : Option Nat := p.rows.find? (Text.digitLimit < ·)

/-- The **rational** that a text denotes. -/
def rational (s : String) : Except Failure Rat :=
  match parts? (Text.strip s.toList) with
  | none => .error (.badLiteral s)
  | some p =>
    match p.overlong? with
    | some given => .error (.tooManyDigits (some given))
    | none =>
      if p.denominator = 0 then .error (.zeroDenominator p.numerator)
      else .ok ((p.numerator : Rat) / p.denominator * (10 : Rat) ^ p.exponent)

/-- The **integer** that a text denotes. Separators are no spacing around it. -/
def integer (s : String) : Except Failure Int :=
  let (negative, cs) := sign (Text.trim Text.isSpacing s.toList)
  match digitRun cs with
  | (d :: ds, []) =>
    if Text.digitLimit < ds.length + 1 then .error (.tooManyDigits (some (ds.length + 1)))
    else .ok (signed negative (Text.natOfDigits (d :: ds)))
  | _ => .error (.badInteger s)

/-- The integer that a text denotes, if it can be read as one. -/
def integer? (s : String) : Option Int := (integer s).toOption

end Elementary.Literal
