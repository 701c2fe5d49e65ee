import Elementary.Decimal.Rounded
import Elementary.Format.Datum
import Elementary.Number.Literal

/-!
# Numbers as they are written

A constant of an expression keeps the number that was written: an integer, a truth value, a
literal, a quotient, a floating-point number, a number of arbitrary precision. This module shows
such numbers as text and gives their exact value.

## Main definitions

* `Number`: the written numbers.
* `Number.text`: how a number is shown, and `Number.shown`, which fails on too many digits.
* `Number.toRat`: its exact value.
* `Number.isFinite`: whether it is taken for a finite number.
* `Number.encode`: its coding in a format, or the overflow that shows it as it is written.
* `Precision.encode`: the coding of an exact value, or the overflow that shows it.
-/

namespace Elementary

/-- A **number as it is written**. -/
inductive Number where
  /-- Nothing was written. -/
  | absent
  | truth (b : Bool)
  | integer (n : Int)
  /-- A literal, kept as its text. -/
  | literal (s : String)
  | ratio (q : Rat)
  /-- A floating-point number of double precision. -/
  | double (x : Datum)
  /-- A scalar of single precision, which belongs to a format already. -/
  | single (x : Datum)
  /-- A number of arbitrary precision, and how many digits of it are shown. -/
  | big (x : BigFloat) (digits : Nat)
  /-- An empty sequence, which is no number. -/
  | sequence
  deriving DecidableEq, Inhabited

namespace Number

/-- A rational as text: the denominator is left out when it is one. -/
def ratText (q : Rat) : String :=
  if q.den = 1 then toString q.num else toString q.num ++ "/" ++ toString q.den

/-- How a number is **shown**. -/
def text : Number → String
  | absent => "None"
  | truth b => if b then "True" else "False"
  | integer n => toString n
  | literal s => s
  | ratio q => ratText q
  | double x => x.text Precision.double.format
  | single x => x.text Precision.single.format
  | big x digits => x.text digits
  | sequence => "[]"

/-- Whether a rational has no more digits than can be shown. -/
def isShowable (q : Rat) : Bool := Text.isShowable q.num.natAbs && Text.isShowable q.den

/-- The text of a rational in a message. -/
def shownRat (q : Rat) : Except Failure String :=
  if isShowable q then .ok (ratText q) else .error (.tooManyDigits none)

/-- The text of a number **in a message**: an integer or a quotient may have too many digits. -/
def shown : Number → Except Failure String
  | integer n => shownRat n
  | ratio q => shownRat q
  | n => .ok n.text

/-- Whether a number may stand as an operand by itself. -/
def isPromotable : Number → Bool
  | absent | single _ | sequence => false
  | _ => true

/-- Whether a number is **taken for finite**. A literal is, whatever it says. -/
def isFinite : Number → Except Failure Bool
  | truth _ | integer _ | literal _ | ratio _ => .ok true
  | double x | single x => .ok x.isFinite
  | big x _ => .ok x.isFinite
  | n => .error (.wrongKind ("cannot create mpf from " ++ n.text))

/-- The exact value of a datum, which is shown as a number of the format. -/
def ofDatum (fmt : Format) (x : Datum) : Except Failure Rat :=
  match x.toRat? with
  | some q => .ok q
  | none => .error (.notExact (x.text fmt))

/-- The **exact value** of a number. -/
def toRat : Number → Except Failure Rat
  | truth b => .ok (if b then 1 else 0)
  | integer n => .ok n
  | literal s => Literal.rational s
  | ratio q => .ok q
  | double x => ofDatum Precision.double.format x
  | single x => ofDatum Precision.single.format x
  | big x digits =>
    match x.toRat? with
    | some q => .ok q
    | none => .error (.notExact (x.text digits))
  | n => .error (.wrongKind ("unsupported numeric value " ++ n.text))

/-- A number **brought to a working precision** in bits. A quotient, also one written as a literal,
has its numerator rounded first. -/
def toBig (bits : Nat) : Number → Except Failure BigFloat
  | ratio q => .ok (.ofRat bits q)
  | literal s => (Literal.rational s).map (.ofRat bits)
  | big x _ => .ok (x.round bits)
  | double x | single x =>
    match x with
    | .nan => .ok .nan
    | .infinite negative => .ok (.infinite negative)
    | .finite negative q => .ok (.nearest bits (Datum.signed negative q))
  | n => n.toRat.map (.nearest bits)

/-- The **integer** that a number gives when its fraction part is dropped. -/
def toInt : Number → Except Failure Int
  | truth b => .ok (if b then 1 else 0)
  | integer n => .ok n
  | literal s => Literal.integer s
  | ratio q => .ok (truncate q)
  | double x | single x => ofNumber x.toRat? (x == .nan)
  | big x _ => ofNumber x.toRat? (x == .nan)
  | n => .error (.wrongKind ("no integer is given by " ++ n.text))
where
  /-- The integer of an exact value, or why there is none. -/
  ofNumber (q : Option Rat) (isNan : Bool) : Except Failure Int :=
    match q with
    | some q => .ok (truncate q)
    | none => .error (if isNan then .integerOfNan else .integerOverflow)

/-- The **coding of a number** in a format, that of the nearest number of the format; an overflow
shows the number as it is written. -/
def encode (n : Number) (fmt : Format) : Except Failure Nat := do
  match fmt.encode? (← n.toRat) with
  | some coding => return coding
  | none => throw (.overflow (← n.shown) fmt.name)

end Number

/-- The **coding of an exact value** in a precision, that of the nearest number; an overflow shows
the value. -/
def Precision.encode (p : Precision) (q : Rat) : Except Failure Nat :=
  match p.format.encode? q with
  | some coding => .ok coding
  | none => do throw (.overflow (← Number.shownRat q) p.name)

end Elementary
