import Elementary.Document.Basic

/-!
# Layouts of values in messages

The place of a value in a message may say how the value is laid out: on which side it is filled up
to a width, and for numbers the sign, the base, the number of digits behind the point, and marks
between groups of digits. Texts may be cut.

## Main definitions

* `Layout`: what a place may say, and `Layout.parse`.
* `Layout.apply`: a value laid out.
-/

namespace Elementary

/-- What a place says about the **layout of a value**. -/
structure Layout where
  fill : Option Char
  align : Option Char
  sign : Option Char
  /-- Whether a zero loses its minus. -/
  unsignedZero : Bool
  /-- Whether the base is marked, and a point always shown. -/
  marked : Bool
  /-- Whether a number is filled up with zeros. -/
  zeros : Bool
  width : Nat
  separator : Option Char
  precision : Option Nat
  kind : Option Char

namespace Layout

/-- A failure of a layout. -/
def fail {α : Type} (text : String) : Except Failure α := .error (.badTemplate text)

/-- The name of the kind of a value. -/
def kindName : Document → String
  | .null => "NoneType"
  | .truth _ => "bool"
  | .integer _ => "int"
  | .real _ => "float"
  | .text _ => "str"
  | .list _ => "list"
  | .map _ => "dict"
  | .record tag _ => tag

/-- A character that says on which side a value is filled up. -/
def isAlign (c : Char) : Bool := c == '<' || c == '>' || c == '=' || c == '^'

/-- The largest number of a layout. -/
def largest : Nat := Nat.pow 2 63 - 1

/-- The digits at the head of a text and the number that they denote. -/
def number (cs : List Char) : Except Failure (Option Nat × List Char) :=
  let ds := cs.takeWhile Text.isDigit
  let n := Text.natOfDigits (ds.filterMap Text.digitValue?)
  if ds.isEmpty then .ok (none, cs)
  else if largest < n then fail "Too many decimal digits in format string"
  else .ok (some n, cs.drop ds.length)

/-- Past a character if it stands at the head of a text. -/
def flag (c : Char) (cs : List Char) : Bool × List Char :=
  match cs with
  | c' :: rest => if c' = c then (true, rest) else (false, cs)
  | [] => (false, cs)

/-- The fill and the side at the head of a layout. -/
def fillAndAlign : List Char → Option Char × Option Char × List Char
  | f :: a :: rest =>
    if isAlign a then (some f, some a, rest)
    else if isAlign f then (none, some f, a :: rest)
    else (none, none, f :: a :: rest)
  | [a] => if isAlign a then (none, some a, []) else (none, none, [a])
  | [] => (none, none, [])

/-- A character as it is named in a message about a kind that does not exist. -/
def shownCode (c : Char) : String :=
  if ' ' < c ∧ c < '\x7f' then c.toString else "\\x" ++ Text.hex c.toNat

/-- The **layout that a text describes**, for a value of a kind. -/
def parse (valueKind : String) (cs : List Char) : Except Failure Layout := do
  let (fill, align, rest) := fillAndAlign cs
  let (sign, rest) := match rest with
    | c :: more => if c = '+' || c = '-' || c = ' ' then (some c, more) else (none, rest)
    | [] => (none, [])
  let (unsignedZero, rest) := flag 'z' rest
  let (marked, rest) := flag '#' rest
  let (zeros, rest) := if fill.isNone then flag '0' rest else (false, rest)
  let (width, rest) ← number rest
  let (comma, rest) := flag ',' rest
  let (underscore, rest) := flag '_' rest
  if (comma && underscore) || (underscore && (flag ',' rest).1) then
    fail "Cannot specify both ',' and '_'."
  let separator := if comma then some ',' else if underscore then some '_' else none
  let (pointed, rest) := flag '.' rest
  let (precision, rest) ← if pointed then number rest else pure (none, rest)
  if pointed && precision.isNone then fail "Format specifier missing precision"
  if 1 < rest.length then
    fail ("Invalid format specifier '" ++ String.ofList cs ++ "' for object of type '" ++
      valueKind ++ "'")
  let kind := rest.head?
  match separator with
  | some s =>
    let k := kind.getD (if valueKind = "str" then 's' else 'd')
    let grouped := "defgEG%F".toList.contains k || (s == '_' && "boxX".toList.contains k)
    unless grouped do
      fail ("Cannot specify '" ++ s.toString ++ "' with '" ++ shownCode k ++ "'.")
  | none => pure ()
  return ⟨fill, align, sign, unsignedZero, marked, zeros, width.getD 0, separator, precision, kind⟩

/-- A failure about a kind that values of a kind do not have. -/
def unknownKind {α : Type} (valueKind : String) (c : Char) : Except Failure α :=
  fail ("Unknown format code '" ++ shownCode c ++ "' for object of type '" ++ valueKind ++ "'")

/-- A text with another one **on both sides of it**, so that it fills the width. -/
def pad (l : Layout) (standard : Char) (fill : Char) (head body : List Char) : List Char :=
  let missing := l.width - (head.length + body.length)
  let filled (n : Nat) : List Char := List.replicate n fill
  match l.align.getD standard with
  | '<' => head ++ body ++ filled missing
  | '^' => filled (missing / 2) ++ head ++ body ++ filled (missing - missing / 2)
  | '=' => head ++ filled missing ++ body
  | _ => filled missing ++ head ++ body

/-! ### Texts -/

/-- A **text laid out**. -/
def applyText (l : Layout) (s : String) : Except Failure String := do
  match l.kind with
  | some 's' | none => pure ()
  | some c => unknownKind "str" c
  match l.sign with
  | some ' ' => fail "Space not allowed in string format specifier"
  | some _ => fail "Sign not allowed in string format specifier"
  | none => pure ()
  if l.unsignedZero then
    fail "Negative zero coercion (z) not allowed in string format specifier"
  if l.marked then fail "Alternate form (#) not allowed in string format specifier"
  if l.align = some '=' then fail "'=' alignment not allowed in string format specifier"
  let cs := match l.precision with
    | some n => s.toList.take n
    | none => s.toList
  return String.ofList (l.pad '<' (l.fill.getD (if l.zeros then '0' else ' ')) [] cs)

/-! ### Numbers -/

/-- Digits, last first, in **groups** of `size` with a separator between them, filled up with zeros
to a width. The result is in order; `written` digits of the group are there already. -/
def group (size : Nat) (separator : Char) :
    (fuel : Nat) → (written width : Nat) → List Char → List Char → List Char
  | 0, _, _, _, out => out
  | fuel + 1, written, width, ds, out =>
    match ds with
    | [] =>
      if out.length < width then
        if written = size then group size separator fuel 0 width [] (separator :: out)
        else group size separator fuel (written + 1) width [] ('0' :: out)
      else if out.head? = some separator then '0' :: out else out
    | d :: rest =>
      if written = size then group size separator fuel 0 width (d :: rest) (separator :: out)
      else group size separator fuel (written + 1) width rest (d :: out)

/-- The parts of a **number laid out**: whether it is negative, the mark of its base, its digits
before the point, and what follows them. -/
structure Digits where
  negative : Bool
  base : List Char
  whole : List Char
  rest : List Char

/-- A number from its parts; the groups of its digits have a size. -/
def applyDigits (l : Layout) (size : Nat) (d : Digits) : String :=
  let sign : List Char :=
    if d.negative then ['-']
    else match l.sign with
      | some '+' => ['+']
      | some ' ' => [' ']
      | _ => []
  let head := sign ++ d.base
  let fill := l.fill.getD (if l.zeros then '0' else ' ')
  let standard := if l.zeros then '=' else '>'
  let filled : Bool := fill == '0' && l.align.getD standard == '='
  let whole :=
    match l.separator with
    | none => d.whole
    | some s =>
      let width := if filled then l.width - (head.length + d.rest.length) else 0
      group size s (2 * (d.whole.length + width) + 2) 0 width d.whole.reverse []
  String.ofList (l.pad standard fill head (whole ++ d.rest))

/-- The digits of a number in a base. -/
def digitsIn (base n : Nat) : List Char := (Text.digitsIn base n).map Text.hexDigit

/-- An **integer laid out** in a base. -/
def applyInteger (l : Layout) (n : Int) : Except Failure String := do
  if l.precision.isSome then fail "Precision not allowed in integer format specifier"
  if l.unsignedZero then
    fail "Negative zero coercion (z) not allowed in integer format specifier"
  let mark (c : Char) : List Char := if l.marked then ['0', c] else []
  let whole (base : Nat) := digitsIn base n.natAbs
  let parts (base : List Char) (digits : List Char) : Digits := ⟨n < 0, base, digits, []⟩
  match l.kind with
  | some 'b' => return l.applyDigits 4 (parts (mark 'b') (whole 2))
  | some 'o' => return l.applyDigits 4 (parts (mark 'o') (whole 8))
  | some 'x' => return l.applyDigits 4 (parts (mark 'x') (whole 16))
  | some 'X' => return l.applyDigits 4 (parts (mark 'X') ((whole 16).map Char.toUpper))
  | some 'c' =>
    if l.sign.isSome then fail "Sign not allowed with integer format specifier 'c'"
    if l.marked then fail "Alternate form (#) not allowed with integer format specifier 'c'"
    if n < 0 ∨ 0x110000 ≤ n then
      throw (.custom "OverflowError" "%c arg not in range(0x110000)")
    return l.applyDigits 3 ⟨false, [], [Char.ofNat n.toNat], []⟩
  | _ => return l.applyDigits 3 (parts [] (whole 10))

/-- What stands behind the digits before the point: a point where there are digits behind it, or
always. -/
def fraction (pointed : Bool) (ds : List Char) : List Char :=
  if ds.isEmpty && !pointed then [] else '.' :: ds

/-- Digits without the zeros at their end. -/
def trimZeros (ds : List Char) : List Char := (ds.reverse.dropWhile (· == '0')).reverse

/-- A magnitude with a number of digits **behind the point**. -/
def fixedDigits (places : Nat) (q : Rat) : List Char × List Char :=
  let n := (roundHalfEven (q * Nat.pow 10 places)).toNat
  let ds := (Text.padLeft (places + 1) '0' (toString n)).toList
  (ds.take (ds.length - places), ds.drop (ds.length - places))

/-- A magnitude with a number of **significant digits**, and the exponent of the first. -/
def significantDigits (count : Nat) (q : Rat) : List Char × Int :=
  if q = 0 then (List.replicate count '0', 0)
  else
    let e := Decimal.floorLog10 q
    let n := (roundHalfEven (q / Decimal.pow10 (e - count + 1))).toNat
    let ds := (toString n).toList
    (ds.take count, e + (ds.length - count : Nat))

/-- Significant digits in the notation that suits the exponent: positional from `1e-4` up to
`10 ^ limit`. -/
def generalDigits (ds : List Char) (e : Int) (limit : Int) (pointed trimmed dotZero : Bool) :
    List Char × List Char :=
  let trim (ds : List Char) : List Char := if trimmed then trimZeros ds else ds
  if e < -4 ∨ limit ≤ e then
    (ds.take 1, fraction pointed (trim (ds.drop 1)) ++ (Decimal.exponentText 2 e).toList)
  else
    let (whole, rest) :=
      if e < 0 then (['0'], List.replicate (e.natAbs - 1) '0' ++ ds)
      else
        let n := e.toNat + 1
        (ds.take n ++ List.replicate (n - ds.length) '0', ds.drop n)
    let rest := trim rest
    (whole, if rest.isEmpty && dotZero then ['.', '0'] else fraction pointed rest)

/-- The digits of a magnitude for a kind of notation. -/
def realDigits (l : Layout) (q : Rat) : List Char × List Char :=
  let places := l.precision.getD 6
  match l.kind.map Char.toLower with
  | some 'f' | some '%' =>
    let (whole, rest) := fixedDigits places q
    (whole, fraction l.marked rest)
  | some 'e' =>
    let (ds, e) := significantDigits (places + 1) q
    (ds.take 1, fraction l.marked (ds.drop 1) ++ (Decimal.exponentText 2 e).toList)
  | some _ =>
    let count := max 1 places
    let (ds, e) := significantDigits count q
    generalDigits ds e count l.marked (!l.marked) false
  | none =>
    match l.precision with
    | some places =>
      let count := max 1 places
      let (ds, e) := significantDigits count q
      generalDigits ds e (count - 1) l.marked (!l.marked) true
    | none =>
      let text := (Datum.finite false q).text Precision.double.format
      let whole := text.toList.takeWhile Char.isDigit
      let rest := text.toList.drop whole.length
      (whole, if l.marked && rest.head? ≠ some '.' then '.' :: rest else rest)

/-- A **floating-point number laid out**. -/
def applyReal (l : Layout) (x : Datum) : Except Failure String := do
  match l.kind with
  | none => pure ()
  | some c => unless "eEfFgGn%".toList.contains c do unknownKind "float" c
  let fmt := Precision.double.format
  let percent : Bool := l.kind = some '%'
  let x := if percent then x.mul fmt (.finite false 100) else x
  let upper : Bool := l.kind.any fun c => c == 'E' || c == 'F' || c == 'G'
  let cased (cs : List Char) : List Char := if upper then cs.map Char.toUpper else cs
  let (whole, rest, isZero) : List Char × List Char × Bool :=
    match x with
    | .nan => ([], "nan".toList, false)
    | .infinite _ => ([], "inf".toList, false)
    | .finite _ q =>
      let (whole, rest) := l.realDigits q
      let mantissa := rest.takeWhile fun c => c != 'e'
      (whole, rest, (whole ++ mantissa).all fun c => c == '0' || c == '.')
  let negative := x.isNegative && !(l.unsignedZero && isZero)
  let rest := cased rest ++ if percent then ['%'] else []
  return l.applyDigits 3 ⟨negative, [], whole, rest⟩

/-- A number laid out: of the kinds of notation, some are for integers and some for others. -/
def applyNumber (l : Layout) (valueKind : String) (n : Int) : Except Failure String :=
  match l.kind with
  | none => l.applyInteger n
  | some c =>
    if "bcdoxXn".toList.contains c then l.applyInteger n
    else if "eEfFgG%".toList.contains c then
      match Datum.ofRat Precision.double.format false n with
      | .infinite _ => .error .integerOverflow
      | x => l.applyReal x
    else unknownKind valueKind c

/-- A **value laid out** as a text says; an empty text says nothing. -/
def apply (cs : List Char) (d : Document) : Except Failure String :=
  if cs.isEmpty then .ok d.shown
  else
    match d with
    | .text s => do (← parse "str" cs).applyText s
    | .integer n => do (← parse "int" cs).applyNumber "int" n
    | .truth b => do (← parse "bool" cs).applyNumber "bool" (if b then 1 else 0)
    | .real x => do (← parse "float" cs).applyReal x
    | d => .error (.wrongKind ("no layout for " ++ kindName d))

end Layout

end Elementary
