import Elementary.Document.Json.Reader

/-!
# Plain scalars of YAML

A scalar that is written without quotes stands for a text, unless its form is that of another
value: nothing, a truth value, a number, a point in time, or one of two special keys. Integers may
be written in base two, eight, ten, sixteen or sixty, and digits may be separated by underscores.

## Main definitions

* `Yaml.Kind`, `Yaml.kindOf`: the kind of value that a plain scalar stands for.
* `Yaml.integerOf`, `Yaml.realOf`, `Yaml.truthOf?`: the values of such scalars.
-/

namespace Elementary.Yaml

/-- The **kinds of values** that a plain scalar may stand for. -/
inductive Kind where
  | text
  | null
  | truth
  | integer
  | real
  | timestamp
  | merge
  | value
  deriving DecidableEq, Repr

/-- The texts of nothing. -/
def nulls : List String := ["", "~", "null", "Null", "NULL"]

/-- The texts of **truth values**. -/
def truths : List (String × Bool) :=
  let spelled (b : Bool) (names : List String) := names.map fun name => (name, b)
  spelled true ["yes", "Yes", "YES", "true", "True", "TRUE", "on", "On", "ON"] ++
    spelled false ["no", "No", "NO", "false", "False", "FALSE", "off", "Off", "OFF"]

/-- A decimal digit or an underscore. -/
def isDigitMark (c : Char) : Bool := c.isDigit || c == '_'

/-- A digit of base sixteen or an underscore. -/
def isHexMark (c : Char) : Bool := (Json.hexValue? c).isSome || c == '_'

/-- A text without the sign at its head. -/
def unsigned (cs : List Char) : List Char := (Literal.sign cs).2

/-- Pieces of a text between occurrences of a mark. -/
def pieces (mark : Char) : List Char → List (List Char)
  | [] => [[]]
  | c :: rest =>
    if c = mark then [] :: pieces mark rest
    else
      match pieces mark rest with
      | piece :: more => (c :: piece) :: more
      | [] => [[c]]

/-- One or two digits below sixty. -/
def isSixtieth : List Char → Bool
  | [a] => a.isDigit
  | [a, b] => '0' ≤ a && a ≤ '5' && b.isDigit
  | _ => false

/-- A text of digits in base sixty: groups behind colons. The first group satisfies a condition. -/
def isSexagesimal (first : List Char → Bool) (cs : List Char) : Bool :=
  match pieces ':' cs with
  | head :: group :: more => first head && (group :: more).all isSixtieth
  | _ => false

/-- The form of an **integer**. -/
def isInteger (cs : List Char) : Bool :=
  let nonZero (cs : List Char) : Bool :=
    match cs with
    | c :: rest => '1' ≤ c && c ≤ '9' && rest.all isDigitMark
    | [] => false
  match unsigned cs with
  | ['0'] => true
  | '0' :: 'b' :: c :: rest => (c :: rest).all fun c => c == '0' || c == '1' || c == '_'
  | '0' :: 'x' :: c :: rest => (c :: rest).all isHexMark
  | '0' :: rest => rest.all fun c => ('0' ≤ c && c ≤ '7') || c == '_'
  | cs => nonZero cs || isSexagesimal nonZero cs

/-- Nothing, or a signed exponent. -/
def isExponentPart : List Char → Bool
  | [] => true
  | e :: s :: c :: rest => (e == 'e' || e == 'E') && (s == '+' || s == '-') &&
      (c :: rest).all Char.isDigit
  | _ => false

/-- Digits that begin with one. -/
def isDigitRow : List Char → Bool
  | c :: rest => c.isDigit && rest.all isDigitMark
  | [] => false

/-- The form of a **number with a point**. -/
def isReal (cs : List Char) : Bool :=
  let body := unsigned cs
  let whole := body.takeWhile (· != '.')
  match body.dropWhile (· != '.') with
  | _ :: behind =>
    let exponent := behind.dropWhile isDigitMark
    if whole.isEmpty then
      [".inf", ".Inf", ".INF"].contains (String.ofList body) ||
        [".nan", ".NaN", ".NAN"].contains (String.ofList cs) ||
        (body.length == cs.length && isDigitRow (behind.takeWhile isDigitMark) &&
          isExponentPart exponent)
    else (isDigitRow whole && isExponentPart exponent) ||
      (isSexagesimal isDigitRow whole && exponent.isEmpty)
  | [] => false

/-- What follows at least `low` and at most `high` digits. -/
def afterDigits (low high : Nat) (cs : List Char) : Option (List Char) :=
  let n := ((cs.take high).takeWhile Char.isDigit).length
  if low ≤ n then some (cs.drop n) else none

/-- What follows a mark. -/
def after (mark : Char) : List Char → Option (List Char)
  | c :: rest => if c = mark then some rest else none
  | [] => none

/-- White space within a line. -/
def isGap (c : Char) : Bool := c == ' ' || c == '\t'

/-- Nothing, or a difference from universal time behind white space. -/
def isZone (cs : List Char) : Bool :=
  match cs.dropWhile isGap with
  | [] => cs.isEmpty
  | ['Z'] => true
  | s :: rest =>
    (s == '+' || s == '-') &&
      match afterDigits 1 2 rest with
      | some [] => true
      | some rest => (after ':' rest >>= afterDigits 2 2) == some []
      | none => false

/-- A time of day, and then a zone. -/
def isTime (cs : List Char) : Bool :=
  let clock := do
    afterDigits 2 2 (← after ':' (← afterDigits 2 2 (← after ':' (← afterDigits 1 2 cs))))
  match clock with
  | some ('.' :: rest) => isZone (rest.dropWhile Char.isDigit)
  | some rest => isZone rest
  | none => false

/-- The form of a **date**, or of a date with a time. -/
def isTimestamp (cs : List Char) : Bool :=
  let date (low : Nat) : Option (List Char) := do
    afterDigits low 2 (← after '-' (← afterDigits low 2 (← after '-' (← afterDigits 4 4 cs))))
  date 2 == some [] ||
    match date 1 with
    | some (c :: rest) =>
      if c == 'T' || c == 't' then isTime rest
      else isGap c && isTime (rest.dropWhile isGap)
    | _ => false

/-- The **kind of value** that a plain scalar stands for. -/
def kindOf (s : String) : Kind :=
  let cs := s.toList
  if nulls.contains s then .null
  else if (truths.lookup s).isSome then .truth
  else if isReal cs then .real
  else if isInteger cs then .integer
  else if isTimestamp cs then .timestamp
  else if s = "<<" then .merge
  else if s = "=" then .value
  else .text

/-! ### Values -/

/-- The truth value that a text names, whatever the case of its letters. -/
def truthOf? (s : String) : Option Bool := truths.lookup s.toLower

/-- The number that digits denote in a base. -/
def natIn (base : Nat) (cs : List Char) : Nat :=
  cs.foldl (fun n c => base * n + (Json.hexValue? c).getD 0) 0

/-- The **integer** that a text of that form denotes. -/
def integerOf (s : String) : Int :=
  let (negative, cs) := Literal.sign (s.toList.filter (· != '_'))
  Literal.signed negative <|
    match cs with
    | '0' :: 'b' :: rest => natIn 2 rest
    | '0' :: 'x' :: rest => natIn 16 rest
    | '0' :: rest => natIn 8 rest
    | cs => ((pieces ':' cs).map (natIn 10)).foldl (fun n d => 60 * n + d) 0

/-- The **floating-point number** that a text of that form denotes. -/
def realOf (s : String) : Datum :=
  let (negative, cs) := Literal.sign (s.toLower.toList.filter (· != '_'))
  match cs with
  | ['.', 'i', 'n', 'f'] => .infinite negative
  | ['.', 'n', 'a', 'n'] => .nan
  | cs =>
    match pieces ':' cs with
    | [_] =>
      let whole := cs.takeWhile Char.isDigit
      let (fraction, rest) := Json.fractionDigits (cs.dropWhile Char.isDigit)
      let rest := if rest.head? = some '.' then rest.tail else rest
      let exponent := (Json.exponent? rest).1.getD 0
      Json.double negative ((Json.digits whole).1 ++ fraction) (exponent - fraction.length)
    | groups =>
      let q := groups.foldl (fun q group =>
        let (whole, rest) := (group.takeWhile Char.isDigit, group.dropWhile Char.isDigit)
        let fraction := (Json.fractionDigits rest).1
        60 * q + (Text.natOfDigits ((Json.digits whole).1 ++ fraction) : Rat) /
          Nat.pow 10 fraction.length) (0 : Rat)
      Datum.ofMagnitude Precision.double.format negative q

end Elementary.Yaml
