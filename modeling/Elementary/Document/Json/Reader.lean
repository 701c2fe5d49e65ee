import Elementary.Document.Basic

/-!
# Documents read from JSON

A text is read from left to right, every reader giving what it has read and the rest. White space
may stand between the tokens, but no comma behind a last element, and no control character within
quotes. Numbers may also be written as `NaN`, `Infinity` and `-Infinity`.

## Main definitions

* `Json.skipBlank`, `Json.readString`, `Json.readNumber`: the tokens.
* `Json.readValue`: a value at the head of a text.
* `Json.read`: the document that a text denotes.
-/

namespace Elementary.Json

/-- White space between tokens. -/
def isBlank (c : Char) : Bool := c == ' ' || c == '\t' || c == '\n' || c == '\r'

/-- A text without the white space at its head. -/
def skipBlank : List Char → List Char
  | [] => []
  | c :: rest => if isBlank c then skipBlank rest else c :: rest

/-- The value of a hexadecimal digit. -/
def hexValue? (c : Char) : Option Nat :=
  if '0' ≤ c ∧ c ≤ '9' then some (c.toNat - '0'.toNat)
  else if 'a' ≤ c ∧ c ≤ 'f' then some (c.toNat - 'a'.toNat + 10)
  else if 'A' ≤ c ∧ c ≤ 'F' then some (c.toNat - 'A'.toNat + 10)
  else none

/-- A number of four hexadecimal digits. -/
def readUnit : List Char → Option (Nat × List Char)
  | a :: b :: c :: d :: rest => do
    let a ← hexValue? a
    let b ← hexValue? b
    let c ← hexValue? c
    let d ← hexValue? d
    return (((a * 16 + b) * 16 + c) * 16 + d, rest)
  | _ => none

/-- The character of one letter behind a backslash. -/
def shortEscape? (c : Char) : Option Char :=
  match c with
  | '"' | '\\' | '/' => some c
  | 'b' => some '\x08'
  | 'f' => some '\x0c'
  | 'n' => some '\n'
  | 'r' => some '\r'
  | 't' => some '\t'
  | _ => none

/-- The second number of a pair that stands for one character. -/
def readLowUnit : List Char → Option (Nat × List Char)
  | '\\' :: 'u' :: rest => do
    let (low, rest) ← readUnit rest
    if 0xdc00 ≤ low ∧ low ≤ 0xdfff then return (low, rest) else none
  | _ => none

/-- The character behind a backslash and a `u`: one number, or a pair. Half a pair is replaced. -/
def readEscape (cs : List Char) : Option (Char × List Char) := do
  let (n, rest) ← readUnit cs
  if 0xd800 ≤ n ∧ n ≤ 0xdbff then
    match readLowUnit rest with
    | some (low, rest) =>
      return (Char.ofNat (0x10000 + (n - 0xd800) * 0x400 + (low - 0xdc00)), rest)
    | none => return ('\ufffd', rest)
  else if 0xdc00 ≤ n ∧ n ≤ 0xdfff then return ('\ufffd', rest)
  else return (Char.ofNat n, rest)

/-- The characters of a text **up to its closing quote**, and what follows. -/
def readString : (fuel : Nat) → List Char → Option (List Char × List Char)
  | 0, _ => none
  | _ + 1, [] => none
  | fuel + 1, c :: rest =>
    if c = '"' then some ([], rest)
    else if c = '\\' then
      match rest with
      | [] => none
      | 'u' :: rest => do
        let (c, rest) ← readEscape rest
        let (cs, rest) ← readString fuel rest
        return (c :: cs, rest)
      | e :: rest => do
        let c ← shortEscape? e
        let (cs, rest) ← readString fuel rest
        return (c :: cs, rest)
    else if c.toNat < 0x20 then none
    else do
      let (cs, rest) ← readString fuel rest
      return (c :: cs, rest)

/-- The longest row of digits at the head of a text, as values. -/
def digits : List Char → List Nat × List Char
  | [] => ([], [])
  | c :: rest =>
    if c.isDigit then
      let (ds, rest) := digits rest
      ((c.toNat - '0'.toNat) :: ds, rest)
    else ([], c :: rest)

/-- The digits behind a point, if both are there. -/
def fractionDigits (cs : List Char) : List Nat × List Char :=
  match cs with
  | '.' :: rest =>
    match digits rest with
    | ([], _) => ([], cs)
    | (ds, rest) => (ds, rest)
  | _ => ([], cs)

/-- An exponent, if there is one. -/
def exponent? (cs : List Char) : Option Int × List Char :=
  match cs with
  | c :: rest =>
    if c = 'e' || c = 'E' then
      let (negative, rest) := Literal.sign rest
      match digits rest with
      | ([], _) => (none, cs)
      | (ds, rest) => (some (Literal.signed negative (Text.natOfDigits ds)), rest)
    else (none, cs)
  | [] => (none, cs)

/-- The double that a decimal number rounds to. Far beyond the range no power of ten is needed. -/
def double (negative : Bool) (digits : List Nat) (exponent : Int) : Datum :=
  let n := Text.natOfDigits digits
  if n = 0 then .finite negative 0
  else if 400 < (digits.dropWhile (· == 0)).length + exponent then .infinite negative
  else if (digits.length : Int) + exponent < -400 then .finite negative 0
  else Datum.ofMagnitude Precision.double.format negative ((n : Rat) * (10 : Rat) ^ exponent)

/-- A **number** without its sign: whole unless it has a fraction or an exponent. -/
def readNumber (negative : Bool) (cs : List Char) : Option (Document × List Char) :=
  let whole : List Nat × List Char :=
    match cs with
    | '0' :: rest => ([0], rest)
    | _ => digits cs
  match whole with
  | ([], _) => none
  | (ds, rest) =>
    let (fraction, rest) := fractionDigits rest
    let (exponent, rest) := exponent? rest
    if fraction.isEmpty && exponent.isNone then
      some (.integer (Literal.signed negative (Text.natOfDigits ds)), rest)
    else
      some (.real (double negative (ds ++ fraction) (exponent.getD 0 - fraction.length)), rest)

/-- What follows a word at the head of a text. -/
def afterWord? : List Char → List Char → Option (List Char)
  | [], cs => some cs
  | w :: ws, c :: cs => if w = c then afterWord? ws cs else none
  | _ :: _, [] => none

/-- The words that stand for values. -/
def words : List (List Char × Document) :=
  [("null".toList, .null), ("true".toList, .truth true), ("false".toList, .truth false),
    ("NaN".toList, .real .nan), ("Infinity".toList, .real (.infinite false)),
    ("-Infinity".toList, .real (.infinite true))]

/-- A **value without parts** that is no text. -/
def readAtom (cs : List Char) : Option (Document × List Char) :=
  match words.findSome? fun (w, d) => (afterWord? w cs).map fun rest => (d, rest) with
  | some r => some r
  | none =>
    match cs with
    | '-' :: rest => readNumber true rest
    | _ => readNumber false cs

mutual

/-- A **value** at the head of a text, and what follows. -/
def readValue : (fuel : Nat) → List Char → Option (Document × List Char)
  | 0, _ => none
  | _ + 1, '"' :: rest => do
    let (cs, rest) ← readString (rest.length + 1) rest
    return (.text (String.ofList cs), rest)
  | fuel + 1, '[' :: rest =>
    match skipBlank rest with
    | ']' :: rest => some (.list [], rest)
    | rest => do
      let (items, rest) ← readItems fuel rest
      return (.list items, rest)
  | fuel + 1, '{' :: rest =>
    match skipBlank rest with
    | '}' :: rest => some (.map [], rest)
    | rest => do
      let (entries, rest) ← readEntries fuel rest
      return (.map (Document.entriesOf entries), rest)
  | _ + 1, cs => readAtom cs

/-- The elements of a list up to the bracket that closes it. -/
def readItems : (fuel : Nat) → List Char → Option (List Document × List Char)
  | 0, _ => none
  | fuel + 1, cs => do
    let (d, rest) ← readValue fuel cs
    match skipBlank rest with
    | ',' :: rest =>
      let (items, rest) ← readItems fuel (skipBlank rest)
      return (d :: items, rest)
    | ']' :: rest => return ([d], rest)
    | _ => none

/-- The entries of a map up to the brace that closes it. -/
def readEntries : (fuel : Nat) → List Char → Option (List (Document × Document) × List Char)
  | 0, _ => none
  | fuel + 1, '"' :: rest => do
    let (k, rest) ← readString (rest.length + 1) rest
    match skipBlank rest with
    | ':' :: rest =>
      let (v, rest) ← readValue fuel (skipBlank rest)
      match skipBlank rest with
      | ',' :: rest =>
        let (entries, rest) ← readEntries fuel (skipBlank rest)
        return ((.text (String.ofList k), v) :: entries, rest)
      | '}' :: rest => return ([(.text (String.ofList k), v)], rest)
      | _ => none
    | _ => none
  | _ + 1, _ => none

end

/-- The **document that a text denotes**: one value, with white space around it. -/
def read (s : String) : Except Failure Document :=
  match readValue (2 * s.length + 2) (skipBlank s.toList) with
  | some (d, rest) => if (skipBlank rest).isEmpty then .ok d else .error .malformedJson
  | none => .error .malformedJson

end Elementary.Json
