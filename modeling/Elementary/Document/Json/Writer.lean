import Elementary.Document.Basic

/-!
# Documents written in JSON

A document is written with one element or entry on a line, each level four spaces further to the
right. Only printable ASCII characters are written: the others are escaped by their number, those
beyond the first plane by two numbers. A record is written as the map of its fields.

## Main definitions

* `Json.string`: a text between quotes.
* `Json.write`: a document as text.
-/

namespace Elementary.Json

/-- An escape by number, always of four digits. -/
def escape (n : Nat) : List Char :=
  '\\' :: 'u' :: (Text.padLeft 4 '0' (Text.hex n)).toList

/-- How a **character** stands between quotes. -/
def escaped (c : Char) : List Char :=
  if c = '"' then ['\\', '"']
  else if c = '\\' then ['\\', '\\']
  else if c = '\n' then ['\\', 'n']
  else if c = '\r' then ['\\', 'r']
  else if c = '\t' then ['\\', 't']
  else if c = '\x08' then ['\\', 'b']
  else if c = '\x0c' then ['\\', 'f']
  else if 0x20 ≤ c.toNat ∧ c.toNat ≤ 0x7e then [c]
  else if c.toNat < 0x10000 then escape c.toNat
  else
    let n := c.toNat - 0x10000
    escape (0xd800 + n / 0x400) ++ escape (0xdc00 + n % 0x400)

/-- A text **between quotes**. -/
def string (cs : List Char) : List Char := '"' :: cs.flatMap escaped ++ ['"']

/-- A new line, `level` levels to the right. -/
def newLine (level : Nat) : List Char := '\n' :: List.replicate (4 * level) ' '

/-- The text of a number that is not exact. -/
def real : Datum → String
  | .nan => "NaN"
  | .infinite negative => if negative then "-Infinity" else "Infinity"
  | x => x.text Precision.double.format

/-- The text of a key. -/
def key : Document → List Char
  | .null => "null".toList
  | .truth b => (if b then "true" else "false").toList
  | .real x => (real x).toList
  | d => d.shown.toList

mutual

/-- A document **written at a level**. -/
def writeAt (level : Nat) : Document → List Char
  | .null => "null".toList
  | .truth b => (if b then "true" else "false").toList
  | .integer n => (toString n).toList
  | .real x => (real x).toList
  | .text s => string s.toList
  | .list [] => "[]".toList
  | .list (d :: rest) =>
    '[' :: newLine (level + 1) ++ writeAt (level + 1) d ++ writeItems level rest
  | .map entries | .record _ entries => writeMap level entries

/-- The elements of a list behind the first, and the bracket that closes the list. -/
def writeItems (level : Nat) : List Document → List Char
  | [] => newLine level ++ [']']
  | d :: rest =>
    ',' :: newLine (level + 1) ++ writeAt (level + 1) d ++ writeItems level rest

/-- The entries of a map between braces. -/
def writeMap (level : Nat) : List (Document × Document) → List Char
  | [] => "\x7b\x7d".toList
  | (k, v) :: rest =>
    '{' :: newLine (level + 1) ++ string (key k) ++ ':' :: ' ' :: writeAt (level + 1) v ++
      writeEntries level rest

/-- The entries of a map behind the first, and the brace that closes the map. -/
def writeEntries (level : Nat) : List (Document × Document) → List Char
  | [] => newLine level ++ ['}']
  | (k, v) :: rest =>
    ',' :: newLine (level + 1) ++ string (key k) ++ ':' :: ' ' :: writeAt (level + 1) v ++
      writeEntries level rest

end

/-- A document **as text**. -/
def write (d : Document) : String := String.ofList (writeAt 0 d)

end Elementary.Json
