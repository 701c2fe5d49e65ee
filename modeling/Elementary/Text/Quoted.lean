import Elementary.Text.Printable

/-!
# Quoted text

A text between quotes, in the form in which messages and source code show it. The quote is the
apostrophe, unless the text holds an apostrophe and no double quote. The chosen quote and the
backslash are escaped by a backslash, the usual controls have their letter, and every other
character that is not printable is shown by its number in the shortest of three widths.

## Main definitions

* `Text.quoted`: the quoted form.
* `Text.hex`: hexadecimal text of a natural number.
-/

namespace Elementary.Text

/-- The hexadecimal digit of a value below sixteen, in lower case. -/
def hexDigit (n : Nat) : Char :=
  if n < 10 then Char.ofNat (48 + n) else Char.ofNat (87 + n)

/-- The digits of `n` in base `base`, the highest first, at least one. -/
def digitsIn (base n : Nat) : List Nat := go n (n + 1) []
where
  /-- Puts the digits of `n` in front of `tail`; `fuel` bounds their number. -/
  go (n : Nat) : (fuel : Nat) → (tail : List Nat) → List Nat
    | 0, tail => tail
    | fuel + 1, tail =>
      if n < base then n :: tail else go (n / base) fuel (n % base :: tail)

/-- Hexadecimal text of `n`, in lower case and without leading zeros. -/
def hex (n : Nat) : String :=
  if n = 0 then "0" else String.ofList (go n (n.log2 / 4 + 1) [])
where
  /-- Puts the hexadecimal digits of `n` in front of `tail`. -/
  go (n : Nat) : (fuel : Nat) → (tail : List Char) → List Char
    | 0, tail => tail
    | fuel + 1, tail => go (n >>> 4) fuel (hexDigit (n % 16) :: tail)

/-- A signed integer in hexadecimal with its base mark: `0x1f`, `-0x1f`. -/
def hexMarked (n : Int) : String :=
  (if n < 0 then "-0x" else "0x") ++ hex n.natAbs

/-- Text padded on the left with `fill` up to `width` characters. -/
def padLeft (width : Nat) (fill : Char) (s : String) : String :=
  String.ofList (List.replicate (width - s.length) fill) ++ s

/-- How one character stands inside quotes of kind `quote`. -/
def quotedChar (quote c : Char) : String :=
  if c = quote || c = '\\' then String.ofList ['\\', c]
  else if c = '\t' then "\\t"
  else if c = '\n' then "\\n"
  else if c = '\r' then "\\r"
  else if isPrintable c then c.toString
  else if c.toNat < 0x100 then "\\x" ++ padLeft 2 '0' (hex c.toNat)
  else if c.toNat < 0x10000 then "\\u" ++ padLeft 4 '0' (hex c.toNat)
  else "\\U" ++ padLeft 8 '0' (hex c.toNat)

/-- The **quote** that surrounds a text: the apostrophe, unless the text holds an apostrophe and
no double quote. -/
def quoteFor (s : String) : Char :=
  if s.toList.contains '\'' && !s.toList.contains '"' then '"' else '\''

/-- The **quoted form** of a text. -/
def quoted (s : String) : String :=
  let quote := quoteFor s
  quote.toString ++ String.join (s.toList.map (quotedChar quote)) ++ quote.toString

end Elementary.Text
