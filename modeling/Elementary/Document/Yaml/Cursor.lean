import Elementary.Document.Yaml.Writer

/-!
# Positions in a text

A cursor is what is left of a text together with its line and column, by which YAML tells what
belongs together. There are five ends of lines; a carriage return and a line feed are one.

## Main definitions

* `Yaml.Cursor`: the positions.
* `Cursor.advance`, `Cursor.span`: the steps of a cursor.
* `Cursor.lineBreak`: the end of a line at a cursor.
-/

namespace Elementary.Yaml

/-- A **position** in a text, with what is left of it. -/
structure Cursor where
  rest : List Char
  index : Nat
  line : Nat
  column : Nat
  deriving Repr

/-- The mark of the byte order, which takes no column. -/
def byteOrderMark : Char := '\ufeff'

/-- A character that ends a line. -/
def isBreak (c : Char) : Bool :=
  c == '\n' || c == '\r' || c == '\x85' || c == '\u2028' || c == '\u2029'

/-- Whether a text is at the end of a line, or at its own. -/
def endsLine : List Char → Bool
  | [] => true
  | c :: _ => isBreak c

namespace Cursor

/-- The beginning of a text. -/
def start (cs : List Char) : Cursor := ⟨cs, 0, 0, 0⟩

/-- The character at a cursor. -/
def head? (c : Cursor) : Option Char := c.rest.head?

/-- Whether the character at a cursor satisfies a condition. -/
def isAt (c : Cursor) (p : Char → Bool) : Bool := c.rest.head?.any p

/-- Past one character. -/
def next (c : Cursor) : Cursor :=
  match c.rest with
  | [] => c
  | ch :: rest =>
    if isBreak ch && !(ch == '\r' && rest.head? == some '\n') then
      ⟨rest, c.index + 1, c.line + 1, 0⟩
    else ⟨rest, c.index + 1, c.line, if ch = byteOrderMark then c.column else c.column + 1⟩

/-- Past `n` characters. -/
def advance : Nat → Cursor → Cursor
  | 0, c => c
  | n + 1, c => advance n c.next

/-- The characters up to the first that fails a condition, and the cursor behind them. -/
def span (c : Cursor) (p : Char → Bool) : List Char × Cursor :=
  let taken := c.rest.takeWhile p
  (taken, c.advance taken.length)

/-- Past the characters up to the first that fails a condition. -/
def skip (c : Cursor) (p : Char → Bool) : Cursor := (c.span p).2

/-- The **end of a line** at a cursor, as it counts within a text, and the cursor behind it; no
characters if there is none. -/
def lineBreak (c : Cursor) : List Char × Cursor :=
  match c.rest with
  | '\r' :: '\n' :: _ => (['\n'], c.advance 2)
  | ch :: _ =>
    if isBreak ch then
      (if ch = '\u2028' || ch = '\u2029' then [ch] else ['\n'], c.next)
    else ([], c)
  | [] => ([], c)

/-- Whether three characters, alone in their place, stand at a cursor. -/
def isMarker (mark : Char) (c : Cursor) : Bool :=
  match c.rest with
  | x :: y :: z :: rest => x == mark && y == mark && z == mark && endsOrGap rest
  | _ => false

/-- Whether the beginning or the end of a document is marked at a cursor. -/
def isSeparator (c : Cursor) : Bool := c.isMarker '-' || c.isMarker '.'

end Cursor

end Elementary.Yaml
