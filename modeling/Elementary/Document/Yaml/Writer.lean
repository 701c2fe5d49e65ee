import Elementary.Document.Yaml.Plain

/-!
# Documents written in YAML

A document is written in block style. The entries of a map inside another value stand two spaces
further to the right; the elements of a list inside a map do not. A text is written plain if it
reads back as that text, else in single quotes, else, if it holds special characters, in double
quotes. A text that passes the eightieth column is continued on the next line.

## Main definitions

* `Yaml.Style`, `Yaml.styleOf`: how a text may be written.
* `Yaml.scalar`: a text in its style, folded.
* `Yaml.write`: a document as text.
-/

namespace Elementary.Yaml

/-! ### Styles -/

/-- How a text is **written**. -/
inductive Style where
  | plain
  | single
  | double
  deriving DecidableEq, Repr

/-- A character that has to be escaped: one that is neither printable ASCII nor the end of a
line. -/
def isSpecial (c : Char) : Bool := !(c == '\n' || (' ' ≤ c && c ≤ '~'))

/-- A space, a tab, or the end of a line. -/
def isBreakOrGap (c : Char) : Bool :=
  c == ' ' || c == '\t' || c == '\r' || c == '\n' || c == '\x85' || c == '\u2028' ||
    c == '\u2029' || c == '\x00'

/-- Whether a text ends here, or goes on with white space. -/
def endsOrGap : List Char → Bool
  | [] => true
  | c :: _ => isBreakOrGap c

/-- Whether marks behind the first character **would be taken for structure**. -/
def hasInnerMark : (behindGap : Bool) → List Char → Bool
  | _, [] => false
  | behindGap, c :: rest =>
    (c == ':' && endsOrGap rest) || (c == '#' && behindGap) || hasInnerMark (isBreakOrGap c) rest

/-- The marks that may not begin a plain text. -/
def leadingMarks : List Char :=
  ['#', ',', '[', ']', '{', '}', '&', '*', '!', '|', '>', '\'', '"', '%', '@', Char.ofNat 0x60]

/-- Whether a plain text **would be taken for structure**. -/
def hasMark : List Char → Bool
  | [] => false
  | c :: rest =>
    let cs := c :: rest
    cs.take 3 == ['-', '-', '-'] || cs.take 3 == ['.', '.', '.'] || leadingMarks.contains c ||
      ((c == '?' || c == ':' || c == '-') && endsOrGap rest) || hasInnerMark (isBreakOrGap c) rest

/-- A space or the end of a line. -/
def isEdge (c : Char) : Bool := c == ' ' || c == '\n'

/-- Whether a space stands next to the end of a line. -/
def hasRaggedBreak : List Char → Bool
  | a :: b :: rest =>
    (a == ' ' && b == '\n') || (a == '\n' && b == ' ') || hasRaggedBreak (b :: rest)
  | _ => false

/-- The **style of a text**. -/
def styleOf (s : String) : Style :=
  let cs := s.toList
  if cs.any isSpecial then .double
  else if kindOf s = .text && !hasMark cs && !cs.contains '\n' && !(cs.head?.any isEdge) &&
      !(cs.getLast?.any isEdge) then .plain
  else if hasRaggedBreak cs then .double
  else .single

/-! ### Folding -/

/-- The column behind which a text is continued on the next line. -/
def width : Nat := 80

/-- A row of spaces. -/
def spaces (n : Nat) : List Char := List.replicate n ' '

/-- A new line that begins at a column. -/
def lineAt (indent : Nat) : List Char := '\n' :: spaces indent

/-- A character within single quotes. -/
def singleChar (c : Char) : List Char := if c = '\'' then ['\'', '\''] else [c]

/-- A text from a column on, **folded at single spaces**; `gap` spaces and `breaks` ends of lines
are not yet written. Each end of a line is written twice in its first place. A space at either end
of the text is not folded. -/
def foldFrom (char : Char → List Char) (width indent : Nat) :
    (column gap breaks : Nat) → (inside : Bool) → List Char → List Char
  | _, gap, breaks, _, [] =>
    spaces gap ++ if breaks = 0 then [] else List.replicate breaks '\n' ++ lineAt indent
  | column, gap, breaks, inside, c :: rest =>
    if c = ' ' then foldFrom char width indent column (gap + 1) breaks inside rest
    else if c = '\n' then foldFrom char width indent column gap (breaks + 1) inside rest
    else
      let written := char c
      if breaks ≠ 0 then
        List.replicate breaks '\n' ++ lineAt indent ++ written ++
          foldFrom char width indent (indent + written.length) 0 0 true rest
      else if gap = 1 ∧ inside ∧ width < column then
        lineAt indent ++ written ++
          foldFrom char width indent (indent + written.length) 0 0 true rest
      else
        spaces gap ++ written ++
          foldFrom char width indent (column + gap + written.length) 0 0 true rest

/-- Letters that stand behind a backslash for special characters. -/
def shortEscapes : List (Char × Char) :=
  [('\x00', '0'), ('\x07', 'a'), ('\x08', 'b'), ('\t', 't'), ('\n', 'n'), ('\x0b', 'v'),
    ('\x0c', 'f'), ('\r', 'r'), ('\x1b', 'e'), ('"', '"'), ('\\', '\\'), ('\x85', 'N'),
    ('\xa0', '_'), ('\u2028', 'L'), ('\u2029', 'P')]

/-- A number in hexadecimal, in capital letters. -/
def hexUpper (digits n : Nat) : List Char :=
  (Text.padLeft digits '0' (Text.hex n)).toList.map Char.toUpper

/-- The escape of a character within **double quotes**, if it needs one. -/
def escape? (c : Char) : Option (List Char) :=
  match shortEscapes.lookup c with
  | some e => some ['\\', e]
  | none =>
    if ' ' ≤ c ∧ c ≤ '~' then none
    else if c.toNat ≤ 0xff then some ('\\' :: 'x' :: hexUpper 2 c.toNat)
    else if c.toNat ≤ 0xffff then some ('\\' :: 'u' :: hexUpper 4 c.toNat)
    else some ('\\' :: 'U' :: hexUpper 8 c.toNat)

/-- A text of `length` characters within double quotes from the `index`th on, **folded at spaces
and behind escapes** by a backslash at the end of a line. The characters in `pending`, last first,
are not yet written. A line that begins with a space has a backslash in front of it. -/
def doubleFrom (width indent length : Nat) :
    (index column : Nat) → (pending : List Char) → List Char → List Char
  | _, _, pending, [] => pending.reverse
  | index, column, pending, c :: rest =>
    let isInner : Bool := 0 < index && index + 1 < length
    let continued (before : List Char) (spaceFirst : Bool) : List Char :=
      before ++ '\\' :: lineAt indent ++ if spaceFirst then ['\\'] else []
    let start (spaceFirst : Bool) : Nat := if spaceFirst then indent + 1 else indent
    match escape? c with
    | some e =>
      let written := pending.reverse ++ e
      let column := column + written.length
      if isInner && width + 1 < column then
        let spaceFirst := rest.head? == some ' '
        continued written spaceFirst ++
          doubleFrom width indent length (index + 1) (start spaceFirst) [] rest
      else written ++ doubleFrom width indent length (index + 1) column [] rest
    | none =>
      if isInner && (c == ' ' || pending.isEmpty) && width < column + pending.length then
        let spaceFirst := c == ' '
        continued pending.reverse spaceFirst ++
          doubleFrom width indent length (index + 1) (start spaceFirst) [c] rest
      else doubleFrom width indent length (index + 1) column (c :: pending) rest

/-- A **text in its style** from a column on, its further lines at `indent`. -/
def scalar (width indent column : Nat) (s : String) : List Char :=
  let cs := s.toList
  match styleOf s with
  | .plain => foldFrom (fun c => [c]) width indent column 0 0 true cs
  | .single => '\'' :: foldFrom singleChar width indent (column + 1) 0 0 false cs ++ ['\'']
  | .double => '"' :: doubleFrom width indent cs.length 0 (column + 1) [] cs ++ ['"']

/-! ### Documents -/

/-- The text of a number that is not exact. -/
def real : Datum → String
  | .nan => ".nan"
  | .infinite negative => if negative then "-.inf" else ".inf"
  | x =>
    let s := x.text Precision.double.format
    match s.contains '.', s.splitOn "e" with
    | false, [digits, exponent] => digits ++ ".0e" ++ exponent
    | _, _ => s

/-- A value without parts. -/
def atom (width indent column : Nat) : Document → List Char
  | .null => "null".toList
  | .truth b => (if b then "true" else "false").toList
  | .integer n => (toString n).toList
  | .real x => (real x).toList
  | .text s => scalar width indent column s
  | _ => []

/-- A key with its colon; it is not folded. -/
def key (d : Document) : List Char := atom (12 * d.shown.length + 12) 0 0 d ++ [':']

/-- A tag, in its short form if it is one of the common tags. -/
def tagText (tag : String) : List Char :=
  match Json.afterWord? "tag:yaml.org,2002:".toList tag.toList with
  | some rest => '!' :: '!' :: rest
  | none => tag.toList

mutual

/-- The value of an entry of a map at `indent`, behind the colon at a column. -/
def entryValue (indent column : Nat) : Document → List Char
  | .list [] => " []".toList
  | .list (d :: rest) => listItems indent (d :: rest)
  | .map [] => " \x7b\x7d".toList
  | .map (e :: rest) => mapEntries (indent + 2) (e :: rest)
  | .record tag [] => ' ' :: tagText tag ++ " \x7b\x7d".toList
  | .record tag (e :: rest) => ' ' :: tagText tag ++ mapEntries (indent + 2) (e :: rest)
  | d => ' ' :: atom width (indent + 2) (column + 1) d

/-- The entries of a map, each on a new line at `indent`. -/
def mapEntries (indent : Nat) : List (Document × Document) → List Char
  | [] => []
  | (k, v) :: rest =>
    lineAt indent ++ key k ++ entryValue indent (indent + (key k).length) v ++
      mapEntries indent rest

/-- The elements of a list, each on a new line at `indent`. -/
def listItems (indent : Nat) : List Document → List Char
  | [] => []
  | d :: rest => lineAt indent ++ '-' :: item indent d ++ listItems indent rest

/-- An element behind its dash at `indent`. The first part of a list or of a map without a tag
stands on the line of the dash. -/
def item (indent : Nat) : Document → List Char
  | .list [] => " []".toList
  | .list (d :: rest) => " -".toList ++ item (indent + 2) d ++ listItems (indent + 2) rest
  | .map [] => " \x7b\x7d".toList
  | .map ((k, v) :: rest) =>
    ' ' :: key k ++ entryValue (indent + 2) (indent + 2 + (key k).length) v ++
      mapEntries (indent + 2) rest
  | .record tag [] => ' ' :: tagText tag ++ " \x7b\x7d".toList
  | .record tag (e :: rest) => ' ' :: tagText tag ++ mapEntries (indent + 2) (e :: rest)
  | d => ' ' :: atom width (indent + 2) (indent + 2) d

end

/-- A whole document, which begins at the first column. -/
def writeRoot : Document → List Char
  | .list [] => "[]".toList
  | .list (d :: rest) => (listItems 0 (d :: rest)).drop 1
  | .map [] => "\x7b\x7d".toList
  | .map (e :: rest) => (mapEntries 0 (e :: rest)).drop 1
  | .record tag [] => tagText tag ++ " \x7b\x7d".toList
  | .record tag (e :: rest) => tagText tag ++ mapEntries 0 (e :: rest)
  | d => atom width 2 0 d

/-- A document **as text**. -/
def write (d : Document) : String := String.ofList (writeRoot d ++ ['\n'])

end Elementary.Yaml
