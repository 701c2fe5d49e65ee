import Elementary.Document.Yaml.Scalar

/-!
# Tokens of YAML

The marks and scalars of a document, with the beginnings and ends of the blocks that the columns
show. A key needs no mark in front of it: whether a scalar is a key is known only when the colon
behind it is found, on the same line and not far away, and then the marks are put in their places.

## Main definitions

* `Yaml.Token`: the tokens.
* `Yaml.Scan`: the state between two tokens, and `Scan.step`.
* `Yaml.tokens`: the tokens of a text, as many as there are before a fault.
-/

namespace Elementary.Yaml

/-- The **tokens**. -/
inductive Token where
  | directive (words : List (List Char))
  | documentStart
  | documentEnd
  | blockList
  | blockMap
  | blockEnd
  | openList
  | closeList
  | openMap
  | closeMap
  | dash
  | comma
  | key
  | value
  | alias (name : List Char)
  | anchor (name : List Char)
  | tag (handle : Option (List Char)) (suffix : List Char)
  | scalar (text : List Char) (isPlain : Bool)
  deriving DecidableEq, Repr

/-- A token that **may turn out to be a key**, and whether it has to. -/
structure PossibleKey where
  position : Nat
  required : Bool
  index : Nat
  line : Nat
  column : Nat

/-- The **state** between two tokens. -/
structure Scan where
  cursor : Cursor
  /-- How many brackets are open. -/
  depth : Nat
  /-- The column of the innermost block, and those of the blocks around it. -/
  indent : Int
  outer : List Int
  /-- Whether a key may begin here. -/
  keyAllowed : Bool
  /-- The possible keys, each with the number of open brackets around it. -/
  keys : List (Nat × PossibleKey)
  tokens : Array Token

namespace Scan

/-- The state at the beginning of a text. -/
def start (cs : List Char) : Scan := ⟨.start cs, 0, -1, [], true, [], #[]⟩

/-- Adds a token. -/
def push (s : Scan) (t : Token) : Scan := { s with tokens := s.tokens.push t }

/-- Adds a token that takes `n` characters. -/
def take (s : Scan) (n : Nat) (t : Token) : Scan :=
  { s with cursor := s.cursor.advance n, tokens := s.tokens.push t }

/-- Puts a token in front of an earlier one. -/
def insertAt (s : Scan) (position : Nat) (t : Token) : Scan :=
  let (before, behind) := (s.tokens.extract 0 position, s.tokens.extract position s.tokens.size)
  { s with tokens := before.push t ++ behind }

/-- Drops a possible key; one that has to be a key may not be dropped. -/
def dropKey (s : Scan) : Option Scan :=
  match s.keys.lookup s.depth with
  | some k => if k.required then none else some { s with keys := s.keys.filter (·.1 ≠ s.depth) }
  | none => some s

/-- Drops the possible keys that are **too far away** to be keys. -/
def dropStale (s : Scan) : Option Scan :=
  let stale (k : PossibleKey) : Bool :=
    k.line ≠ s.cursor.line || k.index + 1024 < s.cursor.index
  if s.keys.any fun (_, k) => stale k && k.required then none
  else some { s with keys := s.keys.filter fun (_, k) => !stale k }

/-- Notes that the next token may be a key. -/
def noteKey (s : Scan) : Option Scan :=
  if s.keyAllowed then do
    let required := s.depth = 0 && s.indent = s.cursor.column
    let s ← s.dropKey
    let k : PossibleKey :=
      ⟨s.tokens.size, required, s.cursor.index, s.cursor.line, s.cursor.column⟩
    return { s with keys := (s.depth, k) :: s.keys }
  else some s

/-- Closes the blocks to the right of a column. -/
def unwind (s : Scan) (column : Int) : Scan :=
  if s.depth ≠ 0 then s else go s.outer.length s
where
  /-- Closes at most `n` blocks. -/
  go : Nat → Scan → Scan
    | 0, s => s
    | n + 1, s =>
      if column < s.indent then
        go n { s.push .blockEnd with indent := s.outer.headD (-1), outer := s.outer.tail }
      else s

/-- Opens a block at a column, unless the innermost one reaches as far; the mark of its beginning
stands in front of the token at a position. -/
def openBlock (s : Scan) (column position : Nat) (mark : Token) : Scan :=
  if s.depth = 0 && s.indent < column then
    { s.insertAt position mark with indent := column, outer := s.indent :: s.outer }
  else s

/-- Opens a block here. -/
def openHere (s : Scan) (mark : Token) : Scan := s.openBlock s.cursor.column s.tokens.size mark

/-- Past white space and remarks, to the next token. -/
def toToken : (fuel : Nat) → Scan → Scan
  | 0, s => s
  | fuel + 1, s =>
    let c := s.cursor
    let c := if c.index = 0 && c.isAt (· == byteOrderMark) then c.next else c
    let c := c.skip (· == ' ')
    let c := if c.isAt (· == '#') then c.skip (!isBreak ·) else c
    match c.lineBreak with
    | ([], _) => { s with cursor := c }
    | (_, c) => toToken fuel { s with cursor := c, keyAllowed := s.keyAllowed || s.depth = 0 }

/-! ### Marks -/

/-- A mark of a whole document. -/
def documentMark (s : Scan) (t : Token) : Option Scan := do
  let s ← (s.unwind (-1)).dropKey
  return { s.take 3 t with keyAllowed := false }

/-- A bracket that opens. -/
def openBracket (s : Scan) (t : Token) : Option Scan := do
  let s ← s.noteKey
  return { s.take 1 t with depth := s.depth + 1, keyAllowed := true }

/-- A bracket that closes. -/
def closeBracket (s : Scan) (t : Token) : Option Scan := do
  let s ← s.dropKey
  return { s.take 1 t with depth := s.depth - 1, keyAllowed := false }

/-- The dash of an element. -/
def dash (s : Scan) : Option Scan :=
  if s.depth = 0 && !s.keyAllowed then none
  else do
    let s ← { s.openHere .blockList with keyAllowed := true }.dropKey
    return s.take 1 .dash

/-- The mark of a key. -/
def keyMark (s : Scan) : Option Scan :=
  if s.depth = 0 && !s.keyAllowed then none
  else do
    let s ← { s.openHere .blockMap with keyAllowed := s.depth = 0 }.dropKey
    return s.take 1 .key

/-- The colon of a value. If a possible key stands before it, that is a key. -/
def valueMark (s : Scan) : Option Scan :=
  match s.keys.lookup s.depth with
  | some k =>
    let s := { s with keys := s.keys.filter (·.1 ≠ s.depth) }
    let s := (s.insertAt k.position .key).openBlock k.column k.position .blockMap
    some ({ s with keyAllowed := false }.take 1 .value)
  | none =>
    if s.depth = 0 && !s.keyAllowed then none
    else do
      let s ← { s.openHere .blockMap with keyAllowed := s.depth = 0 }.dropKey
      return s.take 1 .value

/-! ### Names and tags -/

/-- A letter of a name. -/
def isNameChar (c : Char) : Bool := c.isAlphanum || c == '-' || c == '_'

/-- A character that may follow a name. -/
def endsName : List Char → Bool
  | [] => true
  | c :: _ => isBreakOrGap c || ['?', ':', ',', ']', '}', '%', '@', Char.ofNat 0x60].contains c

/-- A name behind its mark. -/
def name (s : Scan) (t : List Char → Token) : Option Scan := do
  let s ← s.noteKey
  let (cs, c) := s.cursor.next.span isNameChar
  if cs.isEmpty || !endsName c.rest then none
  else some { s.push (t cs) with cursor := c, keyAllowed := false }

/-- A character of a tag. -/
def isTagChar (c : Char) : Bool :=
  c.isAlphanum || "-;/?:@&=+$,_.!~*'()[]%".toList.contains c

/-- Escapes by number within a tag replaced by their characters. -/
def unescapeTag : List Char → Option (List Char)
  | [] => some []
  | '%' :: a :: b :: rest => do
    let n := (← Json.hexValue? a) * 16 + (← Json.hexValue? b)
    if n < 128 then (Char.ofNat n :: ·) <$> unescapeTag rest else none
  | c :: rest => if c = '%' then none else (c :: ·) <$> unescapeTag rest

/-- The text of a tag, at least one character. -/
def tagText (c : Cursor) : Option (List Char × Cursor) := do
  let (cs, c) := c.span isTagChar
  if cs.isEmpty then none else return (← unescapeTag cs, c)

/-- Whether a tag at a cursor names a handle. -/
def hasHandle (c : Cursor) : Bool :=
  (c.next.rest.takeWhile fun ch => !(ch == ' ' || isBreak ch)).contains '!'

/-- The handle of a tag: letters between two marks, or two marks. -/
def tagHandle (c : Cursor) : Option (List Char × Cursor) :=
  let (cs, c) := c.next.span isNameChar
  if c.isAt (· == '!') then some ('!' :: cs ++ ['!'], c.next) else none

/-- A **tag** at a cursor. -/
def tagAt (c : Cursor) : Option (Option (List Char) × List Char × Cursor) :=
  match c.next.rest with
  | [] => some (none, ['!'], c.next)
  | ch :: _ =>
    if ch = '<' then do
      let (cs, c) ← tagText (c.advance 2)
      if c.isAt (· == '>') then some (none, cs, c.next) else none
    else if isBreakOrGap ch then some (none, ['!'], c.next)
    else do
      let (handle, c) ← if hasHandle c then tagHandle c else some (['!'], c.next)
      let (cs, c) ← tagText c
      return (some handle, cs, c)

/-- A tag. -/
def tag (s : Scan) : Option Scan := do
  let s ← s.noteKey
  let (handle, suffix, c) ← tagAt s.cursor
  if c.rest.isEmpty || c.isAt (· == ' ') || c.isAt isBreak then
    some { s.push (.tag handle suffix) with cursor := c, keyAllowed := false }
  else none

/-- Words between spaces, up to a remark. -/
def words (cs : List Char) : List (List Char) :=
  ((pieces ' ' cs).filter (!·.isEmpty)).takeWhile fun w => w.head? ≠ some '#'

/-- A line of directions about the whole document. -/
def directive (s : Scan) : Option Scan := do
  let s ← (s.unwind (-1)).dropKey
  let (line, c) := s.cursor.next.span (!isBreak ·)
  match words line with
  | [] => none
  | first :: more =>
    let isSound : Bool :=
      if first = "YAML".toList then
        match more.map (pieces '.') with
        | [[a, b]] => (a ++ b).all Char.isDigit && !a.isEmpty && !b.isEmpty
        | _ => false
      else if first = "TAG".toList then more.length = 2 && more.all fun w => w.all isTagChar
      else first.all isNameChar
    if line.head? ≠ some ' ' && isSound then
      some { s.push (.directive (first :: more)) with cursor := c, keyAllowed := false }
    else none

/-! ### Scalars -/

/-- A scalar that may be a key. -/
def quoted (s : Scan) (double : Bool) : Option Scan := do
  let s ← s.noteKey
  let (cs, c) ← scanQuoted double s.cursor.rest.length s.cursor.next
  return { s.push (.scalar cs false) with cursor := c, keyAllowed := false }

/-- A block of lines. -/
def block (s : Scan) (isFolded : Bool) : Option Scan := do
  let s ← { s with keyAllowed := true }.dropKey
  let (cs, c) ← scanBlock isFolded s.indent s.cursor.next
  return { s.push (.scalar cs false) with cursor := c }

/-- A plain scalar. -/
def plain (s : Scan) : Option Scan := do
  let s ← s.noteKey
  let (cs, lineOver, c) :=
    scanPlain (s.depth ≠ 0) (s.indent + 1) (s.cursor.rest.length + 1) [] false s.cursor
  return { s.push (.scalar cs true) with cursor := c, keyAllowed := lineOver }

/-- The characters that may not begin a plain scalar. -/
def isIndicator (c : Char) : Bool :=
  isBreakOrGap c || ['-', '?', ':'].contains c || leadingMarks.contains c

/-- The token that **begins with a character**, or nothing where no token can begin. -/
def token (s : Scan) (ch : Char) (rest : List Char) : Option Scan :=
  let inFlow : Bool := s.depth ≠ 0
  let alone : Bool := inFlow || endsOrGap rest
  let atStart : Bool := s.cursor.column = 0
  if ch = '%' && atStart then s.directive
  else if atStart && s.cursor.isMarker '-' then s.documentMark .documentStart
  else if atStart && s.cursor.isMarker '.' then s.documentMark .documentEnd
  else if ch = '[' then s.openBracket .openList
  else if ch = '{' then s.openBracket .openMap
  else if ch = ']' then s.closeBracket .closeList
  else if ch = '}' then s.closeBracket .closeMap
  else if ch = ',' then do
    let s ← { s with keyAllowed := true }.dropKey
    return s.take 1 .comma
  else if ch = '-' && endsOrGap rest then s.dash
  else if ch = '?' && alone then s.keyMark
  else if ch = ':' && alone then s.valueMark
  else if ch = '*' then s.name .alias
  else if ch = '&' then s.name .anchor
  else if ch = '!' then s.tag
  else if ch = '|' && !inFlow then s.block false
  else if ch = '>' && !inFlow then s.block true
  else if ch = '\'' then s.quoted false
  else if ch = '"' then s.quoted true
  else if !isIndicator ch ||
      (!endsOrGap rest && (ch == '-' || (!inFlow && (ch == '?' || ch == ':')))) then s.plain
  else none

/-- The state behind the **next token**, and whether the text is over: then every block is
closed. -/
def step (s : Scan) : Option (Scan × Bool) := do
  let s ← (s.toToken (s.cursor.rest.length + 1)).dropStale
  match s.cursor.rest with
  | [] => return (← (s.unwind (-1)).dropKey, true)
  | ch :: rest => return (← (s.unwind s.cursor.column).token ch rest, false)

/-- The tokens that are known for certain: those before the first possible key. -/
def known (s : Scan) : List Token :=
  let keys := (s.dropStale.getD s).keys
  s.tokens.toList.take (keys.foldl (fun n (_, k) => min n k.position) s.tokens.size)

end Scan

/-- The tokens up to the end of a text, and whether there is a **fault**. At a fault only the tokens
are known that cannot change any more. -/
def tokensFrom : (fuel : Nat) → Scan → List Token × Bool
  | 0, s => (s.known, true)
  | fuel + 1, s =>
    match s.step with
    | none => (s.known, true)
    | some (s, true) => (s.tokens.toList, false)
    | some (s, false) => tokensFrom fuel s

/-- The **tokens of a text**. -/
def tokens (cs : List Char) : List Token × Bool := tokensFrom (cs.length + 2) (.start cs)

end Elementary.Yaml
