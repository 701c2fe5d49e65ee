import Elementary.Document.Yaml.Cursor

/-!
# Scalars read from YAML

The texts of a document: plain, between quotes, or as a block of lines. The end of a line within a
text counts as a space, and every further one as itself; only a literal block keeps its lines.

## Main definitions

* `Yaml.scanPlain`: a text without quotes.
* `Yaml.scanQuoted`: a text between quotes.
* `Yaml.scanBlock`: a block of lines.
-/

namespace Elementary.Yaml

/-- The ends of lines from a cursor on, with white space around them; nothing at a separator of
documents when `separated` holds. -/
def scanBreaks (isSpace : Char → Bool) : (fuel : Nat) → Cursor → Option (List Char × Cursor)
  | 0, c => some ([], c)
  | fuel + 1, c =>
    if c.isSeparator then none
    else
      let c := c.skip isSpace
      match c.lineBreak with
      | ([], _) => some ([], c)
      | (b, c) => do
        let (more, c) ← scanBreaks isSpace fuel c
        return (b ++ more, c)

/-- What the **end of a line** within a text counts as: a space, unless more ends follow. -/
def folded (first : List Char) (more : List Char) : List Char :=
  if first ≠ ['\n'] then first ++ more else if more.isEmpty then [' '] else more

/-! ### Plain texts -/

/-- How many characters of a plain text stand in a row. -/
def plainRow (inFlow : Bool) : List Char → Nat
  | [] => 0
  | ch :: rest =>
    let closes (c : Char) : Bool := [',', '[', ']', '{', '}'].contains c
    if isBreakOrGap ch then 0
    else if ch = ':' && (endsOrGap rest || (inFlow && rest.head?.any closes)) then 0
    else if inFlow && (closes ch || ch = '?') then 0
    else plainRow inFlow rest + 1

/-- The ends of lines that may follow one within a plain text. At a separator of documents the
text is over. -/
def plainBreaks : (fuel : Nat) → Cursor → List Char → Option (List Char) × Cursor
  | 0, c, breaks => (some breaks, c)
  | fuel + 1, c, breaks =>
    let c := c.skip (· == ' ')
    match c.lineBreak with
    | ([], _) => (some breaks, c)
    | (b, c) => if c.isSeparator then (none, c) else plainBreaks fuel c (breaks ++ b)

/-- The **white space** within a plain text, nothing if the text is over, and whether a line ended
there. -/
def plainGap (c : Cursor) : List Char × Bool × Cursor :=
  let (gap, c) := c.span (· == ' ')
  match c.lineBreak with
  | ([], _) => (gap, false, c)
  | (first, c) =>
    if c.isSeparator then ([], true, c)
    else
      match plainBreaks (c.rest.length + 1) c [] with
      | (some more, c) => (folded first more, true, c)
      | (none, c) => ([], true, c)

/-- A **plain text**, whose further lines begin at `indent` or behind it unless it stands within
brackets, and whether its last line is over. -/
def scanPlain (inFlow : Bool) (indent : Int) :
    (fuel : Nat) → (gap : List Char) → (lineOver : Bool) → Cursor → List Char × Bool × Cursor
  | 0, _, lineOver, c => ([], lineOver, c)
  | fuel + 1, gap, lineOver, c =>
    match c.isAt (· == '#'), plainRow inFlow c.rest with
    | true, _ | _, 0 => ([], lineOver, c)
    | false, n =>
      let row := c.rest.take n
      let (next, broken, c) := plainGap (c.advance n)
      if next.isEmpty || c.isAt (· == '#') || (!inFlow && c.column < indent) then
        (gap ++ row, broken, c)
      else
        let (more, broken, c) := scanPlain inFlow indent fuel next broken c
        (gap ++ row ++ more, broken, c)

/-! ### Texts between quotes -/

/-- The characters that a letter behind a backslash stands for. -/
def escapeLetters : List (Char × Char) :=
  [('0', '\x00'), ('a', '\x07'), ('b', '\x08'), ('t', '\t'), ('\t', '\t'), ('n', '\n'),
    ('v', '\x0b'), ('f', '\x0c'), ('r', '\r'), ('e', '\x1b'), (' ', ' '), ('"', '"'), ('\\', '\\'),
    ('/', '/'), ('N', '\x85'), ('_', '\xa0'), ('L', '\u2028'), ('P', '\u2029')]

/-- The number of digits behind a letter that announces a number. -/
def escapeWidth? : Char → Option Nat
  | 'x' => some 2
  | 'u' => some 4
  | 'U' => some 8
  | _ => none

/-- What stands for an **escape** behind its backslash. -/
def scanEscape (c : Cursor) : Option (List Char × Cursor) :=
  match c.rest with
  | [] => none
  | e :: rest =>
    match escapeLetters.lookup e, escapeWidth? e with
    | some ch, _ => some ([ch], c.next)
    | none, some n =>
      let ds := rest.take n
      if ds.length = n && ds.all fun d => (Json.hexValue? d).isSome then
        some ([Char.ofNat (natIn 16 ds)], c.advance (n + 1))
      else none
    | none, none =>
      if isBreak e then scanBreaks isGap (rest.length + 1) c.lineBreak.2 else none

/-- A text **up to its closing quote**, and the cursor behind it. -/
def scanQuoted (double : Bool) : (fuel : Nat) → Cursor → Option (List Char × Cursor)
  | 0, _ => none
  | fuel + 1, c =>
    let quote := if double then '"' else '\''
    let andThen (part : List Char) (c : Cursor) : Option (List Char × Cursor) := do
      let (more, c) ← scanQuoted double fuel c
      return (part ++ more, c)
    match c.rest with
    | [] => none
    | ch :: rest =>
      if ch = quote then
        if !double && rest.head? == some '\'' then andThen ['\''] (c.advance 2)
        else some ([], c.next)
      else if double && ch = '\\' then do
        let (part, c) ← scanEscape c.next
        andThen part c
      else if isGap ch || isBreak ch then
        let (gap, c) := c.span isGap
        match c.lineBreak with
        | ([], _) => andThen gap c
        | (first, c) => do
          let (more, c) ← scanBreaks isGap (c.rest.length + 1) c
          andThen (folded first more) c
      else andThen [ch] c.next

/-! ### Blocks of lines -/

/-- What is kept of the **ends of lines at the end** of a block. -/
inductive Chomping where
  | strip
  | clip
  | keep
  deriving DecidableEq, Repr

/-- The sign that tells what is kept of the last ends of lines. -/
def chomping? : Char → Option Chomping
  | '+' => some .keep
  | '-' => some .strip
  | _ => none

/-- A digit that tells how far a block stands to the right. -/
def indentDigit? (ch : Char) : Option Nat :=
  if '1' ≤ ch ∧ ch ≤ '9' then some (ch.toNat - '0'.toNat) else none

/-- The head of a block behind its mark: what is kept, and how far the block stands to the right. -/
def scanBlockHead (c : Cursor) : Option (Chomping × Option Nat × Cursor) :=
  let r : Chomping × Option Nat × Cursor :=
    match c.head? >>= chomping?, c.head? >>= indentDigit? with
    | some k, _ =>
      match c.next.head? >>= indentDigit? with
      | some n => (k, some n, c.advance 2)
      | none => (k, none, c.next)
    | none, some n =>
      match c.next.head? >>= chomping? with
      | some k => (k, some n, c.advance 2)
      | none => (.clip, some n, c.next)
    | none, none => (.clip, none, c)
  let (k, n, c) := r
  if c.rest.isEmpty || c.isAt (· == ' ') || c.isAt isBreak then
    let c := c.skip (· == ' ')
    let c := if c.isAt (· == '#') then c.skip (!isBreak ·) else c
    if endsLine c.rest then some (k, n, c.lineBreak.2) else none
  else none

/-- Empty lines at the beginning of a block, and the largest column that they reach. -/
def blockStart : (fuel : Nat) → (widest : Nat) → Cursor → List Char × Nat × Cursor
  | 0, widest, c => ([], widest, c)
  | fuel + 1, widest, c =>
    let c := c.skip (· == ' ')
    let widest := max widest c.column
    match c.lineBreak with
    | ([], _) => ([], widest, c)
    | (b, c) =>
      let (more, widest, c) := blockStart fuel widest c
      (b ++ more, widest, c)

/-- Past the spaces before a column. -/
def toColumn (indent : Nat) : (fuel : Nat) → Cursor → Cursor
  | 0, c => c
  | fuel + 1, c =>
    if c.column < indent && c.isAt (· == ' ') then toColumn indent fuel c.next else c

/-- Empty lines within a block. -/
def blockBreaks (indent : Nat) : (fuel : Nat) → Cursor → List Char × Cursor
  | 0, c => ([], c)
  | fuel + 1, c =>
    let c := toColumn indent indent c
    match c.lineBreak with
    | ([], _) => ([], c)
    | (b, c) =>
      let (more, c) := blockBreaks indent fuel c
      (b ++ more, c)

/-- The **lines of a block**, behind empty lines `breaks`. When lines are folded, one end of a line
between lines that begin with no white space counts as a space. -/
def blockLines (isFolded : Bool) (chomping : Chomping) (indent : Nat) :
    (fuel : Nat) → (breaks : List Char) → Cursor → List Char × Cursor
  | 0, _, c => ([], c)
  | fuel + 1, breaks, c =>
    let row (c : Cursor) : Bool := c.column = indent && !c.rest.isEmpty
    if !row c then (if chomping = .keep then breaks else [], c)
    else
      let startsText (c : Cursor) : Bool := !c.isAt isGap
      let (line, c') := c.span (!isBreak ·)
      let (first, c') := c'.lineBreak
      let (more, c') := blockBreaks indent (c'.rest.length + 1) c'
      let ended :=
        if row c' then
          if isFolded && first = ['\n'] && startsText c && startsText c' then
            if more.isEmpty then [' '] else []
          else first
        else if chomping = .strip then [] else first
      let (rest, c') := blockLines isFolded chomping indent fuel more c'
      (breaks ++ line ++ ended ++ rest, c')

/-- A **block of lines** behind its mark, inside a level at `outer`. -/
def scanBlock (isFolded : Bool) (outer : Int) (c : Cursor) : Option (List Char × Cursor) := do
  let (chomping, n, c) ← scanBlockHead c
  let least := (max 1 (outer + 1)).toNat
  let fuel := c.rest.length + 1
  match n with
  | none =>
    let (breaks, widest, c) := blockStart fuel 0 c
    return blockLines isFolded chomping (max least widest) fuel breaks c
  | some n =>
    let indent := least + n - 1
    let (breaks, c) := blockBreaks indent fuel c
    return blockLines isFolded chomping indent fuel breaks c

end Elementary.Yaml
