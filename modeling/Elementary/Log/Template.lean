import Elementary.Log.Layout

/-!
# Templates of messages

A template is a text with places for values. A place stands between braces; it names a value by
its position, by a name, or not at all, and then the next value in order is taken. It may choose
how the value is shown, and a layout, in which there may be places again. A doubled brace stands
for itself.

## Main definitions

* `Template.Piece`, `Template.next`: the parts of a template.
* `Template.fill`: a template with the values in their places.
-/

namespace Elementary.Template

/-- A **place** for a value: the name of the value, how it is shown, and its layout. -/
structure Place where
  name : List Char
  conversion : Option Char
  layout : List Char

/-- The values of a template: those in order, and those with a name. -/
structure Values where
  ordered : List Document
  named : List (String × Document)

/-- How the values of places without a name are **counted**: not yet, by their order, or by
numbers. Both ways do not go together. -/
inductive Counting where
  | undecided
  | automatic (next : Nat)
  | manual

/-- A failure of a template. -/
def fail {α : Type} (text : String) : Except Failure α := .error (.badTemplate text)

/-! ### Places -/

/-- The name of a place, and what follows it from the mark at its end on. -/
def placeName : (inBrackets : Bool) → List Char → Except Failure (List Char × List Char)
  | _, [] => .ok ([], [])
  | inBrackets, c :: rest =>
    if inBrackets then do
      let (name, rest) ← placeName (c ≠ ']') rest
      return (c :: name, rest)
    else if c = '\x7b' then fail "unexpected '\x7b' in field name"
    else if c = '\x7d' || c = ':' || c = '!' then .ok ([], c :: rest)
    else do
      let (name, rest) ← placeName (c = '[') rest
      return (c :: name, rest)

/-- A layout up to the brace that closes its place; `depth` braces are open within it. -/
def placeLayout (depth : Nat) : List Char → Except Failure (List Char × List Char)
  | [] => fail "unmatched '\x7b' in format spec"
  | c :: rest =>
    if c = '\x7d' ∧ depth = 0 then .ok ([], rest)
    else do
      let depth := if c = '\x7b' then depth + 1 else if c = '\x7d' then depth - 1 else depth
      let (layout, rest) ← placeLayout depth rest
      return (c :: layout, rest)

/-- A **place** behind its opening brace, and what follows it. -/
def place (cs : List Char) : Except Failure (Place × List Char) := do
  let (name, rest) ← placeName false cs
  match rest with
  | '\x7d' :: rest => return (⟨name, none, []⟩, rest)
  | ':' :: rest =>
    let (layout, rest) ← placeLayout 0 rest
    return (⟨name, none, layout⟩, rest)
  | '!' :: [] => fail "end of string while looking for conversion specifier"
  | '!' :: c :: '\x7d' :: rest => return (⟨name, some c, []⟩, rest)
  | '!' :: c :: ':' :: rest =>
    let (layout, rest) ← placeLayout 0 rest
    return (⟨name, some c, layout⟩, rest)
  | '!' :: _ :: [] => fail "unmatched '\x7b' in format spec"
  | '!' :: _ :: _ => fail "expected ':' after conversion specifier"
  | _ => fail "expected '\x7d' before end of string"

/-! ### Values -/

/-- A number that stands for a position. -/
def position? (cs : List Char) : Except Failure (Option Nat) := do
  let (n, rest) ← Layout.number cs
  return if rest.isEmpty then n else none

/-- The value at a position. -/
def elementAt (d : Document) (name : List Char) : Except Failure Document := do
  match d, ← position? name with
  | .list items, some i =>
    match items[i]? with
    | some d => return d
    | none => throw (.outOfBounds "list index out of range")
  | .text s, some i =>
    match s.toList[i]? with
    | some c => return .text c.toString
    | none => throw (.outOfBounds "string index out of range")
  | .map entries, some i =>
    match entries.find? fun (k, _) => k.sameKey (.integer i) with
    | some (_, d) => return d
    | none => throw (.unknownKey (toString i))
  | .map _, none => d.field (String.ofList name)
  | d, _ => throw (.wrongKind ("no elements in " ++ Layout.kindName d))

/-- The **parts of a value** that a name asks for behind the value itself. -/
def select (d : Document) : (fuel : Nat) → List Char → Except Failure Document
  | 0, _ => .ok d
  | _ + 1, [] => .ok d
  | fuel + 1, c :: rest =>
    if c = '.' then
      let name := rest.takeWhile fun c => c != '.' && c != '['
      if name.isEmpty then fail "Empty attribute in format string"
      else .error (.missingPart (String.ofList name))
    else if c = '[' then do
      let name := rest.takeWhile (· != ']')
      match rest.drop name.length with
      | [] => fail "Missing ']' in format string"
      | _ :: rest =>
        if name.isEmpty then fail "Empty attribute in format string"
        select (← elementAt d name) fuel rest
    else fail "Only '.' or '[' may follow ']' in format field specifier"

/-- The position of a place by its order, once it is clear that places are counted so. -/
def Counting.next (c : Counting) : Except Failure (Nat × Counting) :=
  match c with
  | undecided => .ok (0, automatic 1)
  | automatic n => .ok (n, automatic (n + 1))
  | manual =>
    fail "cannot switch from manual field specification to automatic field numbering"

/-- The state behind a place that has a number. -/
def Counting.numbered (c : Counting) : Except Failure Counting :=
  match c with
  | automatic _ =>
    fail "cannot switch from automatic field numbering to manual field specification"
  | _ => .ok manual

/-- The **value of a place**. -/
def valueOf (v : Values) (counting : Counting) (name : List Char) :
    Except Failure (Document × Counting) := do
  let first := name.takeWhile fun c => c != '.' && c != '['
  let rest := name.drop first.length
  let positioned (i : Nat) : Except Failure Document :=
    match v.ordered[i]? with
    | some d => .ok d
    | none => .error (.outOfBounds ("no value at " ++ toString i))
  let (d, counting) ←
    if first.isEmpty then do
      let (i, counting) ← counting.next
      pure (← positioned i, counting)
    else
      match ← position? first with
      | some i => do
        let counting ← counting.numbered
        pure (← positioned i, counting)
      | none =>
        match v.named.lookup (String.ofList first) with
        | some d => pure (d, counting)
        | none => throw (.unknownKey (String.ofList first))
  return (← select d (rest.length + 1) rest, counting)

/-- Text in ASCII: every other character is escaped by its number. -/
def ascii (s : String) : String :=
  String.join (s.toList.map fun c =>
    if c.toNat < 0x80 then c.toString
    else if c.toNat < 0x100 then "\\x" ++ Text.hex c.toNat
    else if c.toNat < 0x10000 then "\\u" ++ Text.padLeft 4 '0' (Text.hex c.toNat)
    else "\\U" ++ Text.padLeft 8 '0' (Text.hex c.toNat))

/-- A value **as a place shows it**. -/
def convert (c : Option Char) (d : Document) : Except Failure Document :=
  match c with
  | none => .ok d
  | some 's' => .ok (.text d.shown)
  | some 'r' => .ok (.text d.quoted)
  | some 'a' => .ok (.text (ascii d.quoted))
  | some c => fail ("Unknown conversion specifier " ++ Layout.shownCode c)

/-! ### Filling -/

/-- A **piece** of a template: a character, or a place. -/
inductive Piece where
  | char (c : Char)
  | place (p : Place)

/-- The piece at the head of a template that is not empty. -/
def next (c : Char) (rest : List Char) : Except Failure (Piece × List Char) :=
  if c = '\x7b' ∨ c = '\x7d' then
    match rest with
    | [] => fail ("Single '" ++ c.toString ++ "' encountered in format string")
    | c' :: rest' =>
      if c' = c then .ok (.char c, rest')
      else if c = '\x7d' then fail "Single '\x7d' encountered in format string"
      else do
        let (p, rest) ← place rest
        return (.place p, rest)
  else .ok (.char c, rest)

/-- A template with the **values in their places**. Layouts with places in them may be nested
`depth` times. -/
def fillFrom (v : Values) (depth : Nat) :
    (fuel : Nat) → Counting → List Char → Except Failure (List Char × Counting)
  | 0, counting, _ => .ok ([], counting)
  | _ + 1, counting, [] => .ok ([], counting)
  | fuel + 1, counting, c :: rest => do
    let (piece, rest) ← next c rest
    match piece with
    | .char c =>
      let (out, counting) ← fillFrom v depth fuel counting rest
      return (c :: out, counting)
    | .place p =>
      let (d, counting) ← valueOf v counting p.name
      let d ← convert p.conversion d
      let (layout, counting) ←
        if p.layout.contains '\x7b' then
          match depth with
          | 0 | 1 => fail "Max string recursion exceeded"
          | depth + 1 => fillFrom v depth fuel counting p.layout
        else pure (p.layout, counting)
      let shown ← Layout.apply layout d
      let (out, counting) ← fillFrom v depth fuel counting rest
      return (shown.toList ++ out, counting)

/-- A **template filled** with values. -/
def fill (template : String) (v : Values) : Except Failure String := do
  let cs := template.toList
  let (out, _) ← fillFrom v 2 (cs.length + 1) .undecided cs
  return String.ofList out

end Elementary.Template
