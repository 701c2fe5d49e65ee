import Elementary.Document.Yaml.Node

/-!
# Documents read from YAML

The values of a document from its nodes. A plain scalar without a tag stands for the kind of value
that its form shows, every other scalar without a tag for a text. The tags of the common kinds ask
for a value of that kind; of the other tags only those of known records may be used.

## Main definitions

* `Yaml.value`: the value of a node.
* `Yaml.read`: the document that a text denotes.
-/

namespace Elementary.Yaml

/-- The name of a common kind in a tag. -/
def commonKind? (tag : String) : Option String :=
  (Json.afterWord? "tag:yaml.org,2002:".toList tag.toList).map String.ofList

/-- A fault as a failure. -/
def fault {α : Type} (f : MarkupFault) : Except Failure α := .error (.malformedYaml f)

/-- The tag of dates. -/
def timestampTag : String := "tag:yaml.org,2002:timestamp"

/-- The value of a scalar **of a kind**. -/
def valueOfKind (kind : Kind) (s : String) : Except Failure Document :=
  match kind with
  | .text => .ok (.text s)
  | .null => .ok .null
  | .truth =>
    match truthOf? s with
    | some b => .ok (.truth b)
    | none => .error (.unknownKey s.toLower)
  | .integer => .ok (.integer (integerOf s))
  | .real => .ok (.real (realOf s))
  | .timestamp => .ok (.record timestampTag [])
  | .merge | .value => fault .construction

/-- The value of a **scalar**, by its tag or else by its form. -/
def scalarValue (tag : Option String) (isPlain : Bool) (s : String) : Except Failure Document :=
  match tag with
  | none => valueOfKind (if isPlain then kindOf s else .text) s
  | some tag =>
    match commonKind? tag with
    | some "str" => .ok (.text s)
    | some "null" => .ok .null
    | some "bool" => valueOfKind .truth s
    | some "int" =>
      if isInteger s.toList then valueOfKind .integer s else .error (.badInteger s)
    | some "float" =>
      if isReal s.toList || isInteger s.toList then valueOfKind .real s
      else
        let text := "could not convert string to float: " ++ Text.quoted s.toLower
        .error (.custom "ValueError" text)
    | _ => fault .construction

/-- The entries of a map with those **merged into it** in front, so that its own count. -/
def withMerged (merged own : List (Document × Document)) : List (Document × Document) :=
  Document.entriesOf (merged ++ own)

/-- Whether a node is the key under which other maps are merged. -/
def isMergeKey : Node → Bool
  | .scalar none true s => kindOf s = .merge
  | _ => false

/-- The entries that values under such a key contribute. -/
def mergedEntries : Document → Except Failure (List (Document × Document))
  | .map entries | .record _ entries => .ok entries
  | .list items => do
    let parts ← items.reverse.mapM fun item =>
      match item with
      | .map entries | .record _ entries => pure entries
      | _ => fault .construction
    return parts.flatten
  | _ => fault .construction

mutual

/-- The **value of a node**, given the tags of known records. -/
def value (tags : List String) : Node → Except Failure Document
  | .scalar tag isPlain s => scalarValue tag isPlain s
  | .list tag items => do
    let items ← values tags items
    match tag.map commonKind? with
    | none | some (some "seq") => return .list items
    | _ => fault .construction
  | .map tag entries => do
    let (merged, own) ← entryValues tags entries
    let entries := withMerged merged own
    match tag with
    | none => return .map entries
    | some tag =>
      if tags.contains tag then return .record tag entries
      else if commonKind? tag = some "map" then return .map entries
      else fault .construction

/-- The values of nodes. -/
def values (tags : List String) : List Node → Except Failure (List Document)
  | [] => .ok []
  | n :: rest => do
    let d ← value tags n
    return d :: (← values tags rest)

/-- The entries of a map: those merged into it, and its own. -/
def entryValues (tags : List String) :
    List (Node × Node) → Except Failure (List (Document × Document) × List (Document × Document))
  | [] => .ok ([], [])
  | (k, v) :: rest => do
    if isMergeKey k then
      let part ← mergedEntries (← value tags v)
      let (merged, own) ← entryValues tags rest
      return (part ++ merged, own)
    else
      let key ← match k with
        | .scalar none true "=" => pure (Document.text "=")
        | k => value tags k
      unless key.isKey do fault .construction
      let v ← value tags v
      let (merged, own) ← entryValues tags rest
      return (merged, (key, v) :: own)

end

/-- A character that may stand in a text. -/
def isReadable (c : Char) : Bool :=
  let n := c.toNat
  c == '\t' || c == '\n' || c == '\r' || c == '\x85' || (0x20 ≤ n && n ≤ 0x7e) ||
    (0xa0 ≤ n && n ≤ 0xfffd) || 0x10000 ≤ n

/-- The **document that a text denotes**, given the tags of known records; an empty text denotes
nothing. -/
def read (tags : List String) (s : String) : Except Failure Document :=
  let cs := s.toList
  if !cs.all isReadable then fault .character
  else
    let (tokens, broken) := tokens cs
    match nodeOfTokens tokens broken with
    | .error f => fault f
    | .ok none => .ok .null
    | .ok (some n) => value tags n

end Elementary.Yaml
