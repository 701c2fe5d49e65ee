import Elementary.Document.Yaml.Token

/-!
# Nodes of YAML

The values of a document as they are written, with their tags, put together from tokens. A value
with an anchor can be repeated by its name further on. What stands where a value is left out is an
empty plain scalar.

## Main definitions

* `Yaml.Node`: the nodes.
* `Yaml.readNode`: the node at the head of a list of tokens.
* `Yaml.nodeOfTokens`: the node of a whole text, if it holds one.
-/

namespace Elementary.Yaml

/-- A **value as it is written**. A tag that says nothing is left out. -/
inductive Node where
  | scalar (tag : Option String) (isPlain : Bool) (text : String)
  | list (tag : Option String) (items : List Node)
  | map (tag : Option String) (entries : List (Node × Node))

instance : Inhabited Node := ⟨.scalar none true ""⟩

/-- What stands where a **value is left out**. -/
def Node.empty : Node := .scalar none true ""

/-- The **state** between two nodes: the tokens that are left, whether a fault follows them, the
named nodes, of which those that are not complete yet have no node, and the handles of tags. -/
structure Reading where
  tokens : List Token
  broken : Bool
  anchors : List (String × Option Node)
  handles : List (String × String)

/-- Computations on the tokens of a text. -/
abbrev Read := StateT Reading (Except MarkupFault)

/-- The next token, which stays; none at the end of the text. -/
def peek : Read (Option Token) := do
  let s ← get
  match s.tokens with
  | t :: _ => return some t
  | [] => if s.broken then throw .token else return none

/-- Past the next token. -/
def pass : Read Unit := modify fun s => { s with tokens := s.tokens.tail }

/-- Passes the next token if it is a given one. -/
def passIf (t : Token) : Read Bool := do
  if (← peek) == some t then
    pass
    return true
  else return false

/-- Whether the next token is one of some tokens. -/
def isNext (ts : List Token) : Read Bool := do
  return ((← peek).any fun t => ts.contains t)

/-- A node, unless the next token is one of some tokens: then a value is left out. -/
def nodeOrEmpty (ends : List Token) (node : Read Node) : Read Node := do
  if ← isNext ends then return .empty else node

/-- The handles of tags that every document has. -/
def standardHandles : List (String × String) := [("!", "!"), ("!!", "tag:yaml.org,2002:")]

/-- An anchor at the head, if there is one. -/
def readAnchor : Read (Option String) := do
  match ← peek with
  | some (.anchor name) =>
    pass
    return some (String.ofList name)
  | _ => return none

/-- A tag at the head, if there is one, with its handle expanded. -/
def readTag : Read (Option String) := do
  match ← peek with
  | some (.tag handle suffix) =>
    pass
    match handle with
    | none => return some (String.ofList suffix)
    | some handle =>
      match (← get).handles.lookup (String.ofList handle) with
      | some expansion => return some (expansion ++ String.ofList suffix)
      | none => throw .shape
  | _ => return none

/-- The anchor and the tag of a node, in either order. -/
def readProperties : Read (Option String × Option String) := do
  match ← readAnchor with
  | some a => return (some a, ← readTag)
  | none =>
    match ← readTag with
    | some t => return (← readAnchor, some t)
    | none => return (none, none)

/-- Names a node that is not complete yet; a name can be given once. -/
def openAnchor (anchor : Option String) : Read Unit := do
  match anchor with
  | none => pure ()
  | some name =>
    if ((← get).anchors.lookup name).isSome then throw .reference
    modify fun s => { s with anchors := (name, none) :: s.anchors }

/-- Names a complete node. -/
def closeAnchor (anchor : Option String) (n : Node) : Read Node := do
  match anchor with
  | none => pure ()
  | some name => modify fun s => { s with anchors := (name, some n) :: s.anchors }
  return n

/-- Where a node stands: whether blocks may begin there, and whether a list without a block of its
own may. -/
structure Place where
  block : Bool
  bareList : Bool

mutual

/-- The **node** at the head of the tokens. -/
def readNode : (fuel : Nat) → Place → Read Node
  | 0, _ => throw .shape
  | fuel + 1, place => do
    match ← peek with
    | some (.alias name) =>
      pass
      match (← get).anchors.lookup (String.ofList name) with
      | some (some n) => return n
      | _ => throw .reference
    | _ =>
      let (anchor, tag) ← readProperties
      let said := if tag = some "!" then none else tag
      let first ← peek
      if place.bareList && first == some .dash then
        openAnchor anchor
        closeAnchor anchor (.list said (← readBareItems fuel))
      else
        match first with
        | some (.scalar cs isPlain) =>
          pass
          openAnchor anchor
          closeAnchor anchor (.scalar said (tag = some "!" || isPlain) (String.ofList cs))
        | some .openList =>
          openAnchor anchor
          pass
          closeAnchor anchor (.list said (← readFlowItems fuel true))
        | some .openMap =>
          openAnchor anchor
          pass
          closeAnchor anchor (.map said (← readFlowEntries fuel true))
        | some .blockList =>
          unless place.block do throw .shape
          openAnchor anchor
          pass
          closeAnchor anchor (.list said (← readItems fuel))
        | some .blockMap =>
          unless place.block do throw .shape
          openAnchor anchor
          pass
          closeAnchor anchor (.map said (← readEntries fuel))
        | _ =>
          if anchor.isNone && tag.isNone then throw .shape
          openAnchor anchor
          closeAnchor anchor (.scalar said (said.isNone) "")

/-- The elements of a block up to its end. -/
def readItems : (fuel : Nat) → Read (List Node)
  | 0 => throw .shape
  | fuel + 1 => do
    if ← passIf .dash then
      let n ← nodeOrEmpty [.dash, .blockEnd] (readNode fuel ⟨true, false⟩)
      return n :: (← readItems fuel)
    else if ← passIf .blockEnd then return []
    else throw .shape

/-- The elements of a list without a block of its own. -/
def readBareItems : (fuel : Nat) → Read (List Node)
  | 0 => throw .shape
  | fuel + 1 => do
    if ← passIf .dash then
      let n ← nodeOrEmpty [.dash, .key, .value, .blockEnd] (readNode fuel ⟨true, false⟩)
      return n :: (← readBareItems fuel)
    else return []

/-- The entries of a block up to its end. -/
def readEntries : (fuel : Nat) → Read (List (Node × Node))
  | 0 => throw .shape
  | fuel + 1 => do
    let ends : List Token := [.key, .value, .blockEnd]
    let value : Read Node := do
      if ← passIf .value then nodeOrEmpty ends (readNode fuel ⟨true, true⟩) else return .empty
    if ← passIf .key then
      let k ← nodeOrEmpty ends (readNode fuel ⟨true, true⟩)
      let v ← value
      return (k, v) :: (← readEntries fuel)
    else if ← passIf .blockEnd then return []
    else throw .shape

/-- The elements between brackets; before every one but the first stands a comma. A key among them
is a map of one entry. -/
def readFlowItems : (fuel : Nat) → (first : Bool) → Read (List Node)
  | 0, _ => throw .shape
  | fuel + 1, first => do
    if ← passIf .closeList then return []
    unless first do
      unless ← passIf .comma do throw .shape
    let ends : List Token := [.comma, .closeList]
    if ← passIf .key then
      let k ← nodeOrEmpty (.value :: ends) (readNode fuel ⟨false, false⟩)
      let v ←
        if ← passIf .value then nodeOrEmpty ends (readNode fuel ⟨false, false⟩) else pure .empty
      return .map none [(k, v)] :: (← readFlowItems fuel false)
    else if ← passIf .closeList then return []
    else
      let n ← readNode fuel ⟨false, false⟩
      return n :: (← readFlowItems fuel false)

/-- The entries between braces; before every one but the first stands a comma. An entry may
have no value. -/
def readFlowEntries : (fuel : Nat) → (first : Bool) → Read (List (Node × Node))
  | 0, _ => throw .shape
  | fuel + 1, first => do
    if ← passIf .closeMap then return []
    unless first do
      unless ← passIf .comma do throw .shape
    let ends : List Token := [.comma, .closeMap]
    if ← passIf .key then
      let k ← nodeOrEmpty (.value :: ends) (readNode fuel ⟨false, false⟩)
      let v ←
        if ← passIf .value then nodeOrEmpty ends (readNode fuel ⟨false, false⟩) else pure .empty
      return (k, v) :: (← readFlowEntries fuel false)
    else if ← passIf .closeMap then return []
    else
      let n ← readNode fuel ⟨false, false⟩
      return (n, .empty) :: (← readFlowEntries fuel false)

end

/-- The directions in front of a document: the version, and handles of tags; each at most once. -/
def readDirectives : (fuel : Nat) → (versionSeen : Bool) → Read Unit
  | 0, _ => pure ()
  | fuel + 1, versionSeen => do
    match ← peek with
    | some (.directive words) =>
      pass
      match words.map String.ofList with
      | ["YAML", version] =>
        if versionSeen || (version.splitOn ".").head? ≠ some "1" then throw .shape
        readDirectives fuel true
      | ["TAG", handle, expansion] =>
        if ((← get).handles.lookup handle).isSome then throw .shape
        modify fun s => { s with handles := (handle, expansion) :: s.handles }
        readDirectives fuel versionSeen
      | _ => readDirectives fuel versionSeen
    | _ => pure ()

/-- Past the marks of ends of documents. -/
def passEnds : (fuel : Nat) → Read Unit
  | 0 => pure ()
  | fuel + 1 => do
    if ← passIf .documentEnd then passEnds fuel

/-- The **beginning of a document** that is marked: whether there is one. -/
def readStart (fuel : Nat) : Read Bool := do
  passEnds fuel
  if (← peek).isNone then return false
  modify fun s => { s with handles := [] }
  readDirectives fuel false
  modify fun s =>
    let standard := standardHandles.filter fun (handle, _) => (s.handles.lookup handle).isNone
    { s with handles := s.handles ++ standard }
  if ← passIf .documentStart then return true else throw .shape

/-- The **only document** of a text; none if the text is empty. -/
def readDocument (fuel : Nat) : Read (Option Node) := do
  let marked := match ← peek with
    | some (.directive _) | some .documentStart | none => true
    | _ => false
  if marked then
    unless ← readStart fuel do return none
  let content ← match marked, ← peek with
    | true, some (.directive _) | true, some .documentStart | true, some .documentEnd
    | true, none => pure Node.empty
    | _, _ => readNode fuel ⟨true, false⟩
  if ← readStart fuel then throw .reference
  return some content

/-- The node of a text from its **tokens**. -/
def nodeOfTokens (tokens : List Token) (broken : Bool) : Except MarkupFault (Option Node) :=
  Prod.fst <$> (readDocument (2 * tokens.length + 4)).run ⟨tokens, broken, [], standardHandles⟩

end Elementary.Yaml
