/-!
# Source texts

A source text grows at its end. Text that is added is brought to the current level of indentation:
every line break is followed by the indentation of the next line, and blanks before a line break
are dropped. A block is a header, lines one level deeper, and a footer, where the indentation that
the last line break left behind is taken back.

Every block opens a scope inside the one around it. A name is visible in all scopes within that in
which it was declared.

## Main definitions

* `Scopes`: the open scopes, the innermost first.
* `Scopes.isDeclared`, `Scopes.declare?`: whether a name is visible, and its declaration.
* `Scopes.freeName`: a name that is not visible yet.
* `Buffer`: a text, its level and its scopes.
* `Buffer.add`: adds text at the current level.
* `Buffer.openBlock`, `Buffer.closeBlock?`: begin and end a block.
-/

namespace Elementary.Source

/-! ### Scopes -/

/-- The **open scopes**, the innermost first, each with the names declared in it. -/
abbrev Scopes := List (List String)

namespace Scopes

/-- The names that are visible. -/
def visible (s : Scopes) : List String := s.flatten

/-- Whether a name is visible. -/
def isDeclared (s : Scopes) (name : String) : Bool := s.any fun names => names.contains name

/-- Declares a name in the innermost scope, if any is open. -/
def declare? (s : Scopes) (name : String) : Option Scopes :=
  match s with
  | [] => none
  | names :: rest => some ((name :: names) :: rest)

/-- The `i`th numbered name after a stem. -/
def numbered (stem : String) (i : Nat) : String := stem ++ toString i

/-- The first numbered name from `i` on that is not visible; `fuel` bounds the search. -/
def searchFree (s : Scopes) (stem : String) : (fuel : Nat) → (i : Nat) → String
  | 0, i => numbered stem i
  | fuel + 1, i =>
    if s.isDeclared (numbered stem i) then searchFree s stem fuel (i + 1) else numbered stem i

/-- A **name that is not visible**: the stem itself, or else the stem with the smallest number
that makes it free. Fewer numbers are taken than names are visible. -/
def freeName (s : Scopes) (stem : String) : String :=
  if s.isDeclared stem then searchFree s stem s.visible.length 0 else stem

end Scopes

/-! ### Texts -/

/-- One level of indentation. -/
def tab : List Char := List.replicate 4 ' '

/-- The indentation of a level; there is none below zero. -/
def indentation (level : Int) : List Char := List.replicate (4 * level.toNat) ' '

/-- The text with every line break **followed by an indentation**. -/
def indentLines (blanks : List Char) : List Char → List Char
  | [] => []
  | c :: cs =>
    if c = '\n' then c :: (blanks ++ indentLines blanks cs) else c :: indentLines blanks cs

/-- The text without the **blanks before its line breaks**. -/
def dropTrailingBlanks : List Char → List Char
  | [] => []
  | c :: cs =>
    match c, dropTrailingBlanks cs with
    | ' ', '\n' :: rest => '\n' :: rest
    | c, rest => c :: rest

/-- Text brought to a **level of indentation**. -/
def reindent (level : Int) (text : List Char) : List Char :=
  dropTrailingBlanks (indentLines (indentation level) text)

/-- A **source text** under construction. -/
structure Buffer where
  /-- The text so far, its end first. -/
  reversed : List Char
  level : Int
  scopes : Scopes

namespace Buffer

/-- The empty text, with one open scope. -/
def empty : Buffer := ⟨[], 0, [[]]⟩

/-- The text. -/
def text (b : Buffer) : String := String.ofList b.reversed.reverse

/-- Adds text as it is. -/
def addRaw (b : Buffer) (s : String) : Buffer :=
  { b with reversed := s.toList.reverseAux b.reversed }

/-- Adds text **at the current level**. -/
def add (b : Buffer) (s : String) : Buffer :=
  { b with reversed := (reindent b.level s.toList).reverseAux b.reversed }

/-- Goes one level deeper, and indents what comes next. -/
def indent (b : Buffer) : Buffer :=
  { b with level := b.level + 1, reversed := tab ++ b.reversed }

/-- Goes one level back, and takes back the indentation at the end of the text if there is any. -/
def dedent (b : Buffer) : Buffer :=
  { b with
    level := b.level - 1
    reversed := if tab.isPrefixOf b.reversed then b.reversed.drop tab.length else b.reversed }

/-- The header of a block, unless another is given. -/
def defaultHeader : String := "\x7b\n"

/-- The footer of a block, unless another is given. -/
def defaultFooter : String := "\x7d"

/-- **Begins a block** after a header. -/
def openBlock (b : Buffer) (header : String) : Buffer :=
  let inner := (b.add header).indent
  { inner with scopes := [] :: inner.scopes }

/-- **Ends a block** with a footer and what follows it, if a scope is open. -/
def closeBlock? (b : Buffer) (footer after : String) : Option Buffer :=
  match b.scopes with
  | [] => none
  | _ :: outer => some ({ b.dedent with scopes := outer }.add (footer ++ after))

/-- Adds a comment on lines of its own. -/
def comment (b : Buffer) (s : String) : Buffer := b.add ("/* " ++ s ++ " */\n")

/-- Declares a name, if a scope is open. -/
def declare? (b : Buffer) (name : String) : Option Buffer :=
  (b.scopes.declare? name).map fun scopes => { b with scopes := scopes }

/-- Declares a **name that is not visible yet**, if a scope is open. -/
def fresh? (b : Buffer) (stem : String) : Option (String × Buffer) :=
  let name := b.scopes.freeName stem
  (b.declare? name).map fun b => (name, b)

end Buffer

end Elementary.Source
