import Elementary.Number.Basic

/-!
# Documents

Descriptors are kept in files as documents: values built from texts and numbers by lists and maps.
A record is a map with a tag that names its kind. The formats in which documents are written stand
beside this module.

## Main definitions

* `Document`: the values.
* `Document.field`, `Document.elements`: the parts of a value.
* `Document.shown`, `Document.quoted`: a value as text, by itself and inside another value.
* `Document.number`: a value taken for a number.
-/

namespace Elementary

/-- A **value of a document**. -/
inductive Document where
  | null
  | truth (b : Bool)
  | integer (n : Int)
  | real (x : Datum)
  | text (s : String)
  | list (items : List Document)
  | map (entries : List (Document × Document))
  /-- A map with a tag. -/
  | record (tag : String) (fields : List (Document × Document))

namespace Document

instance : Inhabited Document := ⟨null⟩

/-- A value **taken for a number**; what is neither a number nor a text is none. -/
def number : Document → Number
  | null => .absent
  | truth b => .truth b
  | integer n => .integer n
  | real x => .double x
  | text s => .literal s
  | _ => .sequence

/-- The exact value of a number, as a key. -/
def numericKey? : Document → Option Rat
  | truth b => some (if b then 1 else 0)
  | integer n => some n
  | real x => x.toRat?
  | _ => none

/-- Whether two values are **one key**: equal texts, equal numbers, or nothing twice. -/
def sameKey : Document → Document → Bool
  | text s, text t => s == t
  | null, null => true
  | a, b => (numericKey? a).isSome && numericKey? a == numericKey? b

/-- Whether a value may be a key. -/
def isKey : Document → Bool
  | list _ | map _ => false
  | _ => true

/-- Puts a value under a key, in the place of an earlier one if there is one. -/
def insert (k v : Document) : List (Document × Document) → List (Document × Document)
  | [] => [(k, v)]
  | (k', v') :: rest => if sameKey k' k then (k', v) :: rest else (k', v') :: insert k v rest

/-- The entries of a map as they were written; of equal keys the last counts. -/
def entriesOf (written : List (Document × Document)) : List (Document × Document) :=
  written.foldl (fun entries (k, v) => insert k v entries) []

/-- The value under a text among entries. -/
def lookup? (name : String) : List (Document × Document) → Option Document
  | [] => none
  | (k, v) :: rest => if sameKey k (text name) then some v else lookup? name rest

/-- The value of a map **under a name**. -/
def field (name : String) : Document → Except Failure Document
  | map entries =>
    match lookup? name entries with
    | some v => .ok v
    | none => .error (.unknownKey name)
  | _ => .error (.wrongKind ("no map that holds " ++ name))

/-- The **elements** of a value: those of a list, the characters of a text, the keys of a map. -/
def elements : Document → Except Failure (List Document)
  | list items => .ok items
  | text s => .ok (s.toList.map fun c => text c.toString)
  | map entries => .ok (entries.map Prod.fst)
  | _ => .error (.wrongKind "a value without elements")

mutual

/-- A value as text **inside another value**: a text stands in quotes there. -/
def quoted : Document → String
  | null => "None"
  | truth b => if b then "True" else "False"
  | integer n => toString n
  | real x => x.text Precision.double.format
  | text s => Text.quoted s
  | list items => "[" ++ ", ".intercalate (quotedItems items) ++ "]"
  | map entries => "\x7b" ++ ", ".intercalate (quotedEntries entries) ++ "\x7d"
  | record tag _ => tag

/-- The elements of a list as texts. -/
def quotedItems : List Document → List String
  | [] => []
  | d :: rest => quoted d :: quotedItems rest

/-- The entries of a map as texts. -/
def quotedEntries : List (Document × Document) → List String
  | [] => []
  | (k, v) :: rest => (quoted k ++ ": " ++ quoted v) :: quotedEntries rest

end

/-- A value **as text**: a text is itself. -/
def shown : Document → String
  | text s => s
  | d => quoted d

end Document

end Elementary
