import Elementary.Descriptor.Entry
import Elementary.Document.Json.Writer
import Elementary.Document.Yaml.Reader

/-!
# Descriptor files

The descriptors of a library are kept in one file, in JSON or in YAML. The name of the file tells
which. A file holds a list of descriptors, or one descriptor by itself.

## Main definitions

* `Descriptor.Format`, `Descriptor.Format.ofFileName`: the two formats.
* `Descriptor.Format.write`: entries as text.
* `Descriptor.Format.read`: the descriptors in a text.
-/

namespace Elementary.Descriptor

/-- The **formats** of descriptor files. -/
inductive Format where
  | json
  | yaml
  deriving DecidableEq, Repr

/-- What a descriptor file **holds**. -/
inductive Contents where
  | single (d : Descriptor)
  | many (ds : List Descriptor)

namespace Format

/-- The name of a format. -/
def name : Format → String
  | json => "json"
  | yaml => "yaml"

/-- The format of a file **by its name**. -/
def ofFileName (s : String) : Format := if s.endsWith ".json" then json else yaml

/-- An entry laid out for a format. -/
def layout : Format → Entry → Document
  | json => Entry.toMap
  | yaml => Entry.toRecord

/-- A document as text. -/
def writeDocument : Format → Document → String
  | json => Json.write
  | yaml => Yaml.write

/-- The document in a text. -/
def readDocument : Format → String → Except Failure Document
  | json => Json.read
  | yaml => Yaml.read tags

/-- **Entries as text**. -/
def write (f : Format) (entries : List Entry) : String :=
  f.writeDocument (.list (entries.map f.layout))

/-- The descriptor in a document. -/
def descriptorOf (f : Format) (d : Document) : Except Failure Descriptor :=
  match f with
  | json => do (← Entry.ofMap d).exact
  | yaml => ofRecord d

/-- The **descriptors in a text**. -/
def read (f : Format) (s : String) : Except Failure Contents := do
  match ← f.readDocument s with
  | .list items => .many <$> items.mapM f.descriptorOf
  | d => .single <$> f.descriptorOf d

end Format

end Elementary.Descriptor
