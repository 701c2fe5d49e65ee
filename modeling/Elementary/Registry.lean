import Elementary.Function
import Elementary.Source.Language
import Elementary.Text.Word

/-!
# Registries

Passes over functions are found by their tags, and code generators by the languages in which they
write. What is registered later replaces what was there; a warning says so. Passes are also found
by the names of their files.

## Main definitions

* `Registry`: the passes and the code generators, and `Registry.standard`.
* `Registry.registerPass`, `Registry.pass`: passes by their tags.
* `Registry.registerGenerator`, `Registry.generator`: code generators by their languages.
* `Registry.isPassFile`, `Registry.moduleName`: the files of passes.
-/

namespace Elementary

/-- A **registry**: the names of passes under their tags, and of code generators under their
languages. -/
structure Registry where
  passes : List (String × String)
  generators : List (String × String)
  deriving DecidableEq, Repr

namespace Registry

/-- What is registered from the start. -/
def standard : Registry :=
  ⟨[(quantizationName, "Pass_UseNumberType")],
    [Language.c, .native].map fun l => (l.description, l.generatorName)⟩

/-- Puts a name under a key, in the place of an earlier one if there is one. -/
def insert (key name : String) : List (String × String) → List (String × String)
  | [] => [(key, name)]
  | (k, n) :: rest => if k = key then (key, name) :: rest else (k, n) :: insert key name rest

/-- The tags of all passes, in alphabetical order. -/
def tags (r : Registry) : List String :=
  (r.passes.map Prod.fst).mergeSort fun a b => decide (a ≤ b)

/-- **Registers a pass** under a tag. -/
def registerPass (r : Registry) (tag name : String) : Traced Registry := do
  match r.passes.lookup tag with
  | some other =>
    if other ≠ name then
      Traced.report .warning
        ("pass tag " ++ tag ++ " is already registered by " ++ Language.classText)
  | none => pure ()
  Traced.report (.info "passes")
    ("registering pass " ++ Language.classText ++ " associated to tag " ++ tag)
  return { r with passes := insert tag name r.passes }

/-- The **pass with a tag**. -/
def pass (r : Registry) (tag : String) : Traced String :=
  match r.passes.lookup tag with
  | some name => return name
  | none =>
    Traced.abort ("unknown pass tag " ++ tag ++ " (registered passes are: " ++
      ", ".intercalate r.tags ++ ")") (.unknownKey tag)

/-- How the key of a language is shown. -/
def languageText (language : String) : String :=
  if (standard.generators.lookup language).isSome then Language.classText else language

/-- Registers a code generator for one language. -/
def registerFor (name : String) (r : Registry) (language : String) : Traced Registry := do
  match r.generators.lookup language with
  | some other =>
    if other = name then
      Traced.report .warning ("multiple registration of codegenerator " ++ Language.classText ++
        " for " ++ languageText language)
    else
      Traced.report .warning ("language " ++ languageText language ++
        " has an already registered code generator class " ++ Language.classText ++
        " (when trying to register " ++ Language.classText ++ ")")
  | none => pure ()
  Traced.report (.info "codegen") ("associating generator " ++ Language.classText ++
    " with language " ++ languageText language)
  return { r with generators := insert language name r.generators }

/-- **Registers a code generator** for languages. -/
def registerGenerator (r : Registry) (name : String) (languages : List String) :
    Traced Registry :=
  languages.foldlM (registerFor name) r

/-- The **code generator of a language**. -/
def generator (r : Registry) (language : String) : Traced String :=
  match r.generators.lookup language with
  | some name => return name
  | none =>
    Traced.abort ("no code generator registered for language " ++ languageText language)
      (.unsupportedLanguage language)

/-! ### Files -/

/-- The ending of the files of passes. -/
def fileEnding : List Char := ".py".toList

/-- Whether a name is that of the **file of a pass**: `p_`, letters, and the ending. One end of a
line may follow. -/
def isPassFile (s : String) : Bool :=
  let cs := s.toList
  let cs := if cs.getLast? = some '\n' then cs.dropLast else cs
  match cs with
  | 'p' :: '_' :: rest =>
    let word := rest.take (rest.length - fileEnding.length)
    rest.drop word.length == fileEnding && !word.isEmpty && word.all Text.isWordChar
  | _ => false

/-- A text without any occurrence of the ending. -/
def withoutEnding : (fuel : Nat) → List Char → List Char
  | 0, cs => cs
  | _ + 1, [] => []
  | fuel + 1, c :: rest =>
    if fileEnding.isPrefixOf (c :: rest) then
      withoutEnding fuel ((c :: rest).drop fileEnding.length)
    else c :: withoutEnding fuel rest

/-- The **name of the module** in a file. -/
def moduleName (s : String) : String := String.ofList (withoutEnding (s.length + 1) s.toList)

end Registry

end Elementary
