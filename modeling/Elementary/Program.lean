import Elementary.Descriptor.File
import Elementary.Settings.CommandLine

/-!
# The program

One run of the program: settings are taken from the command line, the library is generated and
written, and then its descriptors if they are wanted. Messages are shown on the standard output,
warnings among them.

## Main definitions

* `Program.generate`: the library of the settings that arguments choose.
* `Program.Files`: the files that a run writes.
* `Program.console`: the console of a run.
-/

namespace Elementary.Program

/-- The **console of a run**, on which warnings are shown. -/
def console : Console := { levels := [.error, .warning], toOutput := true }

/-- A **generated library** with the settings that it was generated for. -/
structure Output where
  settings : Settings
  source : String
  library : Family

/-- The library of the settings that arguments choose, for given numbers of terms. -/
def attempt (terms : TermTables) (arguments : List String) : Run Output := do
  let s ← ({} : Settings).ofArguments arguments
  let setting : Setting := ⟨s.numberType, s.width, terms⟩
  let (source, library) ← Run.ofTraced (Library.program setting s.strategy s.language)
  return ⟨s, source, library⟩

/-- The **library that is generated**. Without a code generator for the language nothing is, and the
program ends with a warning. -/
def generate (terms : TermTables) (arguments : List String) : Run Output :=
  tryCatch (attempt terms arguments) fun f => do
    match f with
    | .unsupportedLanguage name =>
      Run.display ⟨.warning, "unsupported language " ++ name ++ ", no output generated"⟩
      throw (.exit 1)
    | f => throw f

/-- The **files of a run** with their texts, in the order in which they are written. -/
def Output.files (o : Output) : List (String × Except Failure String) :=
  let descriptors (name : String) : Except Failure String := do
    let entries ← Descriptor.Entry.list o.library.functions o.library.tests
    return (Descriptor.Format.ofFileName name).write entries
  (o.settings.outputFile, .ok o.source) ::
    match o.settings.descriptorFile with
    | some name => [(name, descriptors name)]
    | none => []

end Elementary.Program
