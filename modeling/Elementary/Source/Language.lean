import Elementary.C.Program
import Elementary.Log.Basic
import Elementary.Native.Module

/-!
# Target languages

Generated functions and their tests are written in C or, with an array library, in Python.

## Main definitions

* `Language`: the languages.
* `Language.ofName`: the language that a setting names.
* `Language.program`: functions and tests as source text.
-/

namespace Elementary

/-- The **languages** in which programs are written. -/
inductive Language where
  | c
  | native
  deriving DecidableEq, Repr

namespace Language

/-- How a language is shown. -/
def description : Language → String
  | c => "C_Code"
  | native => "Native_Code"

/-- The code generator of a language. -/
def generatorName : Language → String
  | c => C.generatorName
  | native => Native.generatorName

/-- How the class of a language is shown in messages: without its name. -/
def classText : String := "<class>"

/-- The **names of languages** in settings. -/
def names : List (String × Language) := [("c", c), ("native", native), ("python", native)]

/-- The language that a setting names. -/
def ofName (s : String) : Traced Language :=
  match names.lookup s with
  | some l => return l
  | none =>
    Traced.abort ("unknown language " ++ s ++ " (supported languages are: " ++
      ", ".intercalate (names.map Prod.fst) ++ ")") (.unsupportedLanguage s)

/-- Functions and tests as **source text** for a number type. -/
def program (l : Language) (nt : NumberType) (functions : List GeneratedFunction)
    (tests : List TestCase) : Traced String :=
  Traced.reported <| match l with
    | c => C.program nt.precision functions tests
    | native => Native.program nt functions tests

end Language

end Elementary
