import Elementary.Family.Auxiliary
import Elementary.Family.Exponential
import Elementary.Family.Hyperbolic
import Elementary.Family.InverseTrigonometric
import Elementary.Family.Root
import Elementary.Family.Trigonometric
import Elementary.Source.Language

/-!
# Libraries

A library consists of all families of functions for one number type. The strategy decides how the
arguments of the trigonometric functions are reduced.

## Main definitions

* `Strategy`: the strategies.
* `Configuration.check`: whether settings fit together.
* `Library.families`: the generators of a strategy, in the order of the output.
* `Library.generate`, `Library.program`: the functions and tests of a library, and its source text.
-/

namespace Elementary

/-- How the arguments of trigonometric functions are **reduced**. -/
inductive Strategy where
  | singlePass
  | quadrant
  deriving DecidableEq, Repr

namespace Strategy

/-- The name of a strategy in settings. -/
def name : Strategy → String
  | singlePass => "single_pass"
  | quadrant => "quadrant"

/-- The strategies. -/
def all : List Strategy := [singlePass, quadrant]

/-- The strategy of a name. -/
def ofName? (s : String) : Option Strategy := all.find? (·.name = s)

end Strategy

namespace Configuration

/-- The widths for which functions are generated. -/
def widths : List Int := [32, 64]

/-- The format of a width. -/
def precision (width : Int) : Except Failure Precision :=
  match [Precision.single, .double].find? fun p => (p.format.bitSize : Int) = width with
  | some p => .ok p
  | none => .error (.unknownKey (toString width))

/-- The texts of some names or numbers, one after another. -/
def listed (texts : List String) : String := ", ".intercalate texts

/-- The **number type** that a setting names. -/
def numberType (s : String) : Traced NumberType :=
  match NumberType.ofTag? s with
  | some nt => return nt
  | none =>
    Traced.abort ("unknown number type " ++ s ++ " (supported number types are: " ++
      listed (NumberType.all.map (·.tag)) ++ ")") (.configuration s)

/-- Checks that a **width, a number type and a strategy fit together**, in this order; gives the
strategy. -/
def check (width : Int) (nt : NumberType) (strategy : String) : Traced Strategy := do
  unless widths.contains width do
    Traced.abort ("unsupported bit width " ++ toString width ++ " (supported widths are: " ++
      listed (widths.map toString) ++ ")") (.configuration (toString width))
  unless (nt.precision.format.bitSize : Int) = width do
    Traced.abort ("number type " ++ nt.tag ++ " does not match bit width " ++ toString width)
      (.configuration nt.tag)
  match Strategy.ofName? strategy with
  | some s => return s
  | none =>
    Traced.abort ("unknown strategy " ++ strategy ++ " (supported strategies are: " ++
      listed (Strategy.all.map (·.name)) ++ ")") (.configuration strategy)

end Configuration

namespace Library

/-- The **generators of a strategy** with their names, in the order of the output. -/
def families (strategy : Strategy) : List (String × (Setting → Traced Family)) :=
  [match strategy with
    | .singlePass => ("gen_single_pass_trig", Trigonometric.singlePass)
    | .quadrant => ("gen_quadrant_trig", Trigonometric.quadrants),
    ("gen_inv_trig", InverseTrigonometric.family),
    ("gen_log_exp", Exponential.family),
    ("gen_hyperbolic", Hyperbolic.family),
    ("gen_recip_sqrt_family", Root.family),
    ("gen_aux", Auxiliary.family)]

/-- The **functions and tests** of a library. -/
def generate (s : Setting) (strategy : String) : Traced Family := do
  let strategy ← Configuration.check s.width s.numberType strategy
  (families strategy).foldlM (fun library (name, generator) => do
    Traced.report (.info "driver") ("generating family " ++ name)
    let family ← generator s
    return ⟨library.functions ++ family.functions, library.tests ++ family.tests⟩) ⟨[], []⟩

/-- The **source text** of a library, and what it was written from. -/
def program (s : Setting) (strategy : String) (language : Language) : Traced (String × Family) := do
  let library ← generate s strategy
  Traced.report (.info "driver") ("rendering " ++ toString library.functions.length ++
    " function(s) and " ++ toString library.tests.length ++ " test(s) as " ++
    Language.classText)
  return (← language.program s.numberType library.functions library.tests, library)

end Library

end Elementary
