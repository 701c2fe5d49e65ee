import Elementary.Log.Basic

/-!
# Numbers of terms

How many terms the approximation of a function has, and how often an approximate result is refined,
depends on the function and on the width of the format.

## Main definitions

* `TermKind`: what a number of terms is chosen for.
* `TermTables`: the numbers chosen, and `TermTables.standard`.
* `TermTables.count`: the number for a width.
-/

namespace Elementary

/-- What a **number of terms** or of refinements is chosen for. The cosine of a period and of a
quadrant has one term more than the sine. -/
inductive TermKind where
  | singlePass
  | quadrant
  | tangent
  | arctangent
  | arcsine
  | exponential
  | logarithm
  | hyperbolicSine
  | hyperbolicCosine
  | hyperbolicTangent
  | reciprocalSeed
  | rootSeed
  | reciprocalIterations
  | rootIterations
  deriving DecidableEq, Repr

namespace TermKind

/-- The name of a table of numbers of terms in settings. -/
def name : TermKind → String
  | singlePass => "SINGLE_PASS_TERMS"
  | quadrant => "QUADRANT_TERMS"
  | tangent => "TAN_TERMS"
  | arctangent => "ATAN_TERMS"
  | arcsine => "ASIN_TERMS"
  | exponential => "EXP_TERMS"
  | logarithm => "LOG_TERMS"
  | hyperbolicSine => "SINH_TERMS"
  | hyperbolicCosine => "COSH_TERMS"
  | hyperbolicTangent => "TANH_TERMS"
  | reciprocalSeed => "RECIP_SEED_TERMS"
  | rootSeed => "RSQRT_SEED_TERMS"
  | reciprocalIterations => "RECIP_ITERATIONS"
  | rootIterations => "RSQRT_ITERATIONS"

/-- What numbers of terms are chosen for. -/
def all : List TermKind :=
  [singlePass, quadrant, tangent, arctangent, arcsine, exponential, logarithm, hyperbolicSine,
    hyperbolicCosine, hyperbolicTangent, reciprocalSeed, rootSeed, reciprocalIterations,
    rootIterations]

/-- What the numbers of a table are chosen for. -/
def ofName? (s : String) : Option TermKind := all.find? (·.name = s)

end TermKind

/-- The **numbers chosen**, for each kind under the width of the format in bits. -/
structure TermTables where
  table : TermKind → List (Int × Int)

namespace TermTables

/-- The standard numbers for formats of 32 and of 64 bits. -/
def standardCounts : TermKind → Int × Int
  | .singlePass => (7, 11)
  | .quadrant => (5, 8)
  | .tangent => (8, 14)
  | .arctangent => (11, 23)
  | .arcsine => (8, 16)
  | .exponential => (7, 12)
  | .logarithm => (6, 11)
  | .hyperbolicSine => (5, 9)
  | .hyperbolicCosine => (6, 10)
  | .hyperbolicTangent => (7, 13)
  | .reciprocalSeed => (4, 4)
  | .rootSeed => (5, 5)
  | .reciprocalIterations => (2, 3)
  | .rootIterations => (3, 4)

/-- The **standard tables**. -/
def standard : TermTables :=
  ⟨fun kind => [(32, (standardCounts kind).1), (64, (standardCounts kind).2)]⟩

/-- The tables with the number for a kind and a width replaced, or removed. -/
def set (t : TermTables) (kind : TermKind) (width : Int) (count : Option Int) : TermTables :=
  ⟨fun k =>
    if k = kind then
      let others := (t.table k).filter fun entry => entry.1 != width
      match count with
      | some n => (width, n) :: others
      | none => others
    else t.table k⟩

/-- The **number** for a kind and a width. -/
def count (t : TermTables) (kind : TermKind) (width : Int) : Traced Int :=
  match (t.table kind).lookup width with
  | some n => return n
  | none =>
    Traced.abort ("no term count for " ++ toString width ++ "-bit approximations")
      (.unknownKey (toString width))

end TermTables

end Elementary
