import Elementary.Number.Basic

/-!
# Errors in units of the last place

The error of a computed value is counted in units of the last place of a format: either of the
unit at one, or of the unit at the magnitude of the reference, which below the smallest normal
number stays what it is there.

## Main definitions

* `ErrorMode`: the two ways of counting.
* `ErrorMode.ulpScale`: the unit.
* `ErrorMode.ulpError`: the error of a value in units.
-/

namespace Elementary

/-- The **unit** in which an error is counted. -/
inductive ErrorMode where
  | absolute
  | relative
  deriving DecidableEq, Repr

namespace ErrorMode

/-- The name of a way of counting. -/
def tag : ErrorMode → String
  | absolute => "absolute"
  | relative => "relative"

/-- The way of counting with a given name. -/
def ofTag? (s : String) : Option ErrorMode := [absolute, relative].find? (·.tag = s)

/-- The **unit in the last place** of a format at a reference. -/
def ulpScale (mode : ErrorMode) (fmt : Format) (reference : Rat) : Rat :=
  match mode with
  | absolute => pow2 (-(fmt.fieldSize : Int))
  | relative =>
    let least := pow2 fmt.minNormalExponent
    pow2 (floorLog2 (if reference.abs < least then least else reference.abs) - fmt.fieldSize)

/-- The distance of a candidate from a reference **in units** of the format. -/
def ulpError (mode : ErrorMode) (fmt : Format) (candidate reference : Rat) : Rat :=
  (candidate - reference).abs / mode.ulpScale fmt reference

end ErrorMode

end Elementary
