/-!
# Binary formats

A binary floating-point format is given by the widths of its exponent field and of its fraction
field; its exponent range and its bit layout follow from them. Two formats are targeted, and a
number type says whether a number of one of them stands alone or fills the lanes of a vector.

## Main definitions

* `Format`: the two widths, with the exponent bounds derived from them.
* `Precision`: the two targeted formats.
* `NumberType`: a precision, alone or spread over a vector.
-/

namespace Elementary

/-- A **binary format**: a sign bit, `exponentSize` bits of biased exponent and `fieldSize` bits of
fraction. The exponent field is never empty. -/
structure Format where
  exponentSize : Nat
  fieldSize : Nat
  exponentSize_pos : 0 < exponentSize := by decide
  deriving DecidableEq, Repr

namespace Format

/-- The width of a coding in bits. -/
def bitSize (fmt : Format) : Nat := 1 + fmt.exponentSize + fmt.fieldSize

/-- The number of significant bits of a normal number, the leading one included. -/
def mantissaSize (fmt : Format) : Nat := fmt.fieldSize + 1

/-- What is **added to a biased exponent** to give the exponent. -/
def bias (fmt : Format) : Int := 1 - Nat.pow 2 (fmt.exponentSize - 1)

/-- The largest exponent of a finite number. -/
def maxExponent (fmt : Format) : Int := Nat.pow 2 fmt.exponentSize - 2 + fmt.bias

/-- The smallest exponent of a normal number. -/
def minNormalExponent (fmt : Format) : Int := 1 + fmt.bias

/-- The exponent of the smallest positive number. -/
def minSubnormalExponent (fmt : Format) : Int := 1 - (fmt.fieldSize : Int) + fmt.bias

/-- The biased exponent that codes the infinities and the codings that are no number. -/
def specialExponent (fmt : Format) : Nat := Nat.pow 2 fmt.exponentSize - 1

/-- A format is named by its width. -/
def name (fmt : Format) : String := "binary" ++ toString fmt.bitSize

end Format

/-- The two **targeted precisions**. -/
inductive Precision where
  | single
  | double
  deriving DecidableEq, Repr

namespace Precision

/-- The format of a precision. -/
def format : Precision → Format
  | single => { exponentSize := 8, fieldSize := 23 }
  | double => { exponentSize := 11, fieldSize := 52 }

/-- The name of the precision's format. -/
def name (p : Precision) : String := p.format.name

/-- The targeted precisions. -/
def all : List Precision := [single, double]

/-- The precision of a given bit width. -/
def ofBitSize? (bits : Int) : Option Precision :=
  all.find? fun p => (p.format.bitSize : Int) = bits

/-- The precision of a name. -/
def ofName? (s : String) : Option Precision := all.find? (·.name = s)

end Precision

/-- The precision in which operands of two precisions meet: the wider one. -/
def Precision.wider : Precision → Precision → Precision
  | .single, .single => .single
  | _, _ => .double

/-- The **format attribute** of an operation: a precision, or the format of truth values. -/
inductive ResultFormat where
  | truth
  | binary (p : Precision)
  deriving DecidableEq, Repr

/-- The name of a format attribute. -/
def ResultFormat.name : ResultFormat → String
  | truth => "bool"
  | binary p => p.name

/-- The format attribute of a name. -/
def ResultFormat.ofName? (s : String) : Option ResultFormat :=
  if s = truth.name then some truth else (Precision.ofName? s).map binary

/-- A **number type**: the numbers of one precision, alone or one in each lane of a vector. -/
structure NumberType where
  precision : Precision
  isVector : Bool
  deriving DecidableEq, Repr

namespace NumberType

/-- The tag by which a number type is chosen and shown. -/
def tag (nt : NumberType) : String :=
  (match nt.precision with
    | .single => "f32"
    | .double => "f64") ++ if nt.isVector then "_simd" else "_hex"

/-- Every number type, in the order in which they are listed. -/
def all : List NumberType :=
  [⟨.single, false⟩, ⟨.single, true⟩, ⟨.double, false⟩, ⟨.double, true⟩]

/-- The number type with a given tag. -/
def ofTag? (tag : String) : Option NumberType := all.find? (·.tag = tag)

end NumberType

end Elementary
