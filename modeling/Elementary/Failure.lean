import Elementary.Text.DecimalDigit
import Elementary.Text.Quoted

/-!
# Failures

Everything that can go wrong, by cause. A failure carries what its message shows, and the wording
is in one place; many failures show the offending value alone.

## Main definitions

* `MarkupFault`, `Failure`: the causes.
* `Failure.message`: the wording.
-/

namespace Elementary

/-- What can be **wrong with a text in a markup format**. -/
inductive MarkupFault where
  /-- A character that may not stand in a text. -/
  | character
  /-- A mark, a quotation or an indentation that is not well formed. -/
  | token
  /-- Tokens in an order that makes no document. -/
  | shape
  /-- A reference to nothing, a second definition, or a second document. -/
  | reference
  /-- A value that does not fit its tag. -/
  | construction
  deriving DecidableEq, Repr, Inhabited

/-- The **causes of failure**. -/
inductive Failure where
  /-- A value of a kind that the operation does not take. -/
  | wrongKind (text : String)
  /-- A part was asked of a value that has no such part. -/
  | missingPart (text : String)
  /-- A requirement on the caller was not met. -/
  | requirement
  /-- A position outside a sequence. -/
  | outOfBounds (text : String)
  /-- A text that denotes no rational. -/
  | badLiteral (text : String)
  /-- A text that denotes no integer. -/
  | badInteger (text : String)
  /-- An integer with more digits than are read or shown, and how many it was given with, if it was
  read. -/
  | tooManyDigits (given : Option Nat)
  /-- A fraction whose denominator is zero. -/
  | zeroDenominator (numerator : Int)
  /-- A division of numbers of arbitrary precision by zero. -/
  | divisionByZero
  /-- A division of integers or of untyped floating-point numbers by zero. -/
  | plainDivisionByZero (text : String)
  /-- A number that has no exact value. -/
  | notExact (text : String)
  /-- A number beyond the range of a format. -/
  | overflow (value format : String)
  /-- An infinity, or a number too large, where an integer is needed. -/
  | integerOverflow
  /-- No number where an integer is needed. -/
  | integerOfNan
  /-- The coding of an infinity or of no number. -/
  | specialCoding (coding format : String)
  /-- A name that a table does not hold. -/
  | unknownKey (key : String)
  /-- A wrong number of operands. -/
  | operandCount (name : String) (expected given : Nat)
  /-- An error bound that is not positive. -/
  | boundNotPositive (text : String)
  /-- A test whose domain holds no interval. -/
  | emptyTestDomain (name : String)
  /-- A negative number of samples. -/
  | negativeSampleCount (count : Int)
  /-- A sequence where one truth value is needed. -/
  | ambiguousTruth
  /-- An empty sequence where one truth value is needed. -/
  | emptyTruth
  /-- A variable without a value. -/
  | unboundVariable (name : String)
  /-- A call of a function that is not there. -/
  | unknownFunction (name : String)
  /-- A mathematical function that is not known. -/
  | unknownMathFunction (name : String)
  /-- An operation that an evaluation, named for its arithmetic, does not know. -/
  | notEvaluable (evaluation name : String)
  /-- A test whose candidate is not finite at a sample. -/
  | candidateNotFinite (test sample : String)
  /-- Functions that call each other without end. -/
  | callDepth (name : String)
  /-- A fit that does not exist or is not found. -/
  | approximation (text : String)
  /-- A constant that a format cannot hold. -/
  | quantization (text : String)
  /-- A transformation that was abandoned. -/
  | transformation (text : String)
  /-- An operation that a code generator cannot express, and what is said about it. -/
  | unsupportedNode (generator name remark : String)
  /-- A text that cannot be the name of a function or of an argument. -/
  | notAName (text : String)
  /-- A language without a code generator. -/
  | unsupportedLanguage (name : String)
  /-- Settings that do not fit together. -/
  | configuration (text : String)
  /-- A feature that is not provided. -/
  | notProvided (text : String)
  /-- A value, as it is shown, that names no parity. -/
  | unknownParity (shown : String)
  /-- The end of the program with an exit code. -/
  | exit (code : Int)
  /-- A file that cannot be opened. -/
  | fileAccess
  /-- A text that is not in the JSON format. -/
  | malformedJson
  /-- A text that is not in the YAML format, for a reason. -/
  | malformedYaml (fault : MarkupFault)
  /-- A template of a message that is not well formed, or a layout that a value does not have. -/
  | badTemplate (text : String)
  /-- A level with more than one sub-level. -/
  | overlongLevel
  /-- A failure of a kind and a text that a caller chose. -/
  | custom (kind text : String)
  deriving DecidableEq, Repr, Inhabited

namespace Failure

/-- The **wording** of a failure. -/
def message : Failure → String
  | wrongKind text | missingPart text | outOfBounds text => text
  | requirement => ""
  | badLiteral text => "Invalid literal for Fraction: " ++ Text.quoted text
  | badInteger text => "invalid literal for int() with base 10: " ++ Text.quoted text
  | tooManyDigits given =>
    "Exceeds the limit (" ++ toString Text.digitLimit ++ " digits) for integer string conversion" ++
      (match given with
        | none => ""
        | some n => ": value has " ++ toString n ++ " digits") ++
      "; use sys.set_int_max_str_digits() to increase the limit"
  | zeroDenominator n => "Fraction(" ++ toString n ++ ", 0)"
  | divisionByZero => ""
  | plainDivisionByZero text => text
  | notExact text => "non-finite value " ++ text ++ " has no exact value"
  | overflow value format => value ++ " overflows " ++ format
  | integerOverflow => "cannot convert float infinity to integer"
  | integerOfNan => "cannot convert float NaN to integer"
  | specialCoding coding format =>
    "coding " ++ coding ++ " is not a finite " ++ format ++ " number"
  | unknownKey key => key
  | operandCount name expected given =>
    name ++ " expects " ++ toString expected ++ " operand(s), " ++ toString given ++ " given"
  | boundNotPositive text => text
  | emptyTestDomain name => name
  | negativeSampleCount n =>
    "Number of samples, " ++ toString n ++ ", must be non-negative."
  | ambiguousTruth =>
    "The truth value of an array with more than one element is ambiguous. " ++
      "Use a.any() or a.all()"
  | emptyTruth =>
    "The truth value of an empty array is ambiguous. " ++
      "Use `array.size > 0` to check that an array is not empty."
  | callDepth name => name
  | unboundVariable name | unknownFunction name | unknownMathFunction name => name
  | notEvaluable _ name | candidateNotFinite name _ => name
  | unsupportedNode _ name _ | unsupportedLanguage name => name
  | approximation text | quantization text | transformation text | configuration text => text
  | notProvided text | notAName text | badTemplate text => text
  | unknownParity shown => shown ++ " is not a valid Parity"
  | exit code => toString code
  | fileAccess | malformedJson | malformedYaml _ => ""
  | overlongLevel => "too many values to unpack (expected 2)"
  | custom _ text => text

/-- The sentence that **reports** a failure of an evaluation or of a code generator. -/
def report? : Failure → Option String
  | unboundVariable name => some ("unbound variable " ++ name)
  | unknownFunction name => some ("call to unknown function " ++ name)
  | unknownMathFunction name => some ("unknown mathematical function " ++ name)
  | notEvaluable evaluation name => some (evaluation ++ " does not support " ++ name)
  | unsupportedNode generator name remark =>
    some (generator ++ " can not generate " ++ name ++ remark)
  | candidateNotFinite test sample => some (test ++ " is not finite for x=" ++ sample)
  | _ => none

/-- Whether a failure says that a **value does not exist**: a division by zero, or a value outside
the domain of an operation. -/
def isArithmetic : Failure → Bool
  | badLiteral _ | badInteger _ | notExact _ | integerOfNan | specialCoding _ _ => true
  | zeroDenominator _ | divisionByZero | plainDivisionByZero _ => true
  | operandCount _ _ _ | tooManyDigits _ => true
  | _ => false

/-- How a failure is shown inside another text: a missing key is shown in quotes there. -/
def embedded (f : Failure) : String :=
  match f with
  | unknownKey key => Text.quoted key
  | f => f.message

end Failure

end Elementary
