import Elementary.Function
import Elementary.Native.Lowering
import Elementary.TestCase.Basic
import Elementary.Text.Word

/-!
# Python modules

A module consists of imports, helpers, the generated functions and the tests. Every definition is
set apart by an empty line.

## Main definitions

* `Native.Statement`: the statements of generated functions.
* `Native.Definition`: a function definition.
* `Native.Definition.ofFunction`, `Native.Definition.ofTest`: the definitions of generated
  functions and of tests.
* `Native.program`: the text of a module.
-/

namespace Elementary.Native

/-- A **statement**; the statements of the test template are those of its loop. -/
inductive Statement where
  | assignment (name : String) (value : Term)
  | result (value : Term)
  /-- A loop over samples. -/
  | loop (sample : String) (sequence : Term) (body : List Statement)
  /-- A choice without an alternative, made when one of some conditions holds. -/
  | conditional (disjuncts : List Term) (body : List Statement)
  /-- A claim with the message of its failure. -/
  | assertion (condition message : Term)

/-- A **function definition**. -/
structure Definition where
  name : String
  parameters : List String
  body : List Statement

/-- The indentation of a level. -/
def indentation (level : Nat) : String := String.ofList (List.replicate (4 * level) ' ')

namespace Statement

mutual

/-- The lines of a statement at a level of indentation. -/
def lines (level : Nat) : Statement → List String
  | assignment name value => [indentation level ++ name ++ " = " ++ value.text]
  | result value => [indentation level ++ "return " ++ value.text]
  | loop name sequence body =>
    (indentation level ++ "for " ++ name ++ " in " ++ sequence.text ++ ":") ::
      linesOfAll (level + 1) body
  | conditional disjuncts body =>
    (indentation level ++ "if " ++ " or ".intercalate (disjuncts.map (Term.textAt .comparison)) ++
      ":") :: linesOfAll (level + 1) body
  | assertion condition message =>
    [indentation level ++ "assert " ++ condition.text ++ ", " ++ message.text]

/-- The lines of some statements. -/
def linesOfAll (level : Nat) : List Statement → List String
  | [] => []
  | s :: ss => s.lines level ++ linesOfAll level ss

end

/-- The **statement** of an assignment or a result. -/
def ofExpr (nt : NumberType) (e : Expr) : Except Failure Statement :=
  let style : Style := ⟨nt, false⟩
  match e with
  | .node .assignment [target, value] =>
    match target.op with
    | .var name _ => do return assignment name (← lower style value)
    | _ => .error (.missingPart (target.name ++ " cannot be assigned to"))
  | .node .result [value] => do return result (← lower style value)
  | .node op _ => .error (unsupported op " (not a statement)")

end Statement

/-- The words that cannot be names. -/
def keywords : List String :=
  ["False", "None", "True", "and", "as", "assert", "async", "await", "break", "class", "continue",
    "def", "del", "elif", "else", "except", "finally", "for", "from", "global", "if", "import",
    "in", "is", "lambda", "nonlocal", "not", "or", "pass", "raise", "return", "try", "while",
    "with", "yield"]

/-- Whether a text can be a **name**: it begins with a letter or an underscore, goes on with those
and digits, of any script, and is no keyword. -/
def isName (s : String) : Bool :=
  match s.toList with
  | [] => false
  | c :: cs =>
    Text.isWordChar c && !Text.isDigit c && cs.all Text.isWordChar && !keywords.contains s

namespace Definition

/-- The lines of a definition. -/
def lines (d : Definition) : List String :=
  ("def " ++ d.name ++ "(" ++ ", ".intercalate d.parameters ++ "):") ::
    Statement.linesOfAll 1 d.body

/-- The **definition of a generated function**, whose name and arguments have to be names. -/
def ofFunction (nt : NumberType) (f : GeneratedFunction) : Except Failure Definition := do
  unless (f.name :: f.arguments).all isName do
    .error (.notAName f.name)
  return ⟨f.name, f.arguments, ← (Expr.flattenAll f.statements).mapM (Statement.ofExpr nt)⟩

/-- The **definition of a test**: the largest error over the samples is compared with the bound. -/
def ofTest (nt : NumberType) (t : TestCase) : Except Failure Definition := do
  let own : Style := ⟨nt, false⟩
  let fmt := nt.precision.format
  let low ← lower own t.low.expr
  let high ← lower own t.high.expr
  let reference ← lower ⟨nt, true⟩ t.reference
  let candidate ← lower own t.candidate
  let bound ← t.maxErrorDatum
  let magnitude (x : String) : Term := .callOf "float" [.name x]
  let scale := Term.callOf "ulp_scale"
    [.name "reference", .integer fmt.fieldSize, .integer fmt.minNormalExponent,
      .truth (t.mode == .relative)]
  let error := Term.binary .div
    (.callOf "abs" [.binary .sub (magnitude "candidate") (magnitude "reference")]) (.name "scale")
  return ⟨"test_" ++ t.name, [],
    [.assignment "lo" low, .assignment "hi" high, .assignment "max_error" (.float Datum.zero),
      .loop "sample" (.call (.library "linspace") [.name "lo", .name "hi", .integer t.sampleCount])
        [.assignment t.argument (.call (.library (scalarType nt.precision)) [.name "sample"]),
          .assignment "reference" reference, .assignment "candidate" candidate,
          .assignment "scale" scale, .assignment "error" error,
          .conditional [.call (.field (.name "math") "isnan") [.name "error"],
              .comparison .greater (.name "error") (.name "max_error")]
            [.assignment "max_error" (.name "error")]],
      .assertion (.comparison .lessOrEqual (.name "max_error") (.float bound))
        (.string (t.name ++ " exceeds " ++ t.maxError.text ++ " ulp(s)"))]⟩

end Definition

/-- The imports of a module. -/
def imports : List String := ["import math", "import numpy as np"]

/-- The **helpers** of a module: numbers from bits, lanes of a vector, the operations on exponents
and mantissas, and the unit in the last place. -/
def helpers : List (List String) :=
  [["def from_bits32(bits):",
      "    return np.array(bits, dtype=np.uint32).view(np.float32)[()]"],
    ["def from_bits64(bits):",
      "    return np.array(bits, dtype=np.uint64).view(np.float64)[()]"],
    ["def splat(value):", "    return np.asarray(value)"],
    ["def mul_add(a, b, c):", "    return a * b + c"],
    ["def is_odd(k):", "    return np.fmod(k, 2) != 0"],
    ["def exponent_insertion(k, dtype):",
      "    return np.ldexp(dtype(1), np.asarray(k).astype(np.int64))"],
    ["def exponent(x):", "    return (np.frexp(x)[1] - 1).astype(x.dtype)"],
    ["def mantissa(x):", "    return np.frexp(x)[0] * 2"],
    ["def ulp_scale(reference, field_size, emin, relative):",
      "    if not relative:",
      "        return math.ldexp(1.0, -field_size)",
      "    magnitude = max(abs(float(reference)), math.ldexp(1.0, emin))",
      "    return math.ldexp(1.0, math.frexp(magnitude)[1] - 1 - field_size)"]]

/-- The **text of a module**. -/
def program (nt : NumberType) (functions : List GeneratedFunction) (tests : List TestCase) :
    Except Failure String := do
  let functions ← functions.mapM (Definition.ofFunction nt)
  let tests ← tests.mapM (Definition.ofTest nt)
  let blocks := imports :: helpers ++ (functions ++ tests).map Definition.lines
  return "\n\n".intercalate (blocks.map fun lines => "\n".intercalate lines) ++ "\n"

end Elementary.Native
