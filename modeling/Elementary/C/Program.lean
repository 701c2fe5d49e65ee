import Elementary.C.Lowering
import Elementary.Function
import Elementary.Source.Buffer
import Elementary.TestCase.Basic

/-!
# Programs in C

A program consists of a preamble for its precision, the result types of the functions with several
values, the declarations of all functions, their definitions, and the tests.

A generated function becomes a C function. Its statements are flattened; a name is declared by the
first assignment to it, unless it is an argument. A test case becomes a C function that tells
whether the largest error over the samples stays within the bound.

## Main definitions

* `C.Statement`: the statements of generated functions.
* `C.addFunction`: writes the definition of a generated function.
* `C.addTest`: writes the definition of a test.
* `C.program`: the text of a program.
-/

namespace Elementary.C

open Source (Buffer)

/-! ### Definitions -/

/-- A **statement** of a generated function. -/
inductive Statement where
  | declaration (type name : String) (value : Term)
  | assignment (name : String) (value : Term)
  | result (value : Term)
  /-- The result of a function with several values. -/
  | resultStruct (type : String) (values : List Term)

/-- How a statement is written. -/
def Statement.text : Statement → String
  | declaration type name value => type ++ " " ++ name ++ " = " ++ value.text ++ ";"
  | assignment name value => name ++ " = " ++ value.text ++ ";"
  | result value => "return " ++ value.text ++ ";"
  | resultStruct type values =>
    "return (" ++ type ++ ") \x7b" ++ ", ".intercalate (values.map Term.text) ++ "\x7d;"

/-- The type of the result of a function. -/
def resultType (f : GeneratedFunction) (p : Precision) : String :=
  if 1 < f.outputs then f.name ++ "_result" else typeName p

/-- The **declaration** of a function, without what follows it. -/
def declaration (f : GeneratedFunction) (p : Precision) : String :=
  resultType f p ++ " " ++ f.name ++ "(" ++
    ", ".intercalate (f.arguments.map fun a => typeName p ++ " " ++ a) ++ ")"

/-- The type of a variable that first holds a value: the result of a test is an integer. -/
def variableType (p : Precision) (value : Expr) : String :=
  match value.op with
  | .comparison _ | .isOdd => "int"
  | _ => typeName p

/-- The **statement** for an assignment or a result, where some names are declared. -/
def lowerStatement (f : GeneratedFunction) (p : Precision) (isDeclared : String → Bool) (e : Expr) :
    Except Failure Statement :=
  let suffix := suffixOf p
  match e with
  | .node .assignment [target, value] =>
    match target.op with
    | .var name _ => do
      let term ← lower p suffix value
      return if isDeclared name then .assignment name term
        else .declaration (variableType p value) name term
    | _ => .error (.missingPart (target.name ++ " cannot be assigned to"))
  | .node .result [value] =>
    match value with
    | .node .tuple values => do return .resultStruct (resultType f p) (← lowerAll p suffix values)
    | value => do return .result (← lower p suffix value)
  | .node op _ => .error (unsupported op " (not a statement)")

/-- A buffer in which a name is declared; without an open scope there is nowhere to declare it. -/
def declareIn (b : Buffer) (name : String) : Buffer := (b.declare? name).getD b

/-- Writes a statement on a line of its own. -/
def addStatement (f : GeneratedFunction) (p : Precision) (b : Buffer) (e : Expr) :
    Except Failure Buffer := do
  let s ← lowerStatement f p b.scopes.isDeclared e
  let b := match s with
    | .declaration _ name _ => declareIn b name
    | _ => b
  return b.add (s.text ++ "\n")

/-- Ends a block with the usual footer. -/
def closeBlock (b : Buffer) : Buffer := (b.closeBlock? Buffer.defaultFooter "\n").getD b

/-- Writes the **definition of a function**. -/
def addFunction (p : Precision) (b : Buffer) (f : GeneratedFunction) : Except Failure Buffer := do
  let opened := (b.add (declaration f p ++ " ")).openBlock Buffer.defaultHeader
  let inner := f.arguments.foldl declareIn opened
  return closeBlock (← (Expr.flattenAll f.statements).foldlM (addStatement f p) inner)

/-- The expression for the unit in which a test measures its error. -/
def unitText (p : Precision) (mode : ErrorMode) : String :=
  let fieldSize := toString p.format.fieldSize
  match mode with
  | .relative =>
    "ldexpl(1.0L, ilogbl(fmaxl(fabsl(reference), 0x1p" ++ toString p.format.minNormalExponent ++
      "L)) - " ++ fieldSize ++ ")"
  | .absolute => "0x1p-" ++ fieldSize ++ "L"

/-- Writes the **definition of a test**. -/
def addTest (p : Precision) (b : Buffer) (t : TestCase) : Except Failure Buffer := do
  let own (e : Expr) : Except Failure String := return (← lower p (suffixOf p) e).text
  let type := typeName p
  let b := (b.add ("int test_" ++ t.name ++ "(void) ")).openBlock Buffer.defaultHeader
  let b := b.add ("double lo = " ++ (← own t.low.expr) ++ ";\n")
  let b := b.add ("double hi = " ++ (← own t.high.expr) ++ ";\n")
  let b := b.add "long double max_error = 0.0L;\n"
  let b := (b.add ("for (int i = 0; i < " ++ toString t.sampleCount ++ "; ++i) ")).openBlock
    Buffer.defaultHeader
  let b := b.add (type ++ " " ++ t.argument ++ " = (" ++ type ++ ") (lo + (hi - lo) * i / " ++
    toString (max (t.sampleCount - 1) 1) ++ ");\n")
  let reference ← lower p widestSuffix t.reference
  let b := b.add ("long double reference = " ++ reference.text ++ ";\n")
  let b := b.add ("long double candidate = " ++ (← own t.candidate) ++ ";\n")
  let b := b.add ("long double scale = " ++ unitText p t.mode ++ ";\n")
  let b := b.add "long double error = fabsl(candidate - reference) / scale;\n"
  let b := b.add "if (isnan(error) || error > max_error) max_error = error;\n"
  let b := closeBlock b
  let bound ← t.maxErrorDatum
  let b := b.add ("return max_error <= " ++ bound.text Precision.double.format ++ ";\n")
  return closeBlock b

/-! ### Programs -/

/-- The **preamble** of a precision: a multiplication with an addition, and the number that some
bits stand for. -/
def preamble (p : Precision) : String :=
  let scalar := scalarType p
  let coding := match p with | .single => "unsigned" | .double => "unsigned long long"
  "#include<math.h>\n\ninline " ++ scalar ++ " mul_add(" ++ scalar ++ " a, " ++ scalar ++ " b, " ++
    scalar ++ " c) \x7b\n    return a * b + c;\n\x7d\n\ninline " ++ scalar ++ " from_bits(" ++
    coding ++ " x) \x7b\n    union \x7b\n        " ++ scalar ++ " f;\n        " ++ coding ++
    " x;\n    \x7d u;\n    u.x = x;\n    return u.f;\n\x7d\n\ntypedef " ++ scalar ++ " " ++
    typeName p ++ ";\n\n"

/-- The type of the result of a function with several values. -/
def resultTypedef (f : GeneratedFunction) (p : Precision) : String :=
  let fields := (List.range f.outputs.toNat).map fun i => typeName p ++ " v" ++ toString i ++ ";"
  "typedef struct \x7b " ++ " ".intercalate fields ++ " \x7d " ++ resultType f p ++ ";\n"

/-- A definition after an empty line. -/
def apart {α : Type} (add : Buffer → α → Except Failure Buffer) (b : Buffer) (a : α) :
    Except Failure Buffer :=
  add (b.add "\n") a

/-- The **text of a program**. -/
def program (p : Precision) (functions : List GeneratedFunction) (tests : List TestCase) :
    Except Failure String := do
  let b := Buffer.empty.add (preamble p)
  let b := (functions.filter fun f => 1 < f.outputs).foldl (fun b f => b.add (resultTypedef f p)) b
  let b := functions.foldl (fun b f => b.add (declaration f p ++ ";\n")) b
  let b ← functions.foldlM (apart (addFunction p)) b
  let b ← tests.foldlM (apart (addTest p)) b
  return b.text

end Elementary.C
