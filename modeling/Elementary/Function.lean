import Elementary.Expr.Quantize
import Elementary.Fit.Basic

/-!
# Generated functions

A generated function has a name, arguments, and a sequence of statements that ends by giving its
value, or several values at once. All its numbers are of one number type.

## Main definitions

* `GeneratedFunction`: the functions.
* `GeneratedFunction.quantize`: the function with the constants of its body quantized.
* `GeneratedFunction.find?`: a function by its name.
-/

namespace Elementary

/-- A **generated function**. -/
structure GeneratedFunction where
  name : String
  numberType : NumberType
  arguments : List String
  /-- The statements of the body, in order. -/
  statements : List Expr
  /-- How many values the function gives. -/
  outputs : Int
  /-- The fits from which the body was built. -/
  fits : List Fit.Result

namespace GeneratedFunction

/-- The **body** as one expression. -/
def body (f : GeneratedFunction) : Expr := .node .statement f.statements

/-- The function with another body, which has to be a sequence of statements. -/
def withBody (f : GeneratedFunction) (body : Expr) : Except Failure GeneratedFunction :=
  match body with
  | .node .statement statements => .ok { f with statements := statements }
  | _ => .error .requirement

/-- The signature as text. -/
def text (f : GeneratedFunction) : String :=
  f.name ++ "(" ++ ", ".intercalate f.arguments ++ ") [" ++ f.numberType.tag ++ "]"

/-- The function with **every constant of its body quantized** for a number type. -/
def quantizeFor (f : GeneratedFunction) (nt : NumberType) : Traced GeneratedFunction := do
  Traced.report (.info "passes")
    ("executing pass " ++ quantizationName ++ " on function " ++ f.name)
  let body ← f.body.quantize nt
  Traced.ofExcept (f.withBody body)

/-- The function with every constant of its body quantized for its own number type. -/
def quantize (f : GeneratedFunction) : Traced GeneratedFunction := f.quantizeFor f.numberType

/-- The function with a given name: of several, the last. -/
def find? (functions : List GeneratedFunction) (name : String) : Option GeneratedFunction :=
  functions.reverse.find? (·.name = name)

end GeneratedFunction

end Elementary
