/-!
# C expressions

The part of the C expression language that generated functions use. Every operator application
stands in parentheses of its own, which are part of the term, so that a term is written by putting
its parts next to each other.

## Main definitions

* `C.Term`: the expressions.
* `C.Term.text`: how an expression is written.
-/

namespace Elementary.C

/-- A **C expression**. -/
inductive Term where
  | identifier (name : String)
  /-- A numeric literal without a sign. -/
  | literal (digits : String)
  | call (function : String) (arguments : List Term)
  | negation (operand : Term)
  | binary (operator : String) (left right : Term)
  | conditional (condition ifTrue ifFalse : Term)
  | cast (type : String) (operand : Term)
  | member (operand : Term) (name : String)
  | parenthesized (inner : Term)

namespace Term

mutual

/-- How an expression is **written**. -/
def text : Term → String
  | identifier name => name
  | literal digits => digits
  | call function arguments => function ++ "(" ++ ", ".intercalate (texts arguments) ++ ")"
  | negation operand => "-" ++ operand.text
  | binary operator left right => left.text ++ " " ++ operator ++ " " ++ right.text
  | conditional condition ifTrue ifFalse =>
    condition.text ++ " ? " ++ ifTrue.text ++ " : " ++ ifFalse.text
  | cast type operand => "(" ++ type ++ ") " ++ operand.text
  | member operand name => operand.text ++ "." ++ name
  | parenthesized inner => "(" ++ inner.text ++ ")"

/-- How expressions are written, one by one. -/
def texts : List Term → List String
  | [] => []
  | t :: ts => t.text :: texts ts

end

/-- A number with its sign: a negative one is a negation in parentheses. -/
def signed (negative : Bool) (digits : String) : Term :=
  if negative then parenthesized (negation (literal digits)) else literal digits

end Term

end Elementary.C
