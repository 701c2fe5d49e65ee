import Elementary.Expr.Basic

/-!
# Python expressions

The part of the Python expression language that generated functions use. A term holds no
parentheses; they are written where an operand binds more weakly than its place asks for.

## Main definitions

* `Native.Term`: the expressions.
* `Native.Term.level`: how strongly an expression binds.
* `Native.Term.textAt`: how an expression is written in a place that asks for a level.
-/

namespace Elementary.Native

/-- The **arithmetic operators**. -/
inductive Operator where
  | add
  | sub
  | mul
  | div
  deriving DecidableEq, Repr

/-- How an operator is written. -/
def Operator.symbol : Operator → String
  | add => "+"
  | sub => "-"
  | mul => "*"
  | div => "/"

/-- A **Python expression**. -/
inductive Term where
  | name (id : String)
  | integer (n : Int)
  | float (x : Datum)
  | string (s : String)
  | truth (b : Bool)
  | field (operand : Term) (name : String)
  | call (function : Term) (arguments : List Term)
  | negation (operand : Term)
  | binary (operator : Operator) (left right : Term)
  | comparison (relation : Relation) (left right : Term)
  | conditional (condition ifTrue ifFalse : Term)
  | tuple (components : List Term)
  | component (operand : Term) (index : Int)

/-- The **levels** at which expressions bind, the weakest first. -/
inductive Level where
  | choice
  | comparison
  | sum
  | product
  | sign
  | atom
  deriving DecidableEq, Repr

namespace Level

/-- The rank of a level. -/
def rank : Level → Nat
  | choice => 0
  | comparison => 1
  | sum => 2
  | product => 3
  | sign => 4
  | atom => 5

/-- The level above another. -/
def next : Level → Level
  | choice => comparison
  | comparison => sum
  | sum => product
  | product => sign
  | sign | atom => atom

end Level

/-- The level of an operator. -/
def Operator.level : Operator → Level
  | add | sub => .sum
  | mul | div => .product

namespace Term

/-- How strongly an expression **binds**. -/
def level : Term → Level
  | negation _ => .sign
  | binary operator _ _ => operator.level
  | comparison _ _ _ => .comparison
  | conditional _ _ _ => .choice
  | _ => .atom

/-- A floating-point literal: an infinity is a number too large to be finite. -/
def floatText : Datum → String
  | .infinite negative => if negative then "-1e309" else "1e309"
  | .nan => "(1e309-1e309)"
  | x => x.text Precision.double.format

/-- A text in parentheses if it binds more weakly than its place asks for. -/
def enclosed (own place : Level) (s : String) : String :=
  if own.rank < place.rank then "(" ++ s ++ ")" else s

mutual

/-- How an expression is **written in a place** that asks for a level. The right operand of an
operator is asked for the level above, the left one for the same. -/
def textAt (place : Level) : Term → String
  | name id => id
  | integer n => toString n
  | float x => floatText x
  | string s => Text.quoted s
  | truth b => if b then "True" else "False"
  | field operand label => operand.textAt .atom ++ "." ++ label
  | call function arguments =>
    function.textAt .atom ++ "(" ++ ", ".intercalate (texts arguments) ++ ")"
  | negation operand => enclosed .sign place ("-" ++ operand.textAt .sign)
  | binary operator left right =>
    enclosed operator.level place (left.textAt operator.level ++ " " ++ operator.symbol ++ " " ++
      right.textAt operator.level.next)
  | comparison relation left right =>
    enclosed .comparison place (left.textAt .sum ++ " " ++ relation.symbol ++ " " ++
      right.textAt .sum)
  | conditional condition ifTrue ifFalse =>
    enclosed .choice place (ifTrue.textAt .comparison ++ " if " ++ condition.textAt .comparison ++
      " else " ++ ifFalse.textAt .choice)
  | tuple [single] => "(" ++ single.textAt .choice ++ ",)"
  | tuple components => "(" ++ ", ".intercalate (texts components) ++ ")"
  | component operand index => operand.textAt .atom ++ "[" ++ toString index ++ "]"

/-- How expressions are written, one by one. -/
def texts : List Term → List String
  | [] => []
  | t :: ts => t.textAt .choice :: texts ts

end

/-- How an expression is **written** by itself. -/
def text (t : Term) : String := t.textAt .choice

/-- A function of the array library. -/
def library (function : String) : Term := field (.name "np") function

/-- A call of a named function. -/
def callOf (function : String) (arguments : List Term) : Term := call (.name function) arguments

end Term

end Elementary.Native
