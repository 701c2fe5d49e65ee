import Elementary.Number.Basic

/-!
# Expressions

An expression is a tree of operations. It describes the body of a generated function, the function
that an approximation is fitted to, or the reference of a test. Every operation has a name, maybe
an attribute, and a list of operands; most operations fix the number of their operands, and a tree
in which every operation has the right number is well formed.

## Main definitions

* `Op`: the operations with their attributes.
* `Expr`: the trees.
* `Op.arity`: how many operands an operation takes, if that is fixed.
* `Expr.build`: a tree from an operation and operands, numbers becoming constants.
* `Expr.copy`: a tree built anew.
* `Expr.WellFormed`: every operation has the right number of operands.
-/

namespace Elementary

/-- The **order relations** that a comparison may test. -/
inductive Relation where
  | less
  | lessOrEqual
  | greater
  | greaterOrEqual
  deriving DecidableEq, Repr

namespace Relation

/-- The symbol of a relation. -/
def symbol : Relation → String
  | less => "<"
  | lessOrEqual => "<="
  | greater => ">"
  | greaterOrEqual => ">="

/-- The relation with a given symbol. -/
def ofSymbol? (s : String) : Option Relation :=
  [less, lessOrEqual, greater, greaterOrEqual].find? (·.symbol = s)

/-- The relation that holds between two numbers exactly if the given one holds between them in
the other order. -/
def swap : Relation → Relation
  | less => greater
  | lessOrEqual => greaterOrEqual
  | greater => less
  | greaterOrEqual => lessOrEqual

/-- Whether a relation holds between two numbers whose order is known. -/
def holds (r : Relation) (o : Ordering) : Bool :=
  match r with
  | less => o == .lt
  | lessOrEqual => o != .gt
  | greater => o == .gt
  | greaterOrEqual => o != .lt

end Relation

/-- The **operations**, with their attributes. -/
inductive Op where
  /-- A number, kept as it is written. -/
  | constant (value : Number)
  /-- A mathematical constant, known by its name. -/
  | mathConstant (name : String)
  /-- The coding of a floating-point number. -/
  | bitPattern (coding : Int)
  /-- A named value, maybe of a known format. -/
  | var (name : String) (format : Option ResultFormat)
  /-- The number of a format that a bit pattern codes. -/
  | fromBits (format : Option ResultFormat)
  /-- A number in every lane of a vector. -/
  | splat (format : Option ResultFormat)
  /-- A value rounded to a format. -/
  | conversion (format : Option ResultFormat)
  | negation
  | absolute
  | nearestInteger
  | floor
  /-- Whether an integral value is odd. -/
  | isOdd
  /-- The power of two with an integral exponent. -/
  | exponentInsertion
  /-- The exponent of the binade of a number. -/
  | exponentExtraction
  /-- A number brought into the binade of one. -/
  | mantissaExtraction
  | addition
  | subtraction
  | multiplication
  | division
  /-- The first two operands multiplied, and the third added. -/
  | fusedMultiplyAdd
  | comparison (relation : Relation)
  /-- The second operand if the first is true, and otherwise the third. -/
  | select
  /-- An exact mathematical function. -/
  | mathFunction (name : String)
  /-- A call of a generated function. -/
  | functionCall (name : String)
  | tuple
  | tupleSelection (index : Int)
  /-- Binds a variable to a value. -/
  | assignment
  /-- Gives the value of a function. -/
  | result
  /-- A sequence of assignments and results. -/
  | statement
  /-- An operation known by its name alone, which nothing evaluates or renders. -/
  | custom (name : String)
  deriving DecidableEq, Inhabited

namespace Op

/-- The **name** under which an operation is shown. -/
def name : Op → String
  | constant _ => "Constant"
  | mathConstant _ => "MathConstant"
  | bitPattern _ => "BitPattern"
  | var _ _ => "Variable"
  | fromBits _ => "FromBits"
  | splat _ => "Splat"
  | conversion _ => "Conversion"
  | negation => "Negation"
  | absolute => "Abs"
  | nearestInteger => "NearestInteger"
  | floor => "Floor"
  | isOdd => "IsOdd"
  | exponentInsertion => "ExponentInsertion"
  | exponentExtraction => "ExponentExtraction"
  | mantissaExtraction => "MantissaExtraction"
  | addition => "Addition"
  | subtraction => "Subtraction"
  | multiplication => "Multiplication"
  | division => "Division"
  | fusedMultiplyAdd => "FusedMultiplyAdd"
  | comparison _ => "Comparison"
  | select => "Select"
  | mathFunction _ => "MathFunction"
  | functionCall _ => "FunctionCall"
  | tuple => "Tuple"
  | tupleSelection _ => "TupleSelection"
  | assignment => "Assignment"
  | result => "Return"
  | statement => "Statement"
  | custom name => name

/-- The **number of operands** of an operation, if it is fixed. -/
def arity : Op → Option Nat
  | constant _ | mathConstant _ | bitPattern _ | var _ _ => some 0
  | fromBits _ | splat _ | conversion _ => some 1
  | negation | absolute | nearestInteger | floor | isOdd => some 1
  | exponentInsertion | exponentExtraction | mantissaExtraction => some 1
  | addition | subtraction | multiplication | division => some 2
  | fusedMultiplyAdd => some 3
  | comparison _ => some 2
  | select => some 3
  | tupleSelection _ => some 1
  | assignment => some 2
  | result => some 1
  | mathFunction _ | functionCall _ | tuple | statement | custom _ => none

/-- The operations without an operand count of their own show none; a comparison and a selection
name their operands one by one, so that for them a wrong count is a wrong kind of call. -/
def arityFailure (op : Op) (expected given : Nat) : Failure :=
  match op with
  | comparison _ | tupleSelection _ => .wrongKind (op.name ++ " takes its operands one by one")
  | _ => .operandCount op.name expected given

/-- Checks the **number of operands** of an operation. -/
def checkArity (op : Op) (given : Nat) : Except Failure Unit :=
  match op.arity with
  | none => .ok ()
  | some expected =>
    if given = expected then .ok () else .error (op.arityFailure expected given)

/-- How a format attribute is shown. -/
def formatText : Option ResultFormat → String
  | none => "None"
  | some f => f.name

/-- The **attribute** of an operation as text, behind its name. -/
def attributeText : Op → String
  | constant value => "(" ++ value.text ++ ")"
  | mathConstant name => "(" ++ name ++ ")"
  | bitPattern coding => "(" ++ Text.hexMarked coding ++ ")"
  | var name _ => "(" ++ name ++ ")"
  | fromBits f | splat f | conversion f => "[" ++ formatText f ++ "]"
  | comparison r => "(" ++ r.symbol ++ ")"
  | mathFunction name | functionCall name => "(" ++ name ++ ")"
  | tupleSelection index => "[" ++ toString index ++ "]"
  | _ => ""

/-- The operations **without an attribute**, which are known by their name. -/
def plain : List Op :=
  [negation, absolute, nearestInteger, floor, isOdd, exponentInsertion, exponentExtraction,
    mantissaExtraction, addition, subtraction, multiplication, division, fusedMultiplyAdd, select,
    tuple, assignment, result, statement]

/-- The operation without an attribute that has a given name. -/
def ofName? (name : String) : Option Op := plain.find? (·.name = name)

/-- The name and the attribute of an operation. -/
def label (op : Op) : String := op.name ++ op.attributeText

end Op

/-- An **expression**: an operation and its operands. -/
inductive Expr where
  | node (op : Op) (operands : List Expr)

namespace Expr

instance : Inhabited Expr := ⟨node .statement []⟩

/-- The operation at the root. -/
def op : Expr → Op
  | node op _ => op

/-- The operands of the root. -/
def operands : Expr → List Expr
  | node _ operands => operands

/-- The name of the operation at the root. -/
def name (e : Expr) : String := e.op.name

/-- An **operand as it is given**: an expression, or a number that becomes a constant. -/
inductive Operand where
  | expr (e : Expr)
  | number (n : Number)

/-- Why a number cannot stand as an operand. -/
def promotionFailure (n : Number) : Failure :=
  .wrongKind ("unsupported operand in implicit_op conversion: " ++ n.text ++ " (<class>)")

/-- The expression that stands for an operand. -/
def Operand.promote : Operand → Except Failure Expr
  | expr e => .ok e
  | number n =>
    if n.isPromotable then .ok (node (.constant n) []) else .error (promotionFailure n)

/-- The expression of an operation on operands, when their number is right and every number among
them can be promoted. -/
def build (op : Op) (operands : List Operand) : Except Failure Expr := do
  op.checkArity operands.length
  return node op (← operands.mapM Operand.promote)

/-- The operation of an expression built anew **on other operands**. An operation that takes none is
given back as it is, on no operands. -/
def withOperands (e : Expr) (operands : List Expr) : Except Failure Expr :=
  if e.op.arity = some 0 then
    if operands.isEmpty then .ok (node e.op []) else .error .requirement
  else build e.op (operands.map .expr)

mutual

/-- A **copy** of an expression: every operation is built anew on the copies of its operands. -/
def copy : Expr → Except Failure Expr
  | node op operands => do withOperands (node op operands) (← copyAll operands)

/-- The copies of a list of expressions. -/
def copyAll : List Expr → Except Failure (List Expr)
  | [] => .ok []
  | e :: es => do return (← copy e) :: (← copyAll es)

end

mutual

/-- **Well-formed** expressions: every operation has the right number of operands. -/
def isWellFormed : Expr → Bool
  | node op operands =>
    (match op.arity with
      | none => true
      | some n => operands.length == n) && allWellFormed operands

/-- Whether every expression of a list is well formed. -/
def allWellFormed : List Expr → Bool
  | [] => true
  | e :: es => isWellFormed e && allWellFormed es

end

/-- A **well-formed** expression. -/
def WellFormed (e : Expr) : Prop := e.isWellFormed = true

mutual

/-- The **statements of a body in order**: nested sequences are opened up. -/
def flatten : Expr → List Expr
  | node .statement es => flattenAll es
  | node op es => [node op es]

/-- The statements of a list of bodies in order. -/
def flattenAll : List Expr → List Expr
  | [] => []
  | e :: es => flatten e ++ flattenAll es

end

/-! ### Building expressions -/

/-- A constant. -/
def constant (n : Number) : Expr := node (.constant n) []

/-- A number of arbitrary precision as a constant, shown with `digits` digits. -/
def ofBig (digits : Nat) (x : BigFloat) : Expr := constant (.big x digits)

/-- A decimal literal as a constant. -/
def literal (s : String) : Expr := constant (.literal s)

/-- A mathematical constant. -/
def mathConstant (name : String) : Expr := node (.mathConstant name) []

/-- A variable without a format of its own. -/
def var (name : String) : Expr := node (.var name none) []

/-- An exact mathematical function of some operands. -/
def mathFunction (name : String) (operands : List Expr) : Expr :=
  node (.mathFunction name) operands

/-- A call of a generated function. -/
def call (name : String) (operands : List Expr) : Expr := node (.functionCall name) operands

/-- The magnitude of a value. -/
def absolute (e : Expr) : Expr := node .absolute [e]

/-- The nearest integer to a value. -/
def nearestInteger (e : Expr) : Expr := node .nearestInteger [e]

/-- The integral part of a value. -/
def floor (e : Expr) : Expr := node .floor [e]

/-- Whether a value is odd. -/
def isOdd (e : Expr) : Expr := node .isOdd [e]

/-- A power of two. -/
def exponentInsertion (e : Expr) : Expr := node .exponentInsertion [e]

/-- The exponent of a value. -/
def exponentExtraction (e : Expr) : Expr := node .exponentExtraction [e]

/-- The mantissa of a value. -/
def mantissaExtraction (e : Expr) : Expr := node .mantissaExtraction [e]

/-- `a * b + c`. -/
def mulAdd (a b c : Expr) : Expr := node .fusedMultiplyAdd [a, b, c]

/-- A comparison. -/
def compare (r : Relation) (a b : Expr) : Expr := node (.comparison r) [a, b]

/-- A choice between two values. -/
def select (condition ifTrue ifFalse : Expr) : Expr := node .select [condition, ifTrue, ifFalse]

/-- A value bound to a variable. -/
def assign (target value : Expr) : Expr := node .assignment [target, value]

/-- The value of a function. -/
def result (e : Expr) : Expr := node .result [e]

instance : Neg Expr := ⟨fun e => node .negation [e]⟩
instance : Add Expr := ⟨fun a b => node .addition [a, b]⟩
instance : Sub Expr := ⟨fun a b => node .subtraction [a, b]⟩
instance : Mul Expr := ⟨fun a b => node .multiplication [a, b]⟩
instance : Div Expr := ⟨fun a b => node .division [a, b]⟩

/-- A numeral is an integer constant. -/
instance (n : Nat) : OfNat Expr n := ⟨constant (.integer n)⟩

/-- A decimal numeral is a floating-point constant of double precision. -/
instance : OfScientific Expr where
  ofScientific m negative e :=
    let q : Rat := if negative then (m : Rat) / 10 ^ e else (m : Rat) * 10 ^ e
    constant (.double (Datum.ofRat Precision.double.format false q))

end Expr

end Elementary
