import Elementary.Function

/-!
# Evaluation

An expression is evaluated over variable bindings, in an arithmetic that says what the numeric
operations do. Sequences, assignments, choices, tuples and calls mean the same in every
arithmetic. Operands are evaluated from left to right, both branches of a choice are evaluated, and
the first result of a sequence ends it.

## Main definitions

* `Value`: numbers, truth values, tuples, or nothing.
* `Arithmetic`: the meaning of the numeric operations.
* `Value.order`: the order of two values.
* `Expr.evaluate`: the value of an expression, with the bindings after it.
* `Arithmetic.call`: a generated function applied to values.
-/

namespace Elementary

/-- The **values** over a kind of numbers. -/
inductive Value (ν : Type) where
  | number (x : ν)
  | truth (b : Bool)
  | tuple (values : List (Value ν))
  /-- What a sequence without a result gives. -/
  | nothing

instance {ν : Type} : Inhabited (Value ν) := ⟨.nothing⟩

/-- An **arithmetic**: what the numeric operations do on values over a kind of numbers. -/
structure Arithmetic (ν : Type) where
  /-- A numeric operation on its operands. -/
  operation : Op → List (Value ν) → Except Failure (Value ν)
  /-- The number that a coding stands for. -/
  decode : Int → Option ResultFormat → Except Failure (Value ν)
  /-- A value as an argument of a generated function. -/
  argument : Value ν → Except Failure (Value ν)
  /-- Whether a relation holds between two values. -/
  compare : Relation → Value ν → Value ν → Except Failure Bool
  /-- Whether a number counts as true. -/
  isTrue : ν → Bool
  /-- What a selection from a number, as if it were a tuple, fails with. -/
  selectionFailure : ν → Failure

/-- **Bindings** of variables to values, the latest first. -/
abbrev Bindings (ν : Type) := List (String × Value ν)

/-- A call as the evaluation sees it: the function of a name, when there is one. -/
abbrev Calls (ν : Type) := String → Option (List (Value ν) → Except Failure (Value ν))

namespace Value

variable {ν : Type}

/-- Whether a value **counts as true**. -/
def isTrue (A : Arithmetic ν) : Value ν → Bool
  | number x => A.isTrue x
  | truth b => b
  | tuple vs => !vs.isEmpty
  | nothing => false

/-- A component of a value; a negative index counts from the end. -/
def component (A : Arithmetic ν) (index : Int) : Value ν → Except Failure (Value ν)
  | tuple vs =>
    let i := if index < 0 then index + vs.length else index
    if i < 0 then .error (.outOfBounds "tuple index out of range")
    else match vs[i.toNat]? with
      | some v => .ok v
      | none => .error (.outOfBounds "tuple index out of range")
  | number x => .error (A.selectionFailure x)
  | _ => .error (.wrongKind "the value has no components")

mutual

/-- The **order of two values**, `none` when they have none. Tuples are in the order of the first
components that differ, and a tuple is below any that goes on after it; `order` is the order of
values of other kinds. -/
def order (order' : Value ν → Value ν → Except Failure (Option Ordering)) :
    Value ν → Value ν → Except Failure (Option Ordering)
  | tuple vs, tuple ws => orderAll order' vs ws
  | v, w => order' v w

/-- The order of the components of two tuples. What is nothing on both sides differs in nothing. -/
def orderAll (order' : Value ν → Value ν → Except Failure (Option Ordering)) :
    List (Value ν) → List (Value ν) → Except Failure (Option Ordering)
  | [], [] => .ok (some .eq)
  | [], _ :: _ => .ok (some .lt)
  | _ :: _, [] => .ok (some .gt)
  | nothing :: vs, nothing :: ws => orderAll order' vs ws
  | v :: vs, w :: ws => do
    match ← order order' v w with
    | some .eq => orderAll order' vs ws
    | o => .ok o

end

end Value

/-- The **coding** that an operand of a bit conversion holds. -/
def Expr.coding (e : Expr) : Except Failure Int :=
  match e.op with
  | .bitPattern coding => .ok coding
  | .constant (.integer n) => .ok n
  | .constant (.truth b) => .ok (if b then 1 else 0)
  | .constant _ => .error (.wrongKind "the constant is no coding")
  | _ => .error (.missingPart (e.name ++ " holds no coding"))

namespace Expr

variable {ν : Type}

mutual

/-- The **value of an expression** and the bindings after its evaluation. -/
def evaluate (A : Arithmetic ν) (calls : Calls ν) :
    Expr → Bindings ν → Except Failure (Value ν × Bindings ν)
  | .node op operands, env =>
    match op, operands with
    | .statement, statements => evaluateSequence A calls statements env
    | .assignment, [target, value] => do
      let (v, env) ← evaluate A calls value env
      match target.op with
      | .var name _ => .ok (.nothing, (name, v) :: env)
      | _ => .error (.missingPart (target.name ++ " cannot be assigned to"))
    | .result, [value] => evaluate A calls value env
    | .var name _, _ =>
      match env.lookup name with
      | some v => .ok (v, env)
      | none => .error (.unboundVariable name)
    | .select, [condition, ifTrue, ifFalse] => do
      let (c, env) ← evaluate A calls condition env
      let (a, env) ← evaluate A calls ifTrue env
      let (b, env) ← evaluate A calls ifFalse env
      .ok (if c.isTrue A then a else b, env)
    | .comparison r, [left, right] => do
      let (a, env) ← evaluate A calls left env
      let (b, env) ← evaluate A calls right env
      .ok (.truth (← A.compare r a b), env)
    | .tuple, components => do
      let (vs, env) ← evaluateAll A calls components env
      .ok (.tuple vs, env)
    | .tupleSelection index, [operand] => do
      let (v, env) ← evaluate A calls operand env
      .ok (← v.component A index, env)
    | .functionCall name, arguments =>
      match calls name with
      | none => .error (.unknownFunction name)
      | some f => do
        let (vs, env) ← evaluateAll A calls arguments env
        .ok (← f vs, env)
    | .fromBits format, [operand] => do
      let (_, env) ← evaluate A calls operand env
      .ok (← A.decode (← operand.coding) format, env)
    | op, operands => do
      let (vs, env) ← evaluateAll A calls operands env
      .ok (← A.operation op vs, env)

/-- The values of a list of expressions, from left to right. -/
def evaluateAll (A : Arithmetic ν) (calls : Calls ν) :
    List Expr → Bindings ν → Except Failure (List (Value ν) × Bindings ν)
  | [], env => .ok ([], env)
  | e :: es, env => do
    let (v, env) ← evaluate A calls e env
    let (vs, env) ← evaluateAll A calls es env
    .ok (v :: vs, env)

/-- The value of a sequence of statements: that of its **first result**, and nothing when it has
none. The value of any other statement is dropped. -/
def evaluateSequence (A : Arithmetic ν) (calls : Calls ν) :
    List Expr → Bindings ν → Except Failure (Value ν × Bindings ν)
  | [], env => .ok (.nothing, env)
  | e :: es, env =>
    if e.op = .result then evaluate A calls e env
    else do
      let (_, env) ← evaluate A calls e env
      evaluateSequence A calls es env

end

end Expr

namespace Arithmetic

variable {ν : Type}

/-- The bindings of the arguments of a function; a value without an argument is dropped, an
argument without a value stays unbound. -/
def bindArguments (A : Arithmetic ν) (names : List String) (values : List (Value ν)) :
    Except Failure (Bindings ν) :=
  (names.zip values).foldlM (fun env (name, v) => return (name, ← A.argument v) :: env) []

/-- A generated function **applied to values**, calling others down to the given depth. -/
def call (A : Arithmetic ν) (find : String → Option GeneratedFunction) :
    (depth : Nat) → GeneratedFunction → List (Value ν) → Except Failure (Value ν)
  | 0, f, _ => .error (.callDepth f.name)
  | depth + 1, f, values => do
    let env ← A.bindArguments f.arguments values
    let calls : Calls ν := fun name => (find name).map (A.call find depth)
    let (v, _) ← Expr.evaluateSequence A calls f.statements env
    return v

/-- The calls among a list of functions. -/
def callsOf (A : Arithmetic ν) (functions : List GeneratedFunction) : Calls ν :=
  let find := GeneratedFunction.find? functions
  fun name => (find name).map (A.call find (functions.length + 200))

/-- The value of an expression that may call the given functions. -/
def evaluateWith (A : Arithmetic ν) (functions : List GeneratedFunction) (e : Expr)
    (env : Bindings ν) : Except Failure (Value ν) :=
  (e.evaluate A (A.callsOf functions) env).map Prod.fst

end Arithmetic

end Elementary
