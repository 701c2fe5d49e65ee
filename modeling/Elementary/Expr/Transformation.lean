import Elementary.Expr.Graph
import Elementary.Log.Basic

/-!
# Transformations of expression graphs

A transformation goes through a graph from the operands up. The operands of a node are transformed
first; if one of them changed, the node is built anew on the results; and then a step may replace
it. The result for a node is kept under its label, so that a shared node is transformed once, and a
graph in which nothing changed is given back as it was. A step may answer with a bare number, which
becomes a constant where a node is built on it.

## Main definitions

* `Replacement`: what a step puts in the place of a node.
* `TransformM`: computations with the state of a transformation, kept also when they fail.
* `Node.transformWith`: the transformation with results kept under labels.
* `Node.transform`: the whole transformation, which fails only with failures of its own kind.
* `Expr.transformWith`: the plain transformation of a tree.
-/

namespace Elementary

/-- What a step puts **in the place of a node**. -/
inductive Replacement where
  | node (n : Node)
  | number (n : Number)

/-- The replacement as an operand of the node above. -/
def Replacement.operand : Replacement → Node.Operand
  | node n => .node n
  | number n => .number n

/-- Whether a replacement is the node itself. -/
def Replacement.isSame (r : Replacement) (n : Node) : Bool :=
  match r with
  | node m => m.same n
  | number _ => false

/-- The **state of a transformation**: the next free label, the results so far under the labels of
the nodes, the nodes that were given to the step, the last first, and the messages. -/
structure TransformState where
  next : Nat
  results : List (Nat × Replacement)
  calls : List Node
  events : Array Event

/-- Computations of a **transformation**; the state is kept when they fail. -/
abbrev TransformM := ExceptT Failure (StateM TransformState)

namespace TransformM

/-- Computes with the next free label. -/
def withLabels {α : Type} (f : Nat → Except Failure (α × Nat)) : TransformM α := do
  match f (← get).next with
  | .error e => throw e
  | .ok (a, next) =>
    modify fun s => { s with next := next }
    return a

/-- Runs a traced computation inside a transformation. -/
def ofTraced {α : Type} (x : Traced α) : TransformM α := do
  let (outcome, events) := x.collect
  modify fun s => { s with events := s.events ++ events.toArray }
  match outcome with
  | .ok a => return a
  | .error f => throw f

end TransformM

namespace Node

/-- The node on new inputs: the **same node** when every input is the one it had. -/
def rebuild (n : Node) (inputs : List Replacement) : TransformM Node := do
  if (inputs.zip n.inputs).all fun (r, old) => r.isSame old then return n
  else TransformM.withLabels fun next => Node.build next n.op (inputs.map Replacement.operand)

mutual

/-- The transformation of a node: its result so far if there is one, and otherwise the step on the
node rebuilt from the transformed inputs. -/
def transformWith (step : Node → TransformM Replacement) : Node → TransformM Replacement
  | mk label op inputs => do
    match (← get).results.lookup label with
    | some r => return r
    | none =>
      let newInputs ← transformAllWith step inputs
      let rebuilt ← rebuild (mk label op inputs) newInputs
      modify fun s => { s with calls := rebuilt :: s.calls }
      let r ← step rebuilt
      modify fun s => { s with results := (label, r) :: s.results }
      return r

/-- The transformation of a list of nodes, from left to right. -/
def transformAllWith (step : Node → TransformM Replacement) :
    List Node → TransformM (List Replacement)
  | [] => return []
  | n :: ns => do
    let r ← transformWith step n
    let rs ← transformAllWith step ns
    return r :: rs

end

/-- A failure of a step as a **failure of the transformation**; those that already are one pass
unchanged, and so does the end of the program. -/
def transformationFailure : Failure → Option Failure
  | .transformation _ => none
  | .quantization _ => none
  | .exit _ => none
  | f => some (.transformation f.embedded)

/-- The whole transformation of a graph whose labels lie below `next`: its result or failure, and
the last state. The transformation named `pass` is abandoned at the first failure. -/
def transform (pass : String) (step : Node → TransformM Replacement) (n : Node) (next : Nat) :
    Except Failure Replacement × TransformState :=
  let (outcome, s) := StateT.run (ExceptT.run (transformWith step n)) ⟨next, [], [], #[]⟩
  match outcome with
  | .ok r => (.ok r, s)
  | .error f =>
    match transformationFailure f with
    | none => (.error f, s)
    | some g =>
      let text := pass ++ " failed to transform " ++ n.op.name ++ ": " ++ f.embedded
      (.error g, { s with events := s.events.push ⟨.error, text⟩ })

end Node

namespace Expr

mutual

/-- The **plain transformation** of a tree: the operands first, then the step. -/
def transformWith (step : Expr → Traced Expr) : Expr → Traced Expr
  | node op operands => do
    let newOperands ← transformAllWith step operands
    step (node op newOperands)

/-- The plain transformation of a list of trees. -/
def transformAllWith (step : Expr → Traced Expr) : List Expr → Traced (List Expr)
  | [] => return []
  | e :: es => do
    let r ← transformWith step e
    let rs ← transformAllWith step es
    return r :: rs

end

/-- The plain transformation of a tree by the pass of the given name, abandoned at the first
failure. -/
def transform (pass : String) (step : Expr → Traced Expr) (e : Expr) : Traced Expr :=
  tryCatch (transformWith step e) fun f =>
    match Node.transformationFailure f with
    | none => throw f
    | some g =>
      Traced.abort (pass ++ " failed to transform " ++ e.name ++ ": " ++ f.embedded) g

end Expr

end Elementary
