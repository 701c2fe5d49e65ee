import Elementary.Expr.Description

/-!
# Expression graphs

A node of an expression graph is an operation that is told from every other one by a label, so
that one node may be an operand in several places. Nodes with one label are the same node. The
expression of a node forgets the labels.

## Main definitions

* `Node`: labelled operations.
* `Node.erase`: the expression of a node.
* `Node.same`: whether two nodes are one.
* `Node.ofExpr`: an expression with fresh labels.
* `Node.build`: a fresh node from an operation and operands.
-/

namespace Elementary

/-- A **node** of an expression graph. -/
inductive Node where
  | mk (label : Nat) (op : Op) (inputs : List Node)

namespace Node

instance : Inhabited Node := ⟨mk 0 .statement []⟩

/-- The label that tells a node from the others. -/
def label : Node → Nat
  | mk label _ _ => label

/-- The operation of a node. -/
def op : Node → Op
  | mk _ op _ => op

/-- The nodes on which a node operates. -/
def inputs : Node → List Node
  | mk _ _ inputs => inputs

/-- Whether two nodes are **one node**. -/
def same (a b : Node) : Bool := a.label == b.label

mutual

/-- The **expression** of a node. -/
def erase : Node → Expr
  | mk _ op inputs => .node op (eraseAll inputs)

/-- The expressions of a list of nodes. -/
def eraseAll : List Node → List Expr
  | [] => []
  | n :: ns => erase n :: eraseAll ns

end

mutual

/-- An expression as a graph, its nodes labelled from `next` on, with the next label. -/
def ofExpr : Expr → (next : Nat) → Node × Nat
  | .node op operands, next =>
    let (inputs, next) := ofExprs operands next
    (mk next op inputs, next + 1)

/-- A list of expressions as graphs. -/
def ofExprs : List Expr → (next : Nat) → List Node × Nat
  | [], next => ([], next)
  | e :: es, next =>
    let (n, next) := ofExpr e next
    let (ns, next) := ofExprs es next
    (n :: ns, next)

end

/-- An **operand as it is given**: a node, or a number that becomes a constant. -/
inductive Operand where
  | node (n : Node)
  | number (n : Number)

/-- The node that stands for an operand, with the next label. -/
def Operand.promote (next : Nat) : Operand → Except Failure (Node × Nat)
  | node n => .ok (n, next)
  | number n =>
    if n.isPromotable then .ok (mk next (.constant n) [], next + 1)
    else .error (Expr.promotionFailure n)

/-- The nodes that stand for a list of operands, with the next label. -/
def promoteAll (next : Nat) : List Operand → Except Failure (List Node × Nat)
  | [] => .ok ([], next)
  | o :: os => do
    let (n, next) ← o.promote next
    let (ns, next) ← promoteAll next os
    return (n :: ns, next)

/-- A fresh node of an operation on operands, with the next label. -/
def build (next : Nat) (op : Op) (operands : List Operand) : Except Failure (Node × Nat) := do
  op.checkArity operands.length
  let (inputs, next) ← promoteAll next operands
  return (mk next op inputs, next + 1)

end Node

end Elementary
