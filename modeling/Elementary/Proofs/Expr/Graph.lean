import Elementary.Expr.Graph
import Elementary.Proofs.Expr.Basic

/-!
# Graphs and their nodes

A graph is given by its root, and its nodes are the root and the nodes of its inputs. The labels
tell the nodes apart when equal labels stand for equal nodes; such a graph is coherent, and a
transformation may keep its results under the labels.

## Main results

* `Node.induction`: induction over graphs.
* `Node.map_erase_subnodes`: the expressions of the nodes are the subterms of the expression.
* `Node.Coherent`: the labels tell the nodes apart and lie below the next free one.
* `Node.erase_ofExpr`, `Node.coherent_ofExpr`: labelling an expression keeps it, and gives a
  coherent graph.
-/

namespace Elementary.Node

variable {n m k : Node} {op : Op} {ns : List Node} {label next : Nat}

/-- **Induction over graphs**: what holds of a node whenever it holds of all inputs, holds of every
node. -/
@[elab_as_elim, induction_eliminator]
theorem induction {motive : Node → Prop}
    (mk : ∀ label op inputs, (∀ n ∈ inputs, motive n) → motive (mk label op inputs)) :
    ∀ n, motive n
  | .mk label op inputs => mk label op inputs fun n _ => induction mk n

/-! ### The expression of a node -/

theorem eraseAll_eq_map (ns : List Node) : eraseAll ns = ns.map erase := by
  induction ns with
  | nil => rfl
  | cons n ns ih => rw [eraseAll, ih, List.map_cons]

/-- The expression of a node is its operation on the expressions of its inputs. -/
theorem erase_mk (label : Nat) (op : Op) (ns : List Node) :
    (mk label op ns).erase = .node op (ns.map erase) := by
  rw [erase, eraseAll_eq_map]

theorem op_erase (n : Node) : n.erase.op = n.op := by
  cases n
  rfl

theorem erase_eq (n : Node) : n.erase = .node n.op (n.inputs.map erase) := by
  cases n with
  | mk label op inputs => exact erase_mk label op inputs

mutual

/-- **Labelling an expression keeps it.** -/
theorem erase_ofExpr : ∀ (e : Expr) (next : Nat), (ofExpr e next).1.erase = e
  | .node op operands, next => by
    rw [ofExpr, erase, eraseAll_ofExprs operands next]

/-- Labelling a list of expressions keeps them. -/
theorem eraseAll_ofExprs : ∀ (es : List Expr) (next : Nat), eraseAll (ofExprs es next).1 = es
  | [], _ => rfl
  | e :: es, next => by
    rw [ofExprs, eraseAll, erase_ofExpr e next, eraseAll_ofExprs es _]

end

/-! ### The nodes of a graph -/

mutual

/-- The **nodes of a graph**, its root first, one occurrence after the other. -/
def subnodes : Node → List Node
  | mk label op inputs => mk label op inputs :: subnodesAll inputs

/-- The nodes of a list of graphs. -/
def subnodesAll : List Node → List Node
  | [] => []
  | n :: ns => subnodes n ++ subnodesAll ns

end

theorem subnodesAll_eq_flatMap (ns : List Node) : subnodesAll ns = ns.flatMap subnodes := by
  induction ns with
  | nil => rfl
  | cons n ns ih => rw [subnodesAll, ih, List.flatMap_cons]

theorem mem_subnodes_mk :
    m ∈ (mk label op ns).subnodes ↔ m = mk label op ns ∨ ∃ n ∈ ns, m ∈ n.subnodes := by
  rw [subnodes, subnodesAll_eq_flatMap, List.mem_cons, List.mem_flatMap]

theorem self_mem_subnodes (n : Node) : n ∈ n.subnodes := by
  cases n with
  | mk label op inputs => exact mem_subnodes_mk.mpr (Or.inl rfl)

/-- An input's nodes are nodes of the graph. -/
theorem mem_subnodes_of_mem (hn : n ∈ ns) (hm : m ∈ n.subnodes) :
    m ∈ (mk label op ns).subnodes :=
  mem_subnodes_mk.mpr (Or.inr ⟨n, hn, hm⟩)

/-- **The inputs of a node of a graph** are nodes of it. -/
theorem input_mem_subnodes (hm : m ∈ n.subnodes) (hk : k ∈ m.inputs) : k ∈ n.subnodes := by
  induction n with
  | mk label op inputs ih =>
    rcases mem_subnodes_mk.mp hm with rfl | ⟨n, hn, hm⟩
    · exact mem_subnodes_of_mem hk (self_mem_subnodes k)
    · exact mem_subnodes_of_mem hn (ih n hn hm)

/-- **The expressions of the nodes** are the subterms of the expression, one by one. -/
theorem map_erase_subnodes (n : Node) : n.subnodes.map erase = n.erase.subterms := by
  induction n with
  | mk label op inputs ih =>
    rw [subnodes, subnodesAll_eq_flatMap, List.map_cons, List.map_flatMap, erase_mk, Expr.subterms,
      Expr.subtermsAll_eq_flatMap, List.flatMap_map]
    congr 1
    exact List.flatMap_congr ih

/-- The expression of a node of a graph is a subterm of the expression of the graph. -/
theorem erase_mem_subterms (hm : m ∈ n.subnodes) : m.erase ∈ n.erase.subterms := by
  rw [← map_erase_subnodes]
  exact List.mem_map_of_mem hm

/-! ### Coherent graphs -/

/-- **Coherent graphs**: nodes with one label are one node, and the labels lie below the next
free one. -/
structure Coherent (n : Node) (next : Nat) : Prop where
  eq_of_label : ∀ a ∈ n.subnodes, ∀ b ∈ n.subnodes, a.label = b.label → a = b
  label_lt : ∀ a ∈ n.subnodes, a.label < next

mutual

/-- The labels of an expression are taken from the given one on, up to the next free one. -/
theorem labels_ofExpr : ∀ (e : Expr) (next : Nat),
    next < (ofExpr e next).2 ∧
      ∀ a ∈ (ofExpr e next).1.subnodes, next ≤ a.label ∧ a.label < (ofExpr e next).2
  | .node op operands, next => by
    obtain ⟨hle, hlabels⟩ := labels_ofExprs operands next
    rw [ofExpr]
    refine ⟨Nat.lt_succ_of_le hle, fun a ha => ?_⟩
    rw [subnodes, List.mem_cons] at ha
    rcases ha with rfl | ha
    · exact ⟨hle, Nat.lt_succ_self _⟩
    · obtain ⟨hge, hlt⟩ := hlabels a ha
      exact ⟨hge, Nat.lt_succ_of_lt hlt⟩

/-- The labels of a list of expressions are taken from the given one on. -/
theorem labels_ofExprs : ∀ (es : List Expr) (next : Nat),
    next ≤ (ofExprs es next).2 ∧
      ∀ a ∈ subnodesAll (ofExprs es next).1, next ≤ a.label ∧ a.label < (ofExprs es next).2
  | [], next => ⟨Nat.le_refl next, fun a ha => absurd ha List.not_mem_nil⟩
  | e :: es, next => by
    obtain ⟨hlt, hhead⟩ := labels_ofExpr e next
    obtain ⟨hle, htail⟩ := labels_ofExprs es (ofExpr e next).2
    rw [ofExprs]
    refine ⟨Nat.le_trans (Nat.le_of_lt hlt) hle, fun a ha => ?_⟩
    rw [subnodesAll, List.mem_append] at ha
    rcases ha with ha | ha
    · have hbounds := hhead a ha
      simp only
      omega
    · have hbounds := htail a ha
      simp only
      omega

end

mutual

/-- Nodes of a labelled expression with one label are one node. -/
theorem eq_of_label_ofExpr : ∀ (e : Expr) (next : Nat), ∀ a ∈ (ofExpr e next).1.subnodes,
    ∀ b ∈ (ofExpr e next).1.subnodes, a.label = b.label → a = b
  | .node op operands, next, a, ha, b, hb, hab => by
    have hbelow := (labels_ofExprs operands next).2
    rw [ofExpr, subnodes, List.mem_cons] at ha hb
    rcases ha with rfl | ha <;> rcases hb with rfl | hb
    · rfl
    · exact absurd hab.symm (Nat.ne_of_lt (hbelow b hb).2)
    · exact absurd hab (Nat.ne_of_lt (hbelow a ha).2)
    · exact eq_of_label_ofExprs operands next a ha b hb hab

/-- Nodes of labelled expressions with one label are one node. -/
theorem eq_of_label_ofExprs : ∀ (es : List Expr) (next : Nat),
    ∀ a ∈ subnodesAll (ofExprs es next).1, ∀ b ∈ subnodesAll (ofExprs es next).1,
      a.label = b.label → a = b
  | [], _, _, ha, _, _, _ => absurd ha List.not_mem_nil
  | e :: es, next, a, ha, b, hb, hab => by
    have hhead := (labels_ofExpr e next).2
    have htail := (labels_ofExprs es (ofExpr e next).2).2
    rw [ofExprs, subnodesAll, List.mem_append] at ha hb
    rcases ha with ha | ha <;> rcases hb with hb | hb
    · exact eq_of_label_ofExpr e next a ha b hb hab
    · have := (hhead a ha).2
      have := (htail b hb).1
      omega
    · have := (htail a ha).1
      have := (hhead b hb).2
      omega
    · exact eq_of_label_ofExprs es _ a ha b hb hab

end

/-- **A labelled expression is coherent.** -/
theorem coherent_ofExpr (e : Expr) (next : Nat) :
    (ofExpr e next).1.Coherent (ofExpr e next).2 :=
  ⟨eq_of_label_ofExpr e next, fun a ha => ((labels_ofExpr e next).2 a ha).2⟩

end Elementary.Node
