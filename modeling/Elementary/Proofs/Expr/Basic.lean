import Elementary.Expr.Basic
import Elementary.Proofs.Computation
import Mathlib.Data.List.Basic

/-!
# Trees and their subterms

A property holds of every tree when it passes from the operands to the operation on them. The
subterms of a tree are the tree itself and the subterms of its operands, the operations of a tree
being those at the roots of its subterms.

## Main results

* `Expr.induction`: induction over trees.
* `wellFormed_node`: a tree is well formed exactly if its root has the right number of operands,
  and the operands are well formed.
* `WellFormed.copy_eq`: a copy of a well-formed tree is the tree.
* `mem_subterms_node`, `subterms_trans`: the subterms of a tree.
* `flattenAll_flattenAll`: flattened statements stay as they are when they are flattened again.
-/

namespace Elementary

/-- An operation accepts exactly the operand lists of its arity. -/
theorem Op.checkArity_eq_ok_iff {op : Op} {n : Nat} :
    op.checkArity n = .ok () ↔ ∀ k, op.arity = some k → n = k := by
  rw [Op.checkArity]
  cases op.arity with
  | none => simp
  | some k => by_cases h : n = k <;> simp [h]

namespace Expr

variable {e a b : Expr} {op : Op} {es : List Expr}

/-- **Induction over trees**: what holds of an operation whenever it holds of all operands, holds
of every tree. -/
@[elab_as_elim, induction_eliminator]
theorem induction {motive : Expr → Prop}
    (node : ∀ op es, (∀ e ∈ es, motive e) → motive (node op es)) : ∀ e, motive e
  | .node op es => node op es fun e _ => induction node e

/-! ### Well-formed trees -/

theorem allWellFormed_eq_all (es : List Expr) : allWellFormed es = es.all isWellFormed := by
  induction es with
  | nil => rfl
  | cons e es ih => rw [allWellFormed, ih, List.all_cons]

/-- **Well-formed trees**, by their root: the number of operands is right, and the operands are
well formed. -/
theorem wellFormed_node :
    (node op es).WellFormed ↔ op.checkArity es.length = .ok () ∧ ∀ e ∈ es, e.WellFormed := by
  rw [WellFormed]
  rw [isWellFormed, allWellFormed_eq_all, Bool.and_eq_true, List.all_eq_true,
    Op.checkArity_eq_ok_iff]
  refine and_congr_left' ?_
  cases op.arity <;> simp

/-- The operands of a well-formed tree are as many as its root takes. -/
theorem WellFormed.length_eq {k : Nat} (h : (node op es).WellFormed) (hop : op.arity = some k) :
    es.length = k :=
  Op.checkArity_eq_ok_iff.mp (wellFormed_node.mp h).1 k hop

/-- The operand of an operation that takes one. -/
theorem WellFormed.exists_operand (h : (node op es).WellFormed) (hop : op.arity = some 1) :
    ∃ a, es = [a] :=
  List.length_eq_one_iff.mp (h.length_eq hop)

/-- The operand of a well-formed tree is well formed. -/
theorem WellFormed.of_mem (h : (node op es).WellFormed) (ha : a ∈ es) : a.WellFormed :=
  (wellFormed_node.mp h).2 a ha

/-! ### Building -/

/-- Expressions stand for themselves as operands. -/
theorem build_map_expr (hop : op.checkArity es.length = .ok ()) :
    build op (es.map .expr) = .ok (node op es) := by
  have hpromote : (es.map Operand.expr).mapM Operand.promote = .ok es := by
    rw [mapM_eq_ok, List.forall₂_map_left_iff]
    exact List.forall₂_same.mpr fun e _ => rfl
  rw [build, List.length_map, hop, hpromote]
  rfl

/-- Built on its own operands, a well-formed expression **is itself**. -/
theorem WellFormed.withOperands_eq (h : (node op es).WellFormed) :
    withOperands (node op es) es = .ok (node op es) := by
  rw [withOperands]
  split
  · next hop =>
    obtain rfl : es = [] := List.length_eq_zero_iff.mp (h.length_eq hop)
    rfl
  · exact build_map_expr (wellFormed_node.mp h).1

/-- The copies of trees that are copied to themselves. -/
theorem copyAll_eq (h : ∀ e ∈ es, e.copy = .ok e) : copyAll es = .ok es := by
  induction es with
  | nil => rfl
  | cons e es ih =>
    rw [copyAll, h e List.mem_cons_self, ih fun a ha => h a (List.mem_cons_of_mem e ha)]
    rfl

/-- **A copy** of a well-formed tree is the tree. -/
theorem WellFormed.copy_eq (h : e.WellFormed) : e.copy = .ok e := by
  induction e with
  | node op es ih =>
    rw [copy, copyAll_eq fun a ha => ih a ha (h.of_mem ha), ok_bind]
    exact h.withOperands_eq

/-! ### Subterms -/

mutual

/-- The **subterms** of a tree, the tree itself first. -/
def subterms : Expr → List Expr
  | node op es => node op es :: subtermsAll es

/-- The subterms of a list of trees. -/
def subtermsAll : List Expr → List Expr
  | [] => []
  | e :: es => subterms e ++ subtermsAll es

end

theorem subtermsAll_eq_flatMap (es : List Expr) : subtermsAll es = es.flatMap subterms := by
  induction es with
  | nil => rfl
  | cons e es ih => rw [subtermsAll, ih, List.flatMap_cons]

theorem mem_subterms_node :
    a ∈ (node op es).subterms ↔ a = node op es ∨ ∃ e ∈ es, a ∈ e.subterms := by
  rw [subterms, subtermsAll_eq_flatMap, List.mem_cons, List.mem_flatMap]

theorem self_mem_subterms (e : Expr) : e ∈ e.subterms := by
  cases e with
  | node op es => exact mem_subterms_node.mpr (Or.inl rfl)

/-- An operand's subterms are subterms. -/
theorem mem_subterms_of_mem (he : e ∈ es) (ha : a ∈ e.subterms) : a ∈ (node op es).subterms :=
  mem_subterms_node.mpr (Or.inr ⟨e, he, ha⟩)

/-- The subterms of a subterm are subterms. -/
theorem subterms_trans (hab : a ∈ b.subterms) (hbe : b ∈ e.subterms) : a ∈ e.subterms := by
  induction e with
  | node op es ih =>
    rcases mem_subterms_node.mp hbe with rfl | ⟨e, he, hb⟩
    · exact hab
    · exact mem_subterms_of_mem he (ih e he hb)

/-- The subterms of a well-formed tree are well formed. -/
theorem WellFormed.of_mem_subterms (he : e.WellFormed) (ha : a ∈ e.subterms) : a.WellFormed := by
  induction e with
  | node op es ih =>
    rcases mem_subterms_node.mp ha with rfl | ⟨e, hmem, ha⟩
    · exact he
    · exact ih e hmem ((wellFormed_node.mp he).2 e hmem) ha

/-! ### Flattened statements -/

theorem flattenAll_eq_flatMap (es : List Expr) : flattenAll es = es.flatMap flatten := by
  induction es with
  | nil => rfl
  | cons e es ih => rw [flattenAll, ih, List.flatMap_cons]

theorem flattenAll_append (as bs : List Expr) :
    flattenAll (as ++ bs) = flattenAll as ++ flattenAll bs := by
  rw [flattenAll_eq_flatMap, List.flatMap_append, ← flattenAll_eq_flatMap, ← flattenAll_eq_flatMap]

/-- What is no sequence is a statement by itself. -/
theorem flatten_of_ne_statement (h : e.op ≠ .statement) : e.flatten = [e] := by
  obtain ⟨op, es⟩ := e
  cases op <;> first | rfl | exact absurd rfl h

/-- No sequence is left among flattened statements. -/
theorem op_ne_statement_of_mem_flatten (h : a ∈ e.flatten) : a.op ≠ .statement := by
  induction e with
  | node op es ih =>
    by_cases hop : op = .statement
    · subst hop
      rw [flatten, flattenAll_eq_flatMap] at h
      obtain ⟨e, he, h⟩ := List.mem_flatMap.mp h
      exact ih e he h
    · rw [flatten_of_ne_statement (e := node op es) hop] at h
      rwa [List.mem_singleton.mp h]

/-- Statements without a sequence among them are flattened already. -/
theorem flattenAll_eq_self (h : ∀ e ∈ es, e.op ≠ .statement) : flattenAll es = es := by
  induction es with
  | nil => rfl
  | cons e es ih =>
    rw [flattenAll, flatten_of_ne_statement (h e List.mem_cons_self),
      ih fun a ha => h a (List.mem_cons_of_mem e ha)]
    rfl

/-- **Flattening once more changes nothing.** -/
theorem flattenAll_flattenAll (es : List Expr) : flattenAll (flattenAll es) = flattenAll es := by
  refine flattenAll_eq_self fun a ha => ?_
  rw [flattenAll_eq_flatMap] at ha
  obtain ⟨e, -, ha⟩ := List.mem_flatMap.mp ha
  exact op_ne_statement_of_mem_flatten ha

end Expr

end Elementary
