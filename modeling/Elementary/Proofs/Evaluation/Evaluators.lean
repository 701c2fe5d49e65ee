import Elementary.Proofs.Evaluation.Basic
import Elementary.Proofs.Evaluation.Exact
import Elementary.Proofs.Expr.Basic

/-!
# The two evaluators on exact operations

The reference arithmetic and the emulation of a precision agree on expressions of exact operations:
both give a value, and the values agree, or both fail. The reference works with at least the bits of
the mantissa; the variables are bound to finite numbers of the precision.

A truth value counts as zero or one. Its magnitude and its integral part are truth values in the
emulation, of which it takes no opposite; so the two part at the opposite of such an operation.

## Main definitions

* `Expr.IsExact`: the expressions of exact operations.
* `Evaluators`: the two evaluations, with variables bound to numbers of the precision.
* `Evaluators.Admits`: expressions with operands for which the operations are exact.

## Main results

* `Evaluators.agreeOn_of_isExact`: the two evaluations accord.
* `Evaluators.AgreeOn.accords`: so do the values that they give.
-/

namespace Elementary

variable {p : Precision}

/-! ### Expressions of exact operations -/

/-- The operations that take **one number**. -/
def Op.TakesNumber (op : Op) : Prop := op = .isOdd ∨ ∃ f, op.onNumber? = some f

theorem Op.TakesNumber.isControl {op : Op} (h : op.TakesNumber) : op.isControl = false := by
  obtain rfl | ⟨f, hf⟩ := h
  · rfl
  · cases op <;> first | rfl | cases hf

/-- The **expressions of exact operations** on the numbers of a precision: those of its finite
codings among them. -/
inductive Expr.IsExact (p : Precision) : Expr → Prop
  | var (name : String) (f : Option ResultFormat) : IsExact p (.node (.var name f) [])
  | fromBits {coding : Nat} {q : Rat} (hwidth : coding < 2 ^ p.format.bitSize)
    (hfinite : p.format.decode? coding = some q) :
    IsExact p (.node (.fromBits (some (.binary p))) [.node (.bitPattern coding) []])
  | splat (f : Option ResultFormat) {e : Expr} (he : IsExact p e) : IsExact p (.node (.splat f) [e])
  | onNumber {op : Op} {f : Rat → Rat} {e : Expr} (hop : op.onNumber? = some f)
    (he : IsExact p e) : IsExact p (.node op [e])
  | isOdd {e : Expr} (he : IsExact p e) : IsExact p (.node .isOdd [e])
  | comparison (r : Relation) {a b : Expr} (ha : IsExact p a) (hb : IsExact p b) :
    IsExact p (.node (.comparison r) [a, b])
  | select {c a b : Expr} (hc : IsExact p c) (ha : IsExact p a) (hb : IsExact p b) :
    IsExact p (.node .select [c, a, b])
  | tuple {es : List Expr} (hes : ∀ e ∈ es, IsExact p e) : IsExact p (.node .tuple es)
  | tupleSelection (index : Int) {e : Expr} (he : IsExact p e) :
    IsExact p (.node (.tupleSelection index) [e])

/-- **Two evaluations**: one in the reference arithmetic with at least the bits of the mantissa of a
precision, and one in the emulation of the precision, with variables bound to the same finite
numbers of the precision. -/
structure Evaluators (p : Precision) where
  context : Reference.Context
  functions : List GeneratedFunction
  bindings : List (String × Datum)
  bits_le : p.format.mantissaSize ≤ context.bits
  finite : ∀ b ∈ bindings, b.2.IsMember p.format ∧ ∃ q, b.2.Denotes q

namespace Evaluators

variable (E : Evaluators p)

/-- The bindings of the reference evaluation. -/
def referenceBindings : Bindings Quantity :=
  E.bindings.map fun b => (b.1, .number (.real (.ofRat E.context.bits (b.2.toRat?.getD 0))))

/-- The bindings of the emulation. -/
def emulationBindings : Bindings Scalar :=
  E.bindings.map fun b => (b.1, .number (.binary p b.2))

/-- The value of an expression in the **reference arithmetic**. -/
def reference (e : Expr) : Except Failure (Value Quantity) :=
  (Reference.arithmeticIn E.context).evaluateWith E.functions e E.referenceBindings

/-- The value of an expression in the **emulation**. -/
def emulation (e : Expr) : Except Failure (Value Scalar) :=
  (Emulation.arithmetic p).evaluateWith E.functions e E.emulationBindings

/-- The reference evaluation with the bindings after it. -/
def referenceRun (e : Expr) : Except Failure (Value Quantity × Bindings Quantity) :=
  e.evaluate (Reference.arithmeticIn E.context)
    ((Reference.arithmeticIn E.context).callsOf E.functions) E.referenceBindings

/-- The emulation with the bindings after it. -/
def emulationRun (e : Expr) : Except Failure (Value Scalar × Bindings Scalar) :=
  e.evaluate (Emulation.arithmetic p) ((Emulation.arithmetic p).callsOf E.functions)
    E.emulationBindings

/-- The operations of an expression have operands for which they are **exact**: each accepts the
number that its operand is. -/
def Accepts (e : Expr) : Prop :=
  ∀ op x v a q, .node op [x] ∈ e.subterms → E.reference x = .ok v → Quantity.ofValue v = .ok a →
    a.Denotes q → op.Accepts p q

/-- The two evaluators **admit** an expression when its operations have operands for which they are
exact, and no opposite is taken of a truth value that is the result of an operation. -/
structure Admits (e : Expr) : Prop where
  accepts : E.Accepts e
  negatable : ∀ x b, .node .negation [x] ∈ e.subterms → E.emulation x ≠ .ok (.number (.flag b))

/-- What an expression admits, its subterms admit. -/
theorem Admits.of_mem {E : Evaluators p} {a e : Expr} (h : E.Admits e) (ha : a ∈ e.subterms) :
    E.Admits a where
  accepts op x v b q hx := h.accepts op x v b q (Expr.subterms_trans hx ha)
  negatable x b hx := h.negatable x b (Expr.subterms_trans hx ha)

/-- What an expression admits, its operands admit. -/
theorem Admits.operand {E : Evaluators p} {op : Op} {es : List Expr} {x : Expr}
    (h : E.Admits (.node op es)) (hx : x ∈ es) : E.Admits x :=
  h.of_mem (Expr.mem_subterms_of_mem hx (Expr.self_mem_subterms x))

/-- The two evaluations **end alike**: with values that agree, and with the bindings as they were. -/
def EndAlike (a : Value Quantity × Bindings Quantity) (b : Value Scalar × Bindings Scalar) : Prop :=
  a.1.Agree p b.1 ∧ a.2 = E.referenceBindings ∧ b.2 = E.emulationBindings

/-- The two evaluations of an expression **agree**. -/
def AgreeOn (e : Expr) : Prop := Accords E.EndAlike (E.referenceRun e) (E.emulationRun e)

variable {E} {op : Op} {e x : Expr} {es : List Expr}

/-- Evaluations of expressions one after the other. -/
theorem evaluateAll_accords (h : ∀ e ∈ es, E.AgreeOn e) :
    Accords (fun a b => List.Forall₂ (Value.Agree p) a.1 b.1 ∧ a.2 = E.referenceBindings ∧
        b.2 = E.emulationBindings)
      (Expr.evaluateAll (Reference.arithmeticIn E.context)
        ((Reference.arithmeticIn E.context).callsOf E.functions) es E.referenceBindings)
      (Expr.evaluateAll (Emulation.arithmetic p) ((Emulation.arithmetic p).callsOf E.functions) es
        E.emulationBindings) := by
  induction es with
  | nil => exact .ok ⟨.nil, rfl, rfl⟩
  | cons e es ih =>
    rw [Expr.evaluateAll, Expr.evaluateAll]
    refine (h e List.mem_cons_self).bind ?_
    rintro ⟨v, _⟩ ⟨w, _⟩ ⟨hvw, rfl, rfl⟩
    refine (ih fun e' he' => h e' (List.mem_cons_of_mem e he')).bind ?_
    rintro ⟨vs, _⟩ ⟨ws, _⟩ ⟨hvws, rfl, rfl⟩
    exact .ok ⟨.cons hvw hvws, rfl, rfl⟩

/-- A variable is bound to values that agree, or in neither evaluation. -/
theorem rel_lookup (E : Evaluators p) (name : String) :
    Option.Rel (Value.Agree p) (E.referenceBindings.lookup name)
      (E.emulationBindings.lookup name) := by
  have hbits := E.bits_le
  have hfinite := E.finite
  rw [referenceBindings, emulationBindings]
  generalize E.bindings = bindings at hfinite
  induction bindings with
  | nil => exact .none
  | cons b bindings ih =>
    obtain ⟨⟨hmember, q, hq⟩, hrest⟩ := List.forall_mem_cons.mp hfinite
    rw [List.map_cons, List.map_cons, List.lookup_cons, List.lookup_cons]
    split
    · have hhas : p.Has q := ⟨_, hq, hmember⟩
      refine .some (.number ⟨q, hhas, ?_, .binary p.wider_self hq⟩)
      rw [hq.toRat?_eq]
      exact Quantity.denotes_ofRat (hhas.fits.mono hbits)
    · exact ih hrest

variable {E : Evaluators p} {op : Op} {e x : Expr} {es : List Expr} {v : Value Quantity}
  {w : Value Scalar}

/-- **The number of a coding** is decoded alike. -/
theorem decode_accords (E : Evaluators p) {coding : Nat} {q : Rat}
    (hwidth : coding < 2 ^ p.format.bitSize) (hfinite : p.format.decode? coding = some q) :
    Accords (Value.Agree p) (Reference.decode E.context coding (some (.binary p)))
      (Emulation.decode coding (some (.binary p))) := by
  have hdenotes := Datum.denotes_ofCoding hfinite
  have hhas : p.Has q := ⟨_, hdenotes, Datum.isMember_ofCoding _ _⟩
  have hroom : ¬ ((coding : Int) < 0 ∨ (Nat.pow 2 p.format.bitSize : Int) ≤ coding) := by
    rintro (h | h)
    · omega
    · exact absurd (by exact_mod_cast h : 2 ^ p.format.bitSize ≤ coding) (not_le.mpr hwidth)
  rw [Reference.decode, Emulation.decode, hfinite, if_neg hroom]
  exact .ok (.number ⟨q, hhas, Quantity.denotes_ofRat (hhas.fits.mono E.bits_le),
    .binary p.wider_self hdenotes⟩)

/-- The value of an evaluation is the value of the expression. -/
theorem reference_eq {env : Bindings Quantity}
    (h : E.referenceRun e = .ok (v, env)) : E.reference e = .ok v :=
  congrArg (Except.map Prod.fst) h

theorem emulation_eq {env : Bindings Scalar}
    (h : E.emulationRun e = .ok (w, env)) : E.emulation e = .ok w :=
  congrArg (Except.map Prod.fst) h

/-- **An operation on one operand** accords when it does on operands that agree. -/
theorem AgreeOn.unary (hop : op.isControl = false) (hx : E.AgreeOn x)
    (h : ∀ v w, E.reference x = .ok v → E.emulation x = .ok w → v.Agree p w →
      Accords (Value.Agree p) (Reference.operation E.context op [v])
        (Emulation.operation p op [w])) : E.AgreeOn (.node op [x]) := by
  rw [AgreeOn, referenceRun, emulationRun, Expr.evaluate_numeric hop, Expr.evaluate_numeric hop,
    Expr.evaluateAll, Expr.evaluateAll]
  obtain ⟨⟨v, _⟩, ⟨w, _⟩, hv, hw, hvw, rfl, rfl⟩ | ⟨f, g, hf, hg⟩ := Accords.cases hx
  · have haccords := h v w (reference_eq hv) (emulation_eq hw) hvw
    rw [referenceRun] at hv
    rw [emulationRun] at hw
    rw [hv, hw]
    exact haccords.bind fun v' w' hvw' => .ok ⟨hvw', rfl, rfl⟩
  · rw [referenceRun] at hf
    rw [emulationRun] at hg
    rw [hf, hg]
    exact .error f g

/-- An operation on one number is done with the number that its operand is. -/
theorem reference_operation_eq (hop : op.TakesNumber) (v : Value Quantity) :
    Reference.operation E.context op [v] =
      Quantity.ofValue v >>= fun a => Reference.quantityOperation E.context op [a] := by
  obtain rfl | ⟨f, hf⟩ := hop
  · cases v <;> rfl
  · cases op <;> cases hf <;> cases v <;> rfl

theorem emulation_operation_eq (hop : op.TakesNumber) (w : Value Scalar) :
    Emulation.operation p op [w] =
      Scalar.ofValue w >>= fun s => Emulation.scalarOperation p op [s] := by
  obtain rfl | ⟨f, hf⟩ := hop
  · cases w <;> rfl
  · cases op <;> cases hf <;> cases w <;> rfl

/-- An operation on one number fails on what is no number. -/
theorem operation_accords (hop : op.TakesNumber) (hvw : v.Agree p w)
    (h : ∀ a s, Quantity.ofValue v = .ok a → Scalar.ofValue w = .ok s → SameNumber p a s →
      Accords (Value.Agree p) (Reference.quantityOperation E.context op [a])
        (Emulation.scalarOperation p op [s])) :
    Accords (Value.Agree p) (Reference.operation E.context op [v])
      (Emulation.operation p op [w]) := by
  rw [reference_operation_eq hop, emulation_operation_eq hop]
  obtain ⟨a, s, ha, hs, has⟩ | ⟨f, g, hf, hg⟩ := hvw.operand.cases
  · rw [ha, hs]
    exact h a s ha hs has
  · rw [hf, hg]
    exact .error f g

/-- **An exact operation** on operands that agree, one that the evaluators admit. -/
theorem AgreeOn.onNumber {f : Rat → Rat} (hop : op.onNumber? = some f)
    (hadmits : E.Admits (.node op [x])) (hx : E.AgreeOn x) : E.AgreeOn (.node op [x]) := by
  have hmem := Expr.self_mem_subterms (.node op [x])
  refine AgreeOn.unary (Op.TakesNumber.isControl (.inr ⟨f, hop⟩)) hx fun v w hv hw hvw => ?_
  refine operation_accords (.inr ⟨f, hop⟩) hvw fun a s ha hs has => ?_
  obtain ⟨q, hq, haq, hsq⟩ := has
  have haccepts := hadmits.accepts op x v a q hmem hv ha haq
  have hflag : op = .negation → ∀ b, s ≠ .flag b := by
    rintro rfl b rfl
    refine hadmits.negatable x b hmem (hw.trans (congrArg Except.ok ?_))
    cases hvw <;> cases hs
    rfl
  obtain ⟨a', ha', hqa'⟩ := Reference.operation_exact E.bits_le hq haq hop haccepts
  obtain ⟨s', hs', hqs'⟩ := Emulation.operation_exact hq hsq hop haccepts hflag
  rw [ha', hs']
  exact .ok (.number ⟨f q, hq.onNumber hop haccepts, hqa', hqs'⟩)

/-- **Whether a number is odd**, when it is an integer. -/
theorem AgreeOn.isOdd (hadmits : E.Admits (.node .isOdd [x])) (hx : E.AgreeOn x) :
    E.AgreeOn (.node .isOdd [x]) := by
  have hmem := Expr.self_mem_subterms (.node .isOdd [x])
  refine AgreeOn.unary rfl hx fun v w hv _ hvw => ?_
  refine operation_accords (.inl rfl) hvw fun a s ha _ has => ?_
  obtain ⟨q, hq, haq, hsq⟩ := has
  obtain ⟨n, rfl⟩ := hadmits.accepts .isOdd x v a q hmem hv ha haq
  rw [Reference.isOdd_exact haq, Emulation.isOdd_exact hq hsq]
  exact .ok (.truth _)

/-- **A comparison** of operands that agree. -/
theorem AgreeOn.comparison {a b : Expr} (r : Relation) (ha : E.AgreeOn a) (hb : E.AgreeOn b) :
    E.AgreeOn (.node (.comparison r) [a, b]) := by
  rw [AgreeOn, referenceRun, emulationRun, Expr.evaluate, Expr.evaluate]
  refine ha.bind ?_
  rintro ⟨v, _⟩ ⟨w, _⟩ ⟨hvw, rfl, rfl⟩
  refine hb.bind ?_
  rintro ⟨v', _⟩ ⟨w', _⟩ ⟨hvw', rfl, rfl⟩
  refine (hvw.compare_accords r hvw').bind ?_
  rintro o _ rfl
  exact .ok ⟨.truth o, rfl, rfl⟩

/-- **A choice** is made alike, after both branches are evaluated. -/
theorem AgreeOn.select {c a b : Expr} (hc : E.AgreeOn c) (ha : E.AgreeOn a) (hb : E.AgreeOn b) :
    E.AgreeOn (.node .select [c, a, b]) := by
  rw [AgreeOn, referenceRun, emulationRun, Expr.evaluate, Expr.evaluate]
  refine hc.bind ?_
  rintro ⟨u, _⟩ ⟨u', _⟩ ⟨hu, rfl, rfl⟩
  refine ha.bind ?_
  rintro ⟨v, _⟩ ⟨w, _⟩ ⟨hvw, rfl, rfl⟩
  refine hb.bind ?_
  rintro ⟨v', _⟩ ⟨w', _⟩ ⟨hvw', rfl, rfl⟩
  refine .ok ⟨?_, rfl, rfl⟩
  dsimp only
  rw [hu.isTrue_eq]
  split
  · exact hvw
  · exact hvw'

theorem AgreeOn.tuple (h : ∀ e ∈ es, E.AgreeOn e) : E.AgreeOn (.node .tuple es) := by
  rw [AgreeOn, referenceRun, emulationRun, Expr.evaluate, Expr.evaluate]
  refine (evaluateAll_accords h).bind ?_
  rintro ⟨vs, _⟩ ⟨ws, _⟩ ⟨hvws, rfl, rfl⟩
  exact .ok ⟨.tuple hvws, rfl, rfl⟩

theorem AgreeOn.tupleSelection (index : Int) (hx : E.AgreeOn x) :
    E.AgreeOn (.node (.tupleSelection index) [x]) := by
  rw [AgreeOn, referenceRun, emulationRun, Expr.evaluate, Expr.evaluate]
  refine hx.bind ?_
  rintro ⟨v, _⟩ ⟨w, _⟩ ⟨hvw, rfl, rfl⟩
  exact (hvw.component_accords index).bind fun v' w' hvw' => .ok ⟨hvw', rfl, rfl⟩

theorem agreeOn_var (E : Evaluators p) (name : String) (f : Option ResultFormat) :
    E.AgreeOn (.node (.var name f) []) := by
  have hlookup := E.rel_lookup name
  rw [AgreeOn, referenceRun, emulationRun, Expr.evaluate, Expr.evaluate]
  generalize E.referenceBindings.lookup name = x, E.emulationBindings.lookup name = y at hlookup
  cases hlookup with
  | none => exact .error _ _
  | some h => exact .ok ⟨h, rfl, rfl⟩

/-- **Expressions of exact operations** are evaluated alike where the evaluators admit them. -/
theorem agreeOn_of_isExact (he : e.IsExact p) (hadmits : E.Admits e) : E.AgreeOn e := by
  induction he with
  | var name f => exact E.agreeOn_var name f
  | fromBits hwidth hfinite =>
    exact (decode_accords E hwidth hfinite).bind fun v w hvw => .ok ⟨hvw, rfl, rfl⟩
  | splat f _ ih =>
    exact AgreeOn.unary rfl (ih (hadmits.operand List.mem_cons_self)) fun _ _ _ _ hvw => .ok hvw
  | onNumber hop _ ih => exact .onNumber hop hadmits (ih (hadmits.operand List.mem_cons_self))
  | isOdd _ ih => exact .isOdd hadmits (ih (hadmits.operand List.mem_cons_self))
  | comparison r _ _ iha ihb =>
    exact .comparison r (iha (hadmits.operand (by simp))) (ihb (hadmits.operand (by simp)))
  | select _ _ _ ihc iha ihb =>
    exact .select (ihc (hadmits.operand (by simp))) (iha (hadmits.operand (by simp)))
      (ihb (hadmits.operand (by simp)))
  | tuple _ ih => exact .tuple fun x hx => ih x hx (hadmits.operand hx)
  | tupleSelection index _ ih =>
    exact .tupleSelection index (ih (hadmits.operand List.mem_cons_self))

/-- The outcomes of evaluations that agree, without the bindings after them. -/
theorem AgreeOn.accords (h : E.AgreeOn e) :
    Accords (Value.Agree p) (E.reference e) (E.emulation e) := by
  obtain ⟨⟨v, _⟩, ⟨w, _⟩, hv, hw, hvw, -⟩ | ⟨f, g, hf, hg⟩ := Accords.cases h
  · rw [reference_eq hv, emulation_eq hw]
    exact .ok hvw
  · have hreference : E.reference e = .error f := congrArg (Except.map Prod.fst) hf
    have hemulation : E.emulation e = .error g := congrArg (Except.map Prod.fst) hg
    rw [hreference, hemulation]
    exact .error f g

end Evaluators

end Elementary
