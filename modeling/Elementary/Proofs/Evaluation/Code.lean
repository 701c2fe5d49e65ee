import Elementary.Proofs.Evaluation.Kind
import Elementary.Proofs.Evaluation.Reach

/-!
# Code of one precision

Code in which bits and conversions are of one precision, and truth values are no operands, keeps to
the precision in its emulation: it gives a number of the precision, or a tuple of such values, and
binds variables to such values only. A sequence of statements without a result gives nothing, and so
does an assignment, which is a value of code where code may be silent. The operands of code are code
again, but for the coding below a bit conversion, which is an integer.

## Main definitions

* `Value.IsOf`: the values of code of one precision.
* `Use`, `Value.Serves`: what a value may be used for.
* `Expr.IsCode`: the code of one precision.
* `Expr.KeepsTo`: the expressions that keep to the precision.

## Main results

* `Emulation.Keeps.isOf`: an operation on values of the precision gives one.
* `Expr.IsCode.keepsTo`: code keeps to the precision.
* `Expr.IsCode.evaluatedOperands`: the operands of code are code.
-/

namespace Elementary

/-! ### Values -/

namespace Value

variable {p : Precision} {silent : Bool} {v w : Value Scalar}

/-- The **values of code of one precision**: its numbers, tuples of values, and nothing where code
may be silent. -/
inductive IsOf (p : Precision) (silent : Bool) : Value Scalar → Prop
  | number {x : Datum} (h : x.IsMember p.format) : IsOf p silent (.number (.binary p x))
  | tuple {vs : List (Value Scalar)} (h : ∀ v ∈ vs, IsOf p silent v) : IsOf p silent (.tuple vs)
  | nothing (h : silent = true) : IsOf p silent .nothing

theorem HasKind.isOf (h : v.HasKind p .number) : v.IsOf p silent := by
  obtain ⟨x, hx, rfl⟩ := h
  exact .number hx

/-- Code that may be silent has more values. -/
theorem IsOf.of_silent (h : v.IsOf p silent) : v.IsOf p true := by
  induction h with
  | number h => exact .number h
  | tuple _ ih => exact .tuple ih
  | nothing _ => exact .nothing rfl

/-- A component of a value of code is one. -/
theorem IsOf.component {A : Arithmetic Scalar} {index : Int} (h : v.IsOf p silent)
    (hw : v.component A index = .ok w) : w.IsOf p silent := by
  cases h with
  | number => cases hw
  | tuple h => exact h w (mem_of_component hw)
  | nothing => cases hw

/-- A value of code that stands for a number **is one**. -/
theorem IsOf.isData {s : Scalar} (h : v.IsOf p silent) (hs : Scalar.ofValue v = .ok s) :
    v.IsData p := by
  cases h with
  | number h => exact .number h
  | tuple => cases hs
  | nothing => cases hs

end Value

/-- What the value of an expression is **used for**: as the operand of an operation, as the
condition of a choice, or not at all. -/
inductive Use where
  | operand
  | condition
  | statement
  deriving DecidableEq, Repr

/-- The values that **serve a use**: only a condition, or what is not used, may be a truth value,
and what is not used may be nothing. -/
def Value.Serves (p : Precision) (silent : Bool) : Use → Value Scalar → Prop
  | .operand, v => v.IsOf p silent
  | .condition, v => v.IsOf p silent ∨ ∃ b, v = .truth b
  | .statement, v => v.IsOf p true ∨ ∃ b, v = .truth b

/-- The values of code serve **every use**. -/
theorem Value.IsOf.serves {p : Precision} {silent : Bool} {v : Value Scalar} (h : v.IsOf p silent)
    (use : Use) : v.Serves p silent use := by
  cases use with
  | operand => exact h
  | condition => exact Or.inl h
  | statement => exact Or.inl h.of_silent

/-- A truth value serves what is **no operand**. -/
theorem Value.serves_truth {p : Precision} {silent : Bool} {use : Use} (huse : use ≠ .operand)
    (b : Bool) : (Value.truth b).Serves p silent use := by
  cases use with
  | operand => exact absurd rfl huse
  | condition => exact Or.inr ⟨b, rfl⟩
  | statement => exact Or.inr ⟨b, rfl⟩

/-- Nothing serves what is **not used**, and where code may be silent everything. -/
theorem Value.serves_nothing {p : Precision} {silent : Bool} {use : Use}
    (huse : use = .statement ∨ silent = true) : Value.nothing.Serves p silent use := by
  rcases huse with rfl | rfl
  · exact Or.inl (.nothing rfl)
  · exact (Value.IsOf.nothing rfl).serves use

/-- Bindings of variables to **values of code**. -/
def Bindings.IsOf (p : Precision) (silent : Bool) (env : Bindings Scalar) : Prop :=
  ∀ b ∈ env, b.2.IsOf p silent

/-! ### Operations -/

namespace Emulation

variable {p : Precision} {silent : Bool} {op : Op} {v : Value Scalar} {vs : List (Value Scalar)}

/-- The numeric operations that **keep the precision**. -/
inductive Keeps (p : Precision) : Op → Prop
  | arithmetic {op : Op} (h : IsArithmetic p op) : Keeps p op
  | constant (n : Number) : Keeps p (.constant n)
  | mathConstant (name : String) : Keeps p (.mathConstant name)
  | mathFunction (name : String) : Keeps p (.mathFunction name)
  | splat (format : Option ResultFormat) : Keeps p (.splat format)
  | custom (name : String) : Keeps p (.custom name)

theorem Keeps.isControl (h : Keeps p op) : op.isControl = false := by
  cases h with
  | arithmetic h => exact h.isControl
  | _ => rfl

/-- An exact number that is rounded is **a number of the precision**. -/
theorem hasKind_roundExact {q : Rat} {s : Scalar} (h : roundExact p q = .ok s) :
    (Value.number s).HasKind p .number := by
  obtain ⟨coding, -, h⟩ := bind_eq_ok.mp h
  cases h
  exact ⟨_, Datum.isMember_ofCoding _ _, rfl⟩

/-- So is the value of a mathematical function. -/
theorem hasKind_function {f : MathFunction} {args : List Scalar} {s : Scalar}
    (h : function p f args = .ok s) : (Value.number s).HasKind p .number := by
  obtain ⟨xs, -, h⟩ := bind_eq_ok.mp h
  obtain ⟨r, -, h⟩ := bind_eq_ok.mp h
  cases r with
  | complex => cases h
  | real x =>
    dsimp only at h
    cases hx : x.toRat? with
    | none =>
      rw [hx] at h
      cases h
    | some q =>
      rw [hx] at h
      exact hasKind_roundExact h

/-- Values of code that stand for numbers are data. -/
theorem isData_of_mapM {xs : List Scalar} (hvs : ∀ v ∈ vs, v.IsOf p silent)
    (h : vs.mapM Scalar.ofValue = .ok xs) : ∀ v ∈ vs, v.IsData p := by
  intro v hv
  obtain ⟨s, -, hs⟩ := exists_mem_of_mapM_eq_ok h hv
  exact (hvs v hv).isData hs

/-- **An operation on values of code** gives a value of code. -/
theorem Keeps.isOf (hop : Keeps p op) (hvs : ∀ v ∈ vs, v.IsOf p silent)
    (h : operation p op vs = .ok v) : v.IsOf p silent := by
  cases hop with
  | arithmetic hop =>
    by_cases hnothing : vs = [.nothing]
    · -- a conversion takes nothing for what is no number; no other operation takes it
      subst hnothing
      cases hop <;> cases h
      exact .number Datum.isMember_nan
    · have hscalar := (operation_of_ne_nothing hop hnothing).symm.trans h
      obtain ⟨xs, hxs, -⟩ := bind_eq_ok.mp hscalar
      exact (hasKind_operation hop (isData_of_mapM hvs hxs) h).isOf
  | constant n =>
    obtain ⟨xs, -, h⟩ := bind_eq_ok.mp h
    rcases xs with _ | ⟨x, xs⟩
    · obtain ⟨q, -, h⟩ := bind_eq_ok.mp h
      obtain ⟨s, hs, hlast⟩ := bind_eq_ok.mp h
      cases hlast
      exact (hasKind_roundExact hs).isOf
    · cases h
  | mathConstant name =>
    obtain ⟨xs, -, h⟩ := bind_eq_ok.mp h
    rcases xs with _ | ⟨x, xs⟩
    · obtain ⟨y, -, h⟩ := bind_eq_ok.mp h
      obtain ⟨s, hs, hlast⟩ := bind_eq_ok.mp h
      cases hlast
      exact (hasKind_roundExact hs).isOf
    · cases h
  | mathFunction name =>
    rw [operation] at h
    cases hname : MathFunction.ofName? name with
    | none =>
      rw [hname] at h
      cases h
    | some f =>
      rw [hname] at h
      obtain ⟨xs, -, h⟩ := bind_eq_ok.mp h
      rw [scalarOperation, hname] at h
      obtain ⟨s, hs, hlast⟩ := bind_eq_ok.mp h
      cases hlast
      exact (hasKind_function hs).isOf
  | splat format =>
    rcases vs with _ | ⟨u, _ | ⟨w, vs⟩⟩
    · cases h
    · cases h
      exact hvs v List.mem_cons_self
    · obtain ⟨xs, hxs, h⟩ := bind_eq_ok.mp h
      cases h
  | custom name => cases h

/-- **An argument** that is a value of code is a number. -/
theorem isOf_argument {w : Value Scalar} (hv : v.IsOf p silent) (h : argument p v = .ok w) :
    w.IsOf p silent := by
  cases hv with
  | number hx =>
    cases h
    exact .number hx.convert
  | tuple => cases h
  | nothing =>
    cases h
    exact .number Datum.isMember_nan

/-- **Bindings of arguments** that are values of code. -/
theorem isOf_bindArguments {names : List String} {env : Bindings Scalar}
    (hvs : ∀ v ∈ vs, v.IsOf p silent) (h : (arithmetic p).bindArguments names vs = .ok env) :
    env.IsOf p silent := by
  obtain ⟨bs, rfl, hbs⟩ := Arithmetic.bindArguments_eq_ok h
  intro b hb
  obtain ⟨b', hb', -, hw⟩ := exists_of_forall₂ hbs (List.mem_reverse.mp hb)
  exact isOf_argument (hvs b'.2 (List.of_mem_zip hb').2) hw

end Emulation

/-! ### Code -/

namespace Expr

/-- What the value of a statement is used for: that of a result is the value of the sequence. -/
def useInSequence (e : Expr) : Use := if e.op = .result then .operand else .statement

/-- The **code of one precision**, by the use of its value. Bits and conversions are of the
precision, truth values are no operands, and where code may not be silent, a sequence whose value is
used has a result, and the value of an assignment is not used. -/
inductive IsCode (p : Precision) (silent : Bool) : Use → Expr → Prop
  | numeric {use : Use} {op : Op} {es : List Expr} (hop : Emulation.Keeps p op)
      (h : ∀ e ∈ es, IsCode p silent .operand e) : IsCode p silent use (node op es)
  | variable {use : Use} {name : String} {format : Option ResultFormat} {es : List Expr} :
      IsCode p silent use (node (.var name format) es)
  | fromBits {use : Use} {e : Expr} :
      IsCode p silent use (node (.fromBits (some (.binary p))) [e])
  | isOdd {use : Use} {es : List Expr} (huse : use ≠ .operand)
      (h : ∀ e ∈ es, IsCode p silent .operand e) : IsCode p silent use (node .isOdd es)
  | comparison {use : Use} {r : Relation} {a b : Expr} (huse : use ≠ .operand)
      (ha : IsCode p silent .operand a) (hb : IsCode p silent .operand b) :
      IsCode p silent use (node (.comparison r) [a, b])
  | select {use : Use} {c a b : Expr} (hc : IsCode p silent .condition c)
      (ha : IsCode p silent use a) (hb : IsCode p silent use b) :
      IsCode p silent use (node .select [c, a, b])
  | tuple {use : Use} {es : List Expr} (h : ∀ e ∈ es, IsCode p silent .operand e) :
      IsCode p silent use (node .tuple es)
  | component {use : Use} {index : Int} {e : Expr} (h : IsCode p silent .operand e) :
      IsCode p silent use (node (.tupleSelection index) [e])
  | call {use : Use} {name : String} {es : List Expr}
      (h : ∀ e ∈ es, IsCode p silent .operand e) :
      IsCode p silent use (node (.functionCall name) es)
  | assignment {use : Use} {target value : Expr} (huse : use = .statement ∨ silent = true)
      (h : IsCode p silent .operand value) : IsCode p silent use (node .assignment [target, value])
  | result {use : Use} {value : Expr} (h : IsCode p silent .operand value) :
      IsCode p silent use (node .result [value])
  | sequence {use : Use} {es : List Expr}
      (huse : (use = .statement ∨ silent = true) ∨ ∃ e ∈ es, e.op = .result)
      (h : ∀ e ∈ es, IsCode p silent e.useInSequence e) : IsCode p silent use (node .statement es)

variable {p : Precision} {silent : Bool} {use : Use} {calls : Calls Scalar}
  {env env' : Bindings Scalar} {e : Expr} {es : List Expr} {v : Value Scalar}
  {vs : List (Value Scalar)}

/-- An expression **keeps to the precision**: under bindings to values of code it gives what serves
a use, if it gives a value, and binds variables to values of code only. -/
def KeepsTo (p : Precision) (silent : Bool) (calls : Calls Scalar) (use : Use) (e : Expr) : Prop :=
  ∀ ⦃env env' : Bindings Scalar⦄ ⦃v : Value Scalar⦄, env.IsOf p silent →
    e.evaluate (Emulation.arithmetic p) calls env = .ok (v, env') →
      v.Serves p silent use ∧ env'.IsOf p silent

/-- **A row of expressions** that keep to the precision: what all values are follows from what each
serves, and the variables keep to the precision. -/
theorem evaluateAll_of_keepsTo {P : Value Scalar → Prop}
    (h : ∀ e ∈ es, ∃ use, e.KeepsTo p silent calls use ∧ ∀ v, v.Serves p silent use → P v)
    (henv : env.IsOf p silent)
    (heval : evaluateAll (Emulation.arithmetic p) calls es env = .ok (vs, env')) :
    (∀ v ∈ vs, P v) ∧ env'.IsOf p silent := by
  induction es generalizing env vs with
  | nil =>
    cases heval
    exact ⟨nofun, henv⟩
  | cons e es ih =>
    obtain ⟨v, env₁, vs', rfl, hv, hvs⟩ := evaluateAll_cons_eq_ok heval
    obtain ⟨use, hkeeps, hP⟩ := h e List.mem_cons_self
    obtain ⟨hserves, henv₁⟩ := hkeeps henv hv
    obtain ⟨hall, henv₂⟩ := ih (fun a ha => h a (List.mem_cons_of_mem e ha)) henv₁ hvs
    exact ⟨List.forall_mem_cons.mpr ⟨hP v hserves, hall⟩, henv₂⟩

/-- **Operands** that keep to the precision have values of code. -/
theorem evaluateAll_keepsTo (h : ∀ e ∈ es, e.KeepsTo p silent calls .operand)
    (henv : env.IsOf p silent)
    (heval : evaluateAll (Emulation.arithmetic p) calls es env = .ok (vs, env')) :
    (∀ v ∈ vs, v.IsOf p silent) ∧ env'.IsOf p silent :=
  evaluateAll_of_keepsTo (fun e he => ⟨.operand, h e he, fun _ hv => hv⟩) henv heval

/-- **Statements** that keep to the precision, one after the other: the value is that of a result,
or nothing when there is none. -/
theorem evaluateSequence_keepsTo (h : ∀ e ∈ es, e.KeepsTo p silent calls e.useInSequence)
    (henv : env.IsOf p silent)
    (heval : evaluateSequence (Emulation.arithmetic p) calls es env = .ok (v, env')) :
    (v.IsOf p silent ∨ v = .nothing ∧ ∀ e ∈ es, e.op ≠ .result) ∧ env'.IsOf p silent := by
  induction es generalizing env with
  | nil =>
    cases heval
    exact ⟨Or.inr ⟨rfl, nofun⟩, henv⟩
  | cons e es ih =>
    rw [List.forall_mem_cons] at h
    rw [evaluateSequence] at heval
    by_cases hresult : e.op = .result
    · rw [if_pos hresult] at heval
      obtain ⟨hserves, henv'⟩ := h.1 henv heval
      rw [useInSequence, if_pos hresult] at hserves
      exact ⟨Or.inl hserves, henv'⟩
    · rw [if_neg hresult] at heval
      obtain ⟨⟨w, env₁⟩, hw, hrest⟩ := bind_eq_ok.mp heval
      obtain ⟨hv, henv'⟩ := ih h.2 (h.1 henv hw).2 hrest
      refine ⟨?_, henv'⟩
      rcases hv with hv | ⟨hnothing, hnone⟩
      · exact Or.inl hv
      · exact Or.inr ⟨hnothing, List.forall_mem_cons.mpr ⟨hresult, hnone⟩⟩

/-- An operation that **takes no operands** has none, if it gives a value. -/
theorem eq_nil_of_evaluate {op : Op} (hop : op.isControl = false)
    (hleaf : ∀ vs v, Emulation.operation p op vs = .ok v → vs = [])
    (h : evaluate (Emulation.arithmetic p) calls (node op es) env = .ok (v, env')) :
    es = [] ∧ env' = env := by
  obtain ⟨vs, hvs, hv⟩ := evaluate_operation_eq_ok hop h
  obtain rfl := hleaf vs v hv
  exact evaluateAll_eq_ok_nil hvs

/-- **What holds a coding** is a bit pattern or a constant, if it gives a value. -/
theorem leaf_of_coding {coding : Int} (hcoding : e.coding = .ok coding)
    (h : evaluate (Emulation.arithmetic p) calls e env = .ok (v, env')) :
    ((∃ n, e = node (.bitPattern n) []) ∨ ∃ n, e = node (.constant n) []) ∧ env' = env := by
  -- both operations go on to scalars, where they are found to have no operands
  have hleaf : ∀ op : Op, (∀ x xs, Emulation.scalarOperation p op (x :: xs) =
      .error (.notEvaluable "FormatEvaluator" op.name)) → ∀ (vs : List (Value Scalar)) v,
      (do Emulation.scalarOperation p op (← vs.mapM Scalar.ofValue)) = .ok v → vs = [] := by
    intro op hop vs v hv
    obtain ⟨xs, hxs, hv⟩ := bind_eq_ok.mp hv
    cases xs with
    | nil => exact List.forall₂_nil_right_iff.mp (mapM_eq_ok.mp hxs)
    | cons x xs =>
      rw [hop] at hv
      cases hv
  obtain ⟨op, es⟩ := e
  cases op with
  | bitPattern n =>
    have hnone : ∀ vs v, Emulation.operation p (.bitPattern n) vs = .ok v → vs = [] :=
      hleaf (.bitPattern n) fun _ _ => rfl
    obtain ⟨rfl, henv⟩ := eq_nil_of_evaluate rfl hnone h
    exact ⟨Or.inl ⟨n, rfl⟩, henv⟩
  | constant n =>
    have hnone : ∀ vs v, Emulation.operation p (.constant n) vs = .ok v → vs = [] :=
      hleaf (.constant n) fun _ _ => rfl
    obtain ⟨rfl, henv⟩ := eq_nil_of_evaluate rfl hnone h
    exact ⟨Or.inr ⟨n, rfl⟩, henv⟩
  | _ => cases hcoding

/-- Calls that keep to the precision. -/
def CallsKeepTo (p : Precision) (silent : Bool) (calls : Calls Scalar) : Prop :=
  ∀ ⦃name f values v⦄, calls name = some f → (∀ w ∈ values, w.IsOf p silent) →
    f values = .ok v → v.IsOf p silent

/-- **Code keeps to the precision.** -/
theorem IsCode.keepsTo (h : e.IsCode p silent use) (hcalls : CallsKeepTo p silent calls) :
    e.KeepsTo p silent calls use := by
  induction h with
  | numeric hop _ ih =>
    intro env env' v henv heval
    obtain ⟨vs, hvs, hv⟩ := evaluate_operation_eq_ok hop.isControl heval
    obtain ⟨hall, henv'⟩ := evaluateAll_keepsTo ih henv hvs
    exact ⟨(hop.isOf hall hv).serves _, henv'⟩
  | @«variable» _ name format es =>
    intro env env' v henv heval
    obtain ⟨hlookup, rfl⟩ := evaluate_var_eq_ok heval
    exact ⟨(henv (name, v) (mem_of_lookup_eq_some hlookup)).serves _, henv⟩
  | fromBits =>
    intro env env' v henv heval
    obtain ⟨w, coding, hw, hcoding, hv⟩ := evaluate_fromBits_eq_ok heval
    obtain ⟨-, rfl⟩ := leaf_of_coding hcoding hw
    exact ⟨(Emulation.hasKind_decode hv).isOf.serves _, henv⟩
  | isOdd huse _ ih =>
    intro env env' v henv heval
    obtain ⟨vs, hvs, hv⟩ := evaluate_operation_eq_ok rfl heval
    obtain ⟨b, rfl⟩ := Emulation.hasKind_isOdd hv
    exact ⟨Value.serves_truth huse b, (evaluateAll_keepsTo ih henv hvs).2⟩
  | comparison huse _ _ iha ihb =>
    intro env env' v henv heval
    obtain ⟨a, b, env₁, holds, ha, hb, -, rfl⟩ := evaluate_comparison_eq_ok heval
    exact ⟨Value.serves_truth huse holds, (ihb (iha henv ha).2 hb).2⟩
  | select _ _ _ ihc iha ihb =>
    intro env env' v henv heval
    obtain ⟨c, env₁, a, env₂, b, hvc, hva, hvb, rfl⟩ := evaluate_select_eq_ok heval
    obtain ⟨ha, henv₂⟩ := iha (ihc henv hvc).2 hva
    obtain ⟨hb, henv'⟩ := ihb henv₂ hvb
    refine ⟨?_, henv'⟩
    split
    · exact ha
    · exact hb
  | tuple _ ih =>
    intro env env' v henv heval
    obtain ⟨vs, hvs, rfl⟩ := evaluate_tuple_eq_ok heval
    obtain ⟨hall, henv'⟩ := evaluateAll_keepsTo ih henv hvs
    exact ⟨(Value.IsOf.tuple hall).serves _, henv'⟩
  | component _ ih =>
    intro env env' v henv heval
    obtain ⟨w, hw, hv⟩ := evaluate_component_eq_ok heval
    obtain ⟨hserves, henv'⟩ := ih henv hw
    exact ⟨(Value.IsOf.component hserves hv).serves _, henv'⟩
  | @call _ name es _ ih =>
    intro env env' v henv heval
    obtain ⟨f, vs, hf, hvs, hv⟩ := evaluate_call_eq_ok heval
    obtain ⟨hall, henv'⟩ := evaluateAll_keepsTo ih henv hvs
    exact ⟨(hcalls hf hall hv).serves _, henv'⟩
  | @assignment _ target value huse _ ih =>
    intro env env' v henv heval
    obtain ⟨name, format, w, env₁, -, hw, rfl, rfl⟩ := evaluate_assignment_eq_ok heval
    obtain ⟨hserves, henv₁⟩ := ih henv hw
    exact ⟨Value.serves_nothing huse, List.forall_mem_cons.mpr ⟨hserves, henv₁⟩⟩
  | result _ ih =>
    intro env env' v henv heval
    obtain ⟨hserves, henv'⟩ := ih henv heval
    exact ⟨Value.IsOf.serves hserves _, henv'⟩
  | sequence huse _ ih =>
    intro env env' v henv heval
    obtain ⟨hvalue, henv'⟩ := evaluateSequence_keepsTo ih henv heval
    refine ⟨?_, henv'⟩
    rcases hvalue with hvalue | ⟨rfl, hnone⟩
    · exact hvalue.serves _
    · rcases huse with huse | ⟨e, he, hresult⟩
      · exact Value.serves_nothing huse
      · exact absurd hresult (hnone e he)

/-- **The operands of code are code**, but for the one below a bit conversion. -/
theorem IsCode.evaluatedOperands (h : e.IsCode p silent use) :
    (∀ a ∈ e.evaluatedOperands calls, ∃ use, a.IsCode p silent use) ∨
      ∃ x, e = node (.fromBits (some (.binary p))) [x] := by
  cases h with
  | fromBits => exact Or.inr ⟨_, rfl⟩
  | @numeric _ op es hop h =>
    have hes : (node op es).evaluatedOperands calls = es := by
      cases hop with
      | arithmetic hop => cases hop <;> rfl
      | _ => rfl
    rw [hes]
    exact Or.inl fun a ha => ⟨.operand, h a ha⟩
  | «variable» => exact Or.inl nofun
  | isOdd _ h => exact Or.inl fun a ha => ⟨.operand, h a ha⟩
  | tuple h => exact Or.inl fun a ha => ⟨.operand, h a ha⟩
  | comparison _ ha hb =>
    exact Or.inl (List.forall_mem_cons.mpr ⟨⟨_, ha⟩, List.forall_mem_singleton.mpr ⟨_, hb⟩⟩)
  | select hc ha hb =>
    exact Or.inl (List.forall_mem_cons.mpr ⟨⟨_, hc⟩, List.forall_mem_cons.mpr
      ⟨⟨_, ha⟩, List.forall_mem_singleton.mpr ⟨_, hb⟩⟩⟩)
  | component h => exact Or.inl (List.forall_mem_singleton.mpr ⟨_, h⟩)
  | assignment _ h => exact Or.inl (List.forall_mem_singleton.mpr ⟨_, h⟩)
  | result h => exact Or.inl (List.forall_mem_singleton.mpr ⟨_, h⟩)
  | @call _ name es h =>
    refine Or.inl fun a ha => ?_
    rw [Expr.evaluatedOperands] at ha
    split at ha
    · exact ⟨_, h a ha⟩
    · cases ha
  | sequence _ h => exact Or.inl fun a ha => ⟨_, h a (mem_of_mem_throughResult ha)⟩

end Expr

end Elementary
