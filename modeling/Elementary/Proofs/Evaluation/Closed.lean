import Elementary.Proofs.Evaluation.Quantize
import Elementary.Proofs.Evaluation.Sequence
import Elementary.Proofs.Evaluation.Steps
import Elementary.Proofs.Expr.Closed

/-!
# Evaluation of closed functions

An evaluation is stuck when it fails on account of the expression: at a variable without a value, at
a function that is not there, at an operation that the arithmetic does not know, or because
functions call each other too deep. An evaluation of a closed body is not stuck when the functions
in scope are not, so that it ends with a value or with a failure that is due to the values, such as
a division by zero.

## Main definitions

* `Failure.isStuck`: the failures of evaluations that are stuck.
* `Proceeds`: computations that are not stuck.

## Main results

* `Emulation.operation_proceeds`: the numeric operations are not stuck.
* `Expr.evaluate_proceeds`: closed expressions are not stuck.
* `GeneratedFunction.call_proceeds`: functions with closed bodies are not stuck.
-/

namespace Elementary

/-- The failures of an evaluation that is **stuck**: those that are due to the expression and not to
the values in it. -/
def Failure.isStuck : Failure → Bool
  | unboundVariable _ | unknownFunction _ | unknownMathFunction _ => true
  | notEvaluable _ _ | candidateNotFinite _ _ | callDepth _ => true
  | _ => false

/-- A computation **proceeds** when it gives a value of some kind, or fails without being stuck. -/
def Proceeds {α : Type} (x : Except Failure α) (Q : α → Prop) : Prop :=
  match x with
  | .ok a => Q a
  | .error f => f.isStuck = false

namespace Proceeds

variable {α β : Type} {x : Except Failure α} {g : α → Except Failure β} {Q Q' : α → Prop}
  {R : β → Prop}

theorem ok {a : α} (h : Q a) : Proceeds (.ok a) Q := h

theorem error {f : Failure} (h : f.isStuck = false) : Proceeds (.error f) Q := h

/-- Going on after a first part. -/
theorem bind (hx : Proceeds x Q) (hg : ∀ a, Q a → Proceeds (g a) R) : Proceeds (x >>= g) R := by
  cases x with
  | ok a => exact hg a hx
  | error f => exact hx

theorem mono (hx : Proceeds x Q) (h : ∀ a, Q a → Q' a) : Proceeds x Q' := by
  cases x with
  | ok a => exact h a hx
  | error f => exact hx

/-- Something done to every element of a list. -/
theorem mapM {f : α → Except Failure β} {as : List α} (h : ∀ a ∈ as, Proceeds (f a) R) :
    Proceeds (as.mapM f) fun bs => bs.length = as.length := by
  induction as with
  | nil => exact .ok rfl
  | cons a as ih =>
    rw [List.mapM_cons]
    refine (h a List.mem_cons_self).bind fun b _ => ?_
    refine (ih fun a' ha' => h a' (List.mem_cons_of_mem a ha')).bind fun bs hbs => .ok ?_
    rw [List.length_cons, List.length_cons, hbs]

/-- What the failure of a computation that proceeds is. -/
theorem not_isStuck {f : Failure} (hx : Proceeds x Q) (h : x = .error f) : f.isStuck = false := by
  rwa [h] at hx

end Proceeds

/-! ### Comparisons -/

namespace Value

variable {ν : Type} {f : Value ν → Value ν → Except Failure (Option Ordering)}

/-- **The order of two values** is not stuck where that of two numbers is not. -/
theorem order_proceeds (hf : ∀ v w, Proceeds (f v w) fun _ => True) :
    ∀ v w, Proceeds (order f v w) fun _ => True := by
  refine order.induct (fun v w => Proceeds (order f v w) fun _ => True)
    (fun vs ws => Proceeds (orderAll f vs ws) fun _ => True) ?tuples ?others ?nil ?shorter ?longer
    ?nothing ?cons
  case tuples =>
    intro vs ws ih
    rwa [order]
  case others =>
    intro v w hvw
    rw [order.eq_2 f v w hvw]
    exact hf v w
  case nil | shorter | longer =>
    intros
    rw [orderAll]
    trivial
  case nothing =>
    intro vs ws ih
    rwa [orderAll]
  case cons =>
    intro v vs w ws hvw ih ihs
    rw [orderAll.eq_5 f v vs w ws hvw]
    refine ih.bind fun o _ => ?_
    split
    · exact ihs
    · trivial

end Value

/-! ### Numeric operations -/

namespace Emulation

variable {p : Precision} {op : Op} {xs : List Scalar} {vs : List (Value Scalar)}

theorem ofValue_proceeds (v : Value Scalar) : Proceeds (Scalar.ofValue v) fun _ => True := by
  cases v <;> trivial

theorem integerOperation_proceeds (op : Op) (m n : Int) :
    Proceeds (integerOperation op m n) fun _ => True := by
  unfold integerOperation
  repeat' split
  all_goals trivial

theorem flagOperation_proceeds (op : Op) (x y : Bool) :
    Proceeds (flagOperation op x y) fun _ => True := by
  unfold flagOperation
  split <;> trivial

theorem flagIntegerOperation_proceeds (op : Op) (m n : Int) :
    Proceeds (flagIntegerOperation op m n) fun _ => True := by
  unfold flagIntegerOperation
  split
  · trivial
  · exact integerOperation_proceeds op m n

theorem arithmeticOperation_proceeds (op : Op) (x y : Scalar) :
    Proceeds (arithmeticOperation op x y) fun _ => True := by
  unfold arithmeticOperation
  dsimp only
  repeat' split
  all_goals first
    | trivial
    | exact integerOperation_proceeds _ _ _
    | exact flagOperation_proceeds _ _ _
    | exact flagIntegerOperation_proceeds _ _ _

theorem negate_proceeds (x : Scalar) : Proceeds x.negate fun _ => True := by
  cases x <;> trivial

theorem powerOfTwo_proceeds (p : Precision) (x : Scalar) :
    Proceeds (powerOfTwo p x) fun _ => True := by
  have hinteger : Proceeds x.toInt fun _ => True := by
    unfold Scalar.toInt
    repeat' split
    all_goals trivial
  refine hinteger.bind fun k _ => ?_
  split <;> trivial

/-- An operation on **the right number of scalars** is not stuck. -/
theorem scalarOperation_proceeds (hop : C.isOperation op = true) (hcontrol : op.isControl = false)
    (harity : op.arity = some xs.length) : Proceeds (scalarOperation p op xs) fun _ => True := by
  have hnumber {x : Except Failure Scalar} (hx : Proceeds x fun _ => True) :
      Proceeds (do return Value.number (← x)) fun _ => True :=
    hx.bind fun _ _ => .ok trivial
  have hlength : ∀ k, op.arity = some k → xs.length = k := fun k hk =>
    Option.some.inj (harity.symm.trans hk)
  cases op <;> first
    | exact absurd hop Bool.false_ne_true
    | exact absurd hcontrol.symm Bool.false_ne_true
    | (obtain ⟨x, rfl⟩ := List.length_eq_one_iff.mp (hlength 1 rfl)
       first
         | trivial
         | exact hnumber (powerOfTwo_proceeds p x)
         | exact hnumber (negate_proceeds x))
    | (obtain ⟨x, y, rfl⟩ := List.length_eq_two.mp (hlength 2 rfl)
       exact hnumber (arithmeticOperation_proceeds _ x y))
    | (obtain ⟨x, y, z, rfl⟩ := List.length_eq_three.mp (hlength 3 rfl)
       exact (arithmeticOperation_proceeds _ x y).bind fun product _ =>
         hnumber (arithmeticOperation_proceeds _ product z))

/-- **A numeric operation** that is admitted in the body of a function is not stuck. -/
theorem operation_proceeds {S : NameScope} (hS : S.isReference = false)
    (hop : S.admits op vs.length = true) (hnumber : op.number? = none)
    (hcontrol : op.isControl = false) : Proceeds (operation p op vs) fun _ => True := by
  have hoperation : C.isOperation op = true ∧ op.arity = some vs.length := by
    cases op <;> simp_all [NameScope.admits, Op.isControl, Op.number?]
  have hscalars : Proceeds (do scalarOperation p op (← vs.mapM Scalar.ofValue)) fun _ => True := by
    refine (Proceeds.mapM fun v _ => ofValue_proceeds v).bind fun xs hxs => ?_
    exact scalarOperation_proceeds hoperation.1 hcontrol (hxs ▸ hoperation.2)
  have hgeneral : operation p op vs = (do scalarOperation p op (← vs.mapM Scalar.ofValue)) := by
    cases op <;> first | rfl | cases hoperation.1
  rw [hgeneral]
  exact hscalars

theorem order_proceeds (v w : Value Scalar) : Proceeds (order v w) fun _ => True := by
  refine (ofValue_proceeds v).bind fun x _ => (ofValue_proceeds w).bind fun y _ => ?_
  split <;> trivial

theorem compare_proceeds (r : Relation) (v w : Value Scalar) :
    Proceeds (compare r v w) fun _ => True :=
  (Value.order_proceeds order_proceeds v w).bind fun _ _ => .ok trivial

theorem component_proceeds (p : Precision) (index : Int) (v : Value Scalar) :
    Proceeds (v.component (arithmetic p) index) fun _ => True := by
  cases v with
  | number x => cases x <;> trivial
  | tuple vs =>
    rw [Value.component]
    repeat' split
    all_goals trivial
  | truth | nothing => trivial

end Emulation

/-! ### Expressions -/

namespace NameScope

variable {S : NameScope} {calls : Calls Scalar} {env : Bindings Scalar}

/-- The bindings **bind a scope** when every variable in it has a value. -/
def Bound (S : NameScope) (env : Bindings Scalar) : Prop :=
  ∀ name ∈ S.names, ∃ v, env.lookup name = some v

/-- The calls **respect a scope** when every function in it is there and is not stuck on as many
values as it takes. -/
def Respected (S : NameScope) (calls : Calls Scalar) : Prop :=
  ∀ f ∈ S.functions, ∃ run, calls f.1 = some run ∧
    ∀ values, values.length = f.2 → Proceeds (run values) fun _ => True

/-- An assignment binds the scope after it. -/
theorem Bound.bind (h : S.Bound env) (name : String) (v : Value Scalar) :
    (S.bind name).Bound ((name, v) :: env) := by
  intro other hother
  by_cases hname : other = name
  · exact ⟨v, by rw [hname, List.lookup_cons_self]⟩
  · rcases List.mem_cons.mp hother with rfl | hother
    · exact absurd rfl hname
    · obtain ⟨w, hw⟩ := h other hother
      exact ⟨w, by rw [List.lookup_cons, beq_eq_false_iff_ne.mpr hname, hw]⟩

end NameScope

namespace Expr

variable {S : NameScope} {nt : NumberType} {calls : Calls Scalar} {env : Bindings Scalar}
  {e : Expr} {es statements : List Expr}

/-- Expressions that are not stuck and bind nothing, evaluated one after the other. -/
theorem evaluateAll_proceeds {A : Arithmetic Scalar}
    (hes : ∀ e ∈ es, Proceeds (e.evaluate A calls env) fun r => r.2 = env) :
    Proceeds (evaluateAll A calls es env) fun r => r.2 = env ∧ r.1.length = es.length := by
  induction es with
  | nil => exact .ok ⟨rfl, rfl⟩
  | cons e es ih =>
    rw [evaluateAll]
    refine (hes e List.mem_cons_self).bind ?_
    rintro ⟨v, env₁⟩ h₁
    obtain rfl : env₁ = env := h₁
    refine (ih fun e' he' => hes e' (List.mem_cons_of_mem e he')).bind fun rs h₂ => .ok ?_
    exact ⟨h₂.1, congrArg (· + 1) h₂.2⟩

/-- **A closed expression**, quantized, is not stuck where its scope is bound, and it binds
nothing. -/
theorem evaluate_proceeds (hS : S.isReference = false) (hcalls : S.Respected calls)
    (henv : S.Bound env) (he : e.isClosed S = true) (hcodable : e.Codable nt) :
    Proceeds ((e.coded nt).evaluate (Emulation.arithmetic nt.precision) calls env)
      fun r => r.2 = env := by
  induction e with
  | node op es ih =>
    have hwf := wellFormed_of_isClosed he
    obtain ⟨hop, hes⟩ := isClosed_node.mp he
    obtain ⟨hroot, hcodables⟩ := codable_node.mp hcodable
    cases hnumber : op.number? with
    | some n =>
      obtain ⟨v, c, rfl, hc⟩ := hroot n hnumber
      have hcoding := NumberType.coding?_of_codingOutcome hc
      obtain ⟨q, -, hq⟩ := NumberType.coding?_eq_some_iff.mp hcoding
      rw [coded_of_number?_eq_some hnumber hcoding,
        Emulation.evaluate_literal (Format.encode?_lt hq)]
      exact .ok rfl
    | none =>
      rw [coded_of_number?_eq_none hnumber]
      have hoperand : ∀ e ∈ es, Proceeds ((e.coded nt).evaluate
          (Emulation.arithmetic nt.precision) calls env) fun r => r.2 = env :=
        fun e he => ih e he (hes e he) (hcodables e he)
      have hall := evaluateAll_proceeds (List.forall_mem_map.mpr hoperand)
      rw [List.length_map] at hall
      by_cases hcontrol : op.isControl = false
      · rw [evaluate_numeric hcontrol]
        refine hall.bind ?_
        rintro ⟨vs, env'⟩ ⟨henv', hvs⟩
        refine (Emulation.operation_proceeds hS (hvs ▸ hop) hnumber hcontrol).bind fun v _ => .ok ?_
        exact henv'
      · cases op with
        | var name format =>
          simp only [NameScope.admits, Bool.and_eq_true, List.contains_iff_mem] at hop
          obtain ⟨v, hv⟩ := henv name hop.2
          rw [evaluate, hv]
          exact .ok rfl
        | comparison r =>
          obtain ⟨a, b, rfl⟩ := List.length_eq_two.mp (hwf.length_eq rfl)
          obtain ⟨ha, hb⟩ := by simpa using hoperand
          refine ha.bind ?_
          rintro ⟨v, env₁⟩ h₁
          obtain rfl : env₁ = env := h₁
          refine hb.bind ?_
          rintro ⟨w, env₂⟩ h₂
          exact (Emulation.compare_proceeds r v w).bind fun t _ => .ok h₂
        | select =>
          obtain ⟨c, a, b, rfl⟩ := List.length_eq_three.mp (hwf.length_eq rfl)
          obtain ⟨hc, ha, hb⟩ := by simpa using hoperand
          refine hc.bind ?_
          rintro ⟨t, env₁⟩ h₁
          obtain rfl : env₁ = env := h₁
          refine ha.bind ?_
          rintro ⟨v, env₂⟩ h₂
          obtain rfl : env₂ = env₁ := h₂
          exact hb.bind fun _ h₃ => .ok h₃
        | tupleSelection index =>
          obtain ⟨a, rfl⟩ := List.length_eq_one_iff.mp (hwf.length_eq rfl)
          have ha := by simpa using hoperand
          refine ha.bind ?_
          rintro ⟨v, env₁⟩ h₁
          exact (Emulation.component_proceeds _ index v).bind fun w _ => .ok h₁
        | functionCall name =>
          simp only [NameScope.admits, List.contains_iff_mem] at hop
          obtain ⟨run, hrun, hproceeds⟩ := hcalls _ hop
          rw [evaluate, hrun]
          refine hall.bind ?_
          rintro ⟨vs, env'⟩ ⟨henv', hvs⟩
          exact (hproceeds vs hvs).bind fun v _ => .ok henv'
        | statement | assignment | result | tuple | fromBits f => cases hop
        | _ => exact absurd rfl hcontrol

/-- **A closed body**, quantized, is not stuck where its scope is bound. -/
theorem evaluateSequence_proceeds (hS : S.isReference = false) (hcalls : S.Respected calls)
    (hbody : ClosedBody S statements) (hcodable : ∀ e ∈ statements, e.Codable nt)
    (henv : S.Bound env) :
    Proceeds (evaluateSequence (Emulation.arithmetic nt.precision) calls
      (statements.map (coded nt)) env) fun _ => True := by
  induction hbody generalizing env with
  | @result S e he =>
    have hvalue := (codable_node.mp (hcodable _ List.mem_cons_self)).2 e List.mem_cons_self
    rw [List.map_cons, coded_of_number?_eq_none rfl, List.map_cons, List.map_nil,
      evaluateSequence_result]
    exact (evaluate_proceeds hS hcalls henv he hvalue).mono fun _ _ => trivial
  | @results S es hes =>
    have htuple := (codable_node.mp (hcodable _ List.mem_cons_self)).2 _ List.mem_cons_self
    have hall := evaluateAll_proceeds (List.forall_mem_map.mpr fun e he =>
      evaluate_proceeds hS hcalls henv (hes e he) ((codable_node.mp htuple).2 e he))
    rw [List.map_cons, coded_of_number?_eq_none rfl, List.map_cons, List.map_nil,
      evaluateSequence_result, coded_of_number?_eq_none rfl]
    exact hall.bind fun _ _ => .ok trivial
  | @assignment S name format e rest he _ ih =>
    have hvalue := (codable_node.mp (hcodable _ List.mem_cons_self)).2 e (by simp)
    have hvar : (node (.var name format) []).coded nt = node (.var name format) [] :=
      coded_of_number?_eq_none rfl
    rw [List.map_cons, coded_of_number?_eq_none rfl, List.map_cons, List.map_cons, List.map_nil,
      hvar, evaluateSequence_assignment]
    refine (evaluate_proceeds hS hcalls henv he hvalue).bind ?_
    rintro ⟨v, env'⟩ henv'
    obtain rfl : env' = env := henv'
    exact ih hS hcalls (fun e he => hcodable e (List.mem_cons_of_mem _ he)) (henv.bind name v)

end Expr

/-! ### Calls -/

namespace GeneratedFunction

variable {nt : NumberType} {f : GeneratedFunction} {functions : List (String × Nat)}
  {statements : List Expr}

/-- The bindings of **as many arguments as values** bind all of them. -/
theorem bindArguments_proceeds {p : Precision} {names : List String}
    {values : List (Value Scalar)} (h : values.length = names.length)
    (functions : List (String × Nat)) :
    Proceeds ((Emulation.arithmetic p).bindArguments names values)
      fun env => NameScope.Bound ⟨names, functions, false⟩ env := by
  have hargument (v : Value Scalar) : Proceeds (Emulation.argument p v) fun _ => True := by
    cases v with
    | nothing => trivial
    | _ => exact (Emulation.ofValue_proceeds _).bind fun _ _ => .ok trivial
  have hrun : ∀ (bs : List (String × Value Scalar)) (S : NameScope) (env : Bindings Scalar),
      S.Bound env →
      Proceeds (bs.foldlM (fun env (name, v) => return (name, ← Emulation.argument p v) :: env) env)
        fun env' => ∀ name ∈ S.names ++ bs.map Prod.fst, ∃ v, env'.lookup name = some v := by
    intro bs
    induction bs with
    | nil => exact fun S env henv => .ok (by simpa [NameScope.Bound] using henv)
    | cons b bs ih =>
      intro S env henv
      rw [List.foldlM_cons]
      refine Proceeds.bind ((hargument b.2).bind fun v _ => .ok (henv.bind b.1 v)) fun env₁ henv₁ =>
        (ih (S.bind b.1) env₁ henv₁).mono fun env₂ henv₂ name hname => henv₂ name ?_
      simp only [NameScope.bind, List.map_cons, List.mem_append, List.mem_cons] at hname ⊢
      tauto
  have hall := hrun (names.zip values) ⟨[], [], false⟩ [] fun name hname =>
    absurd hname List.not_mem_nil
  rw [List.map_fst_zip (Nat.le_of_eq h.symm)] at hall
  exact hall

/-- **A function with a closed body**, quantized, is not stuck on as many values as it has
arguments when the functions that it calls are not. -/
theorem call_proceeds {find : String → Option GeneratedFunction} {depth : Nat}
    {values : List (Value Scalar)}
    (hbody : Expr.ClosedBody ⟨f.arguments, functions, false⟩ statements)
    (hcodable : ∀ e ∈ statements, e.Codable nt)
    (hstatements : f.statements = statements.map (Expr.coded nt))
    (hcalls : ∀ c ∈ functions, ∃ g, find c.1 = some g ∧ ∀ values, values.length = c.2 →
      Proceeds ((Emulation.arithmetic nt.precision).call find depth g values) fun _ => True)
    (hvalues : values.length = f.arguments.length) :
    Proceeds ((Emulation.arithmetic nt.precision).call find (depth + 1) f values)
      fun _ => True := by
  rw [call_succ]
  refine (bindArguments_proceeds hvalues functions).bind fun env henv => ?_
  rw [hstatements]
  refine (Expr.evaluateSequence_proceeds rfl ?_ hbody hcodable henv).bind fun _ _ => .ok trivial
  intro c hc
  obtain ⟨g, hg, hproceeds⟩ := hcalls c hc
  exact ⟨_, congrArg (Option.map _) hg, hproceeds⟩

end GeneratedFunction

end Elementary
