import Elementary.Proofs.Computation
import Elementary.Proofs.Evaluation.Basic

/-!
# Evaluation step by step

An expression that assigns nothing gives a value and leaves the bindings as they are. In every
arithmetic, what an operation gives follows from what its operands give, and the statements of a
body run one after the other: an assignment binds its variable for what comes after it. Conversely,
where an evaluation gave a value, its operands did, each under the bindings that the one before it
left.

## Main definitions

* `Expr.Gives`: an expression gives a value under bindings that it leaves as they are.
* `Expr.Assigns`: assignments lead from bindings to others.

## Main results

* `Expr.Gives.operation`, `comparison`, `select`, `call`: what operations give.
* `Expr.evaluateSequence_assignment`, `Expr.evaluateSequence_result`: statements in a sequence.
* `Expr.Assigns.evaluateSequence_append`: what comes after the assignments.
* `Expr.evaluate_operation_eq_ok`, `evaluate_comparison_eq_ok`, `evaluate_select_eq_ok`,
  `evaluate_call_eq_ok`: what was evaluated before, where an operation gave a value.
* `Expr.evaluateSequence_assignment_eq_ok`: an assignment in a sequence that gave a value.
* `Arithmetic.call_eq`, `Arithmetic.call_succ_eq_ok`: what a call gives, and where from.
-/

namespace Elementary

namespace Expr

variable {ν : Type} {A : Arithmetic ν} {calls : Calls ν} {env : Bindings ν} {op : Op}
  {e a b c : Expr} {es : List Expr} {u v w : Value ν} {vs : List (Value ν)} {name : String}

/-- An expression **gives a value** under bindings that it leaves as they are. -/
def Gives (A : Arithmetic ν) (calls : Calls ν) (env : Bindings ν) (e : Expr) (v : Value ν) :
    Prop :=
  e.evaluate A calls env = .ok (v, env)

theorem evaluateAll_of_gives (h : List.Forall₂ (Gives A calls env) es vs) :
    evaluateAll A calls es env = .ok (vs, env) := by
  induction h with
  | nil => rfl
  | cons he _ ih =>
    rw [evaluateAll, he, ok_bind]
    dsimp only
    rw [ih]
    rfl

namespace Gives

theorem var {format : Option ResultFormat} (h : env.lookup name = some v) :
    (node (.var name format) []).Gives A calls env v := by
  rw [Gives, evaluate, h]

/-- **A numeric operation** on operands that give values. -/
theorem operation (hop : op.isControl = false) (hes : List.Forall₂ (Gives A calls env) es vs)
    (hv : A.operation op vs = .ok v) : (node op es).Gives A calls env v := by
  rw [Gives, evaluate_numeric hop, evaluateAll_of_gives hes, ok_bind]
  dsimp only
  rw [hv, ok_bind]

theorem unary (hop : op.isControl = false) (ha : a.Gives A calls env u)
    (hv : A.operation op [u] = .ok v) : (node op [a]).Gives A calls env v :=
  operation hop (.cons ha .nil) hv

theorem binary (hop : op.isControl = false) (ha : a.Gives A calls env u)
    (hb : b.Gives A calls env w) (hv : A.operation op [u, w] = .ok v) :
    (node op [a, b]).Gives A calls env v :=
  operation hop (.cons ha (.cons hb .nil)) hv

theorem comparison {r : Relation} {holds : Bool} (ha : a.Gives A calls env u)
    (hb : b.Gives A calls env w) (h : A.compare r u w = .ok holds) :
    (node (.comparison r) [a, b]).Gives A calls env (.truth holds) := by
  rw [Gives, evaluate, ha, ok_bind]
  dsimp only
  rw [hb, ok_bind]
  dsimp only
  rw [h, ok_bind]

/-- **A choice** between two expressions that both give a value. -/
theorem select (hc : c.Gives A calls env u) (ha : a.Gives A calls env v)
    (hb : b.Gives A calls env w) :
    (node .select [c, a, b]).Gives A calls env (if u.isTrue A then v else w) := by
  rw [Gives, evaluate, hc, ok_bind]
  dsimp only
  rw [ha, ok_bind]
  dsimp only
  rw [hb, ok_bind]

theorem tuple (hes : List.Forall₂ (Gives A calls env) es vs) :
    (node .tuple es).Gives A calls env (.tuple vs) := by
  rw [Gives, evaluate, evaluateAll_of_gives hes, ok_bind]

theorem component {index : Int} (he : e.Gives A calls env u) (hv : u.component A index = .ok v) :
    (node (.tupleSelection index) [e]).Gives A calls env v := by
  rw [Gives, evaluate, he, ok_bind]
  dsimp only
  rw [hv, ok_bind]

/-- **A bit conversion** gives what the coding of its operand stands for. -/
theorem fromBits {format : Option ResultFormat} {coding : Int} (he : e.Gives A calls env u)
    (hcoding : e.coding = .ok coding) (hv : A.decode coding format = .ok v) :
    (node (.fromBits format) [e]).Gives A calls env v := by
  rw [Gives, evaluate, he, ok_bind]
  dsimp only
  rw [hcoding, ok_bind, hv, ok_bind]

/-- **A call** of a function that is there, on arguments that give values. -/
theorem call {run : List (Value ν) → Except Failure (Value ν)} (hrun : calls name = some run)
    (hes : List.Forall₂ (Gives A calls env) es vs) (hv : run vs = .ok v) :
    (node (.functionCall name) es).Gives A calls env v := by
  rw [Gives, evaluate, hrun]
  dsimp only
  rw [evaluateAll_of_gives hes, ok_bind]
  dsimp only
  rw [hv, ok_bind]

end Gives

/-! ### Statements -/

/-- A statement that gives a value ends the sequence. -/
theorem evaluateSequence_result (rest : List Expr) :
    evaluateSequence A calls (node .result [e] :: rest) env = evaluate A calls e env := by
  rw [evaluateSequence, if_pos (show (node .result [e]).op = .result from rfl)]
  rfl

/-- An assignment binds its variable for the rest of the sequence. -/
theorem evaluateSequence_assignment (name : String) (format : Option ResultFormat)
    (rest : List Expr) :
    evaluateSequence A calls (node .assignment [node (.var name format) [], e] :: rest) env =
      evaluate A calls e env >>= fun r =>
        evaluateSequence A calls rest ((name, r.1) :: r.2) := by
  rw [evaluateSequence, if_neg (show ¬(node .assignment _).op = .result from Op.noConfusion)]
  show ((evaluate A calls e env >>= fun r => Except.ok (Value.nothing, (name, r.1) :: r.2)) >>=
    fun r => evaluateSequence A calls rest r.2) = _
  rw [bind_assoc]
  rfl

/-- **An assignment of an expression that gives a value** binds the value for what comes after. -/
theorem Gives.evaluateSequence_cons (h : e.Gives A calls env v) (name : String)
    (format : Option ResultFormat) (rest : List Expr) :
    evaluateSequence A calls (node .assignment [node (.var name format) [], e] :: rest) env =
      evaluateSequence A calls rest ((name, v) :: env) := by
  rw [evaluateSequence_assignment, h, ok_bind]

/-- Assignments of expressions that give values **lead from bindings to others**. -/
inductive Assigns (A : Arithmetic ν) (calls : Calls ν) : List Expr → Bindings ν → Bindings ν → Prop
  | nil {env : Bindings ν} : Assigns A calls [] env env
  | cons {name : String} {format : Option ResultFormat} {e : Expr} {v : Value ν} {es : List Expr}
    {env env' : Bindings ν} (h : e.Gives A calls env v)
    (hrest : Assigns A calls es ((name, v) :: env) env') :
    Assigns A calls (assign (node (.var name format) []) e :: es) env env'

/-- **Assignments after others.** -/
theorem Assigns.append {es' : List Expr} {env' env'' : Bindings ν} (h : Assigns A calls es env env')
    (h' : Assigns A calls es' env' env'') : Assigns A calls (es ++ es') env env'' := by
  induction h with
  | nil => exact h'
  | cons h _ ih => exact .cons h (ih h')

/-- **After assignments** the sequence goes on under the bindings they lead to. -/
theorem Assigns.evaluateSequence_append {env' : Bindings ν} (h : Assigns A calls es env env')
    (rest : List Expr) :
    evaluateSequence A calls (es ++ rest) env = evaluateSequence A calls rest env' := by
  induction h with
  | nil => rfl
  | cons h _ ih =>
    rw [List.cons_append]
    exact (h.evaluateSequence_cons _ _ _).trans ih

/-! ### Evaluations that gave a value -/

section Inversion

variable {env' : Bindings ν} {format : Option ResultFormat}

/-- Operands that gave values did so **one after the other**. -/
theorem evaluateAll_cons_eq_ok (h : evaluateAll A calls (e :: es) env = .ok (vs, env')) :
    ∃ v env₁ ws, vs = v :: ws ∧ evaluate A calls e env = .ok (v, env₁) ∧
      evaluateAll A calls es env₁ = .ok (ws, env') := by
  obtain ⟨⟨v, env₁⟩, hv, hrest⟩ := bind_eq_ok.mp h
  obtain ⟨⟨ws, env₂⟩, hws, hlast⟩ := bind_eq_ok.mp hrest
  cases hlast
  exact ⟨v, env₁, ws, rfl, hv, hws⟩

/-- The value of a single operand. -/
theorem evaluateAll_singleton_eq_ok (h : evaluateAll A calls [a] env = .ok (vs, env')) :
    ∃ v, vs = [v] ∧ evaluate A calls a env = .ok (v, env') := by
  obtain ⟨v, env₁, ws, rfl, hv, hws⟩ := evaluateAll_cons_eq_ok h
  cases hws
  exact ⟨v, rfl, hv⟩

/-- The values of two operands. -/
theorem evaluateAll_pair_eq_ok (h : evaluateAll A calls [a, b] env = .ok (vs, env')) :
    ∃ v w env₁, vs = [v, w] ∧ evaluate A calls a env = .ok (v, env₁) ∧
      evaluate A calls b env₁ = .ok (w, env') := by
  obtain ⟨v, env₁, ws, rfl, hv, hws⟩ := evaluateAll_cons_eq_ok h
  obtain ⟨w, rfl, hw⟩ := evaluateAll_singleton_eq_ok hws
  exact ⟨v, w, env₁, rfl, hv, hw⟩

/-- Only a row of no operands gave no values. -/
theorem evaluateAll_eq_ok_nil (h : evaluateAll A calls es env = .ok ([], env')) :
    es = [] ∧ env' = env := by
  cases es with
  | nil =>
    cases h
    exact ⟨rfl, rfl⟩
  | cons e es =>
    obtain ⟨v, env₁, ws, hnil, -⟩ := evaluateAll_cons_eq_ok h
    cases hnil

/-- A variable gives what it is bound to. -/
theorem evaluate_var_eq_ok (h : evaluate A calls (node (.var name format) es) env = .ok (v, env')) :
    env.lookup name = some v ∧ env' = env := by
  cases hlookup : env.lookup name with
  | none =>
    rw [evaluate, hlookup] at h
    cases h
  | some w =>
    rw [evaluate, hlookup] at h
    cases h
    exact ⟨rfl, rfl⟩

/-- What a numeric operation gave is **computed from the values of its operands**. -/
theorem evaluate_operation_eq_ok (hop : op.isControl = false)
    (h : evaluate A calls (node op es) env = .ok (v, env')) :
    ∃ vs, evaluateAll A calls es env = .ok (vs, env') ∧ A.operation op vs = .ok v := by
  rw [evaluate_numeric hop] at h
  obtain ⟨⟨vs, env₁⟩, hvs, hrest⟩ := bind_eq_ok.mp h
  obtain ⟨w, hw, hlast⟩ := bind_eq_ok.mp hrest
  cases hlast
  exact ⟨vs, hvs, hw⟩

theorem evaluate_unary_eq_ok (hop : op.isControl = false)
    (h : evaluate A calls (node op [a]) env = .ok (v, env')) :
    ∃ w, evaluate A calls a env = .ok (w, env') ∧ A.operation op [w] = .ok v := by
  obtain ⟨vs, hvs, hv⟩ := evaluate_operation_eq_ok hop h
  obtain ⟨w, rfl, hw⟩ := evaluateAll_singleton_eq_ok hvs
  exact ⟨w, hw, hv⟩

theorem evaluate_binary_eq_ok (hop : op.isControl = false)
    (h : evaluate A calls (node op [a, b]) env = .ok (v, env')) :
    ∃ u w env₁, evaluate A calls a env = .ok (u, env₁) ∧ evaluate A calls b env₁ = .ok (w, env') ∧
      A.operation op [u, w] = .ok v := by
  obtain ⟨vs, hvs, hv⟩ := evaluate_operation_eq_ok hop h
  obtain ⟨u, w, env₁, rfl, hu, hw⟩ := evaluateAll_pair_eq_ok hvs
  exact ⟨u, w, env₁, hu, hw, hv⟩

theorem evaluate_ternary_eq_ok (hop : op.isControl = false)
    (h : evaluate A calls (node op [a, b, c]) env = .ok (v, env')) :
    ∃ x y z env₁ env₂, evaluate A calls a env = .ok (x, env₁) ∧
      evaluate A calls b env₁ = .ok (y, env₂) ∧ evaluate A calls c env₂ = .ok (z, env') ∧
      A.operation op [x, y, z] = .ok v := by
  obtain ⟨vs, hvs, hv⟩ := evaluate_operation_eq_ok hop h
  obtain ⟨x, env₁, ws, rfl, hx, hws⟩ := evaluateAll_cons_eq_ok hvs
  obtain ⟨y, z, env₂, rfl, hy, hz⟩ := evaluateAll_pair_eq_ok hws
  exact ⟨x, y, z, env₁, env₂, hx, hy, hz, hv⟩

theorem evaluate_comparison_eq_ok {r : Relation}
    (h : evaluate A calls (node (.comparison r) [a, b]) env = .ok (v, env')) :
    ∃ u w env₁ holds, evaluate A calls a env = .ok (u, env₁) ∧
      evaluate A calls b env₁ = .ok (w, env') ∧ A.compare r u w = .ok holds ∧
      v = .truth holds := by
  obtain ⟨⟨u, env₁⟩, hu, hrest⟩ := bind_eq_ok.mp h
  obtain ⟨⟨w, env₂⟩, hw, hrest⟩ := bind_eq_ok.mp hrest
  obtain ⟨holds, hholds, hlast⟩ := bind_eq_ok.mp hrest
  cases hlast
  exact ⟨u, w, env₁, holds, hu, hw, hholds, rfl⟩

/-- A choice has evaluated **both branches**. -/
theorem evaluate_select_eq_ok (h : evaluate A calls (node .select [c, a, b]) env = .ok (v, env')) :
    ∃ u env₁ w env₂ w', evaluate A calls c env = .ok (u, env₁) ∧
      evaluate A calls a env₁ = .ok (w, env₂) ∧ evaluate A calls b env₂ = .ok (w', env') ∧
      v = if u.isTrue A then w else w' := by
  obtain ⟨⟨u, env₁⟩, hu, hrest⟩ := bind_eq_ok.mp h
  obtain ⟨⟨w, env₂⟩, hw, hrest⟩ := bind_eq_ok.mp hrest
  obtain ⟨⟨w', env₃⟩, hw', hlast⟩ := bind_eq_ok.mp hrest
  cases hlast
  exact ⟨u, env₁, w, env₂, w', hu, hw, hw', rfl⟩

theorem evaluate_tuple_eq_ok (h : evaluate A calls (node .tuple es) env = .ok (v, env')) :
    ∃ vs, evaluateAll A calls es env = .ok (vs, env') ∧ v = .tuple vs := by
  obtain ⟨⟨vs, env₁⟩, hvs, hlast⟩ := bind_eq_ok.mp h
  cases hlast
  exact ⟨vs, hvs, rfl⟩

theorem evaluate_component_eq_ok {index : Int}
    (h : evaluate A calls (node (.tupleSelection index) [e]) env = .ok (v, env')) :
    ∃ w, evaluate A calls e env = .ok (w, env') ∧ w.component A index = .ok v := by
  obtain ⟨⟨w, env₁⟩, hw, hrest⟩ := bind_eq_ok.mp h
  obtain ⟨u, hu, hlast⟩ := bind_eq_ok.mp hrest
  cases hlast
  exact ⟨w, hw, hu⟩

/-- The operand of a bit conversion is evaluated, but the value comes from **its coding**. -/
theorem evaluate_fromBits_eq_ok
    (h : evaluate A calls (node (.fromBits format) [e]) env = .ok (v, env')) :
    ∃ w coding, evaluate A calls e env = .ok (w, env') ∧ e.coding = .ok coding ∧
      A.decode coding format = .ok v := by
  obtain ⟨⟨w, env₁⟩, hw, hrest⟩ := bind_eq_ok.mp h
  obtain ⟨coding, hcoding, hrest⟩ := bind_eq_ok.mp hrest
  obtain ⟨u, hu, hlast⟩ := bind_eq_ok.mp hrest
  cases hlast
  exact ⟨w, coding, hw, hcoding, hu⟩

/-- A call that gave a value is one of a function that is **there**. -/
theorem evaluate_call_eq_ok
    (h : evaluate A calls (node (.functionCall name) es) env = .ok (v, env')) :
    ∃ run vs, calls name = some run ∧ evaluateAll A calls es env = .ok (vs, env') ∧
      run vs = .ok v := by
  cases hname : calls name with
  | none =>
    rw [evaluate, hname] at h
    cases h
  | some run =>
    rw [evaluate, hname] at h
    obtain ⟨⟨vs, env₁⟩, hvs, hrest⟩ := bind_eq_ok.mp h
    obtain ⟨w, hw, hlast⟩ := bind_eq_ok.mp hrest
    cases hlast
    exact ⟨run, vs, rfl, hvs, hw⟩

/-- What is assigned to is **a variable**, and the assignment itself gives nothing. -/
theorem evaluate_assignment_eq_ok
    (h : evaluate A calls (node .assignment [a, e]) env = .ok (v, env')) :
    ∃ name format w env₁, a.op = .var name format ∧ evaluate A calls e env = .ok (w, env₁) ∧
      v = .nothing ∧ env' = (name, w) :: env₁ := by
  obtain ⟨⟨w, env₁⟩, hw, hlast⟩ := bind_eq_ok.mp h
  dsimp only at hlast
  split at hlast
  · next name format hop =>
    cases hlast
    exact ⟨name, format, w, env₁, hop, hw, rfl, rfl⟩
  · cases hlast

/-- **A sequence that starts with an assignment** goes on with the variable bound. -/
theorem evaluateSequence_assignment_eq_ok {rest : List Expr}
    (h : evaluateSequence A calls (node .assignment [node (.var name format) es, e] :: rest) env =
      .ok (v, env')) :
    ∃ w env₁, evaluate A calls e env = .ok (w, env₁) ∧
      evaluateSequence A calls rest ((name, w) :: env₁) = .ok (v, env') := by
  obtain ⟨⟨u, env₁⟩, hassign, hrest⟩ := bind_eq_ok.mp h
  obtain ⟨_, _, w, env₂, hop, hw, -, rfl⟩ := evaluate_assignment_eq_ok hassign
  cases hop
  exact ⟨w, env₂, hw, hrest⟩

end Inversion

end Expr

/-! ### Calls -/

namespace Arithmetic

variable {ν : Type} {A : Arithmetic ν} {find : String → Option GeneratedFunction}
  {f : GeneratedFunction} {u v w z : Value ν} {vs : List (Value ν)} {env env' : Bindings ν}

theorem bindArguments_singleton (hv : A.argument v = .ok w) (name : String) :
    A.bindArguments [name] [v] = .ok [(name, w)] := by
  simp only [bindArguments, List.zip_cons_cons, List.zip_nil_left, List.foldlM_cons,
    List.foldlM_nil, hv, ok_bind]
  rfl

theorem bindArguments_pair (hu : A.argument u = .ok z) (hv : A.argument v = .ok w)
    (name name' : String) :
    A.bindArguments [name, name'] [u, v] = .ok [(name', w), (name, z)] := by
  simp only [bindArguments, List.zip_cons_cons, List.zip_nil_left, List.foldlM_cons,
    List.foldlM_nil, hu, hv, ok_bind]
  rfl

/-- **Arguments are bound** to their values as arguments, the last one first. -/
theorem bindArguments_eq_ok {names : List String} (h : A.bindArguments names vs = .ok env) :
    ∃ bs, env = bs.reverse ∧
      List.Forall₂ (fun b' b => b'.1 = b.1 ∧ A.argument b.2 = .ok b'.2) bs (names.zip vs) := by
  have hrun : ∀ (bs : List (String × Value ν)) (env₀ : Bindings ν),
      bs.foldlM (fun env b => return (b.1, ← A.argument b.2) :: env) env₀ = .ok env →
      ∃ bs', env = bs'.reverse ++ env₀ ∧
        List.Forall₂ (fun b' b => b'.1 = b.1 ∧ A.argument b.2 = .ok b'.2) bs' bs := by
    intro bs
    induction bs with
    | nil =>
      intro env₀ h
      cases h
      exact ⟨[], rfl, .nil⟩
    | cons b bs ih =>
      intro env₀ h
      rw [List.foldlM_cons] at h
      obtain ⟨env₁, hfirst, hrest⟩ := bind_eq_ok.mp h
      obtain ⟨w, hw, hbound⟩ := bind_eq_ok.mp hfirst
      cases hbound
      obtain ⟨bs', henv, hbs'⟩ := ih _ hrest
      refine ⟨(b.1, w) :: bs', ?_, .cons ⟨rfl, hw⟩ hbs'⟩
      rw [henv, List.reverse_cons, List.append_assoc, List.singleton_append]
  obtain ⟨bs, henv, hbs⟩ := hrun _ [] h
  exact ⟨bs, henv.trans (List.append_nil _), hbs⟩

/-- **A call** gives what the statements give under the bindings of the arguments. -/
theorem call_eq {depth : Nat} (hargs : A.bindArguments f.arguments vs = .ok env)
    (hrun : Expr.evaluateSequence A (fun name => (find name).map (A.call find depth)) f.statements
      env = .ok (v, env')) : A.call find (depth + 1) f vs = .ok v := by
  rw [call, hargs, ok_bind]
  dsimp only
  rw [hrun]
  rfl

/-- **A call that gave a value** has bound its arguments and run the statements. -/
theorem call_succ_eq_ok {depth : Nat} (h : A.call find (depth + 1) f vs = .ok v) :
    ∃ env env', A.bindArguments f.arguments vs = .ok env ∧
      Expr.evaluateSequence A (fun name => (find name).map (A.call find depth)) f.statements env =
        .ok (v, env') := by
  obtain ⟨env, henv, hrun⟩ := bind_eq_ok.mp h
  obtain ⟨⟨w, env'⟩, hw, hlast⟩ := bind_eq_ok.mp hrun
  cases hlast
  exact ⟨env, env', henv, hw⟩

end Arithmetic

end Elementary
