import Elementary.Proofs.Evaluation.Steps
import Mathlib.Logic.Relation

/-!
# What an evaluation reaches

An evaluation goes from an expression to its operands, from left to right, and from a call to the
body of the function that is called. It comes to an operand once the operands before it gave values,
with the bindings that they left. Whatever fails at some moment of an evaluation fails the whole
evaluation in the same way, in every arithmetic: nothing on the way back catches a failure.

## Main definitions

* `Expr.evaluatedOperands`: the operands of an expression that are evaluated, in order.
* `Moment`: an expression under bindings, at a depth of calls.
* `Moment.Next`: the step from a moment to one that its evaluation needs.

## Main results

* `Expr.evaluate_eq_error`: what fails among the operands fails the expression.
* `Moment.Next.outcome_eq_error`: what fails after a step fails before it.
* `Moment.Reaches.outcome_eq_error`: what fails at a moment that is reached fails at the start.
-/

namespace Elementary

variable {ν : Type} {A : Arithmetic ν} {functions : List GeneratedFunction}

/-- The calls of some functions that go on **to a given depth**. -/
def Arithmetic.callsTo (A : Arithmetic ν) (functions : List GeneratedFunction) (depth : Nat) :
    Calls ν :=
  fun name => (GeneratedFunction.find? functions name).map
    (A.call (GeneratedFunction.find? functions) depth)

namespace Expr

variable {calls : Calls ν} {e a : Expr} {es before after : List Expr} {env env' : Bindings ν}
  {f : Failure} {vs : List (Value ν)}

/-- The statements **up to the first result**, which is among them. -/
def throughResult : List Expr → List Expr
  | [] => []
  | e :: es => if e.op = .result then [e] else e :: throughResult es

theorem mem_of_mem_throughResult (h : a ∈ throughResult es) : a ∈ es := by
  induction es with
  | nil => exact h
  | cons e es ih =>
    rw [throughResult] at h
    split at h
    · exact List.mem_singleton.mp h ▸ List.mem_cons_self
    · rcases List.mem_cons.mp h with rfl | h
      · exact List.mem_cons_self
      · exact List.mem_cons_of_mem e (ih h)

/-- The operands that are **evaluated, in order**. A variable has none, the target of an assignment
is only named, and the arguments of a function that is not there are not looked at. -/
def evaluatedOperands (calls : Calls ν) : Expr → List Expr
  | node .statement es => throughResult es
  | node .assignment [_, value] => [value]
  | node (.var _ _) _ => []
  | node (.functionCall name) es => if (calls name).isSome then es else []
  | node _ es => es

/-- **A failure among operands** is one of the whole row. -/
theorem evaluateAll_append_eq_error (hbefore : evaluateAll A calls before env = .ok (vs, env'))
    (ha : a.evaluate A calls env' = .error f) :
    evaluateAll A calls (before ++ a :: after) env = .error f := by
  induction before generalizing env vs with
  | nil =>
    cases hbefore
    rw [List.nil_append, evaluateAll, ha]
    rfl
  | cons b before ih =>
    obtain ⟨v, env₁, vs', rfl, hb, hvs⟩ := evaluateAll_cons_eq_ok hbefore
    rw [List.cons_append, evaluateAll, hb, ok_bind]
    dsimp only
    rw [ih hvs]
    rfl

/-- A failure among operands is that of the first operand, or **one after it**. -/
theorem evaluateAll_cons_eq_error (h : evaluateAll A calls (e :: es) env = .error f) :
    e.evaluate A calls env = .error f ∨
      ∃ v env', e.evaluate A calls env = .ok (v, env') ∧
        evaluateAll A calls es env' = .error f := by
  rcases bind_eq_error.mp h with he | ⟨⟨v, env'⟩, he, hrest⟩
  · exact Or.inl he
  · rcases bind_eq_error.mp hrest with hes | ⟨_, _, hlast⟩
    · exact Or.inr ⟨v, env', he, hes⟩
    · cases hlast

/-- A failure of the only operand is one of the operand. -/
theorem evaluateAll_singleton_eq_error (h : evaluateAll A calls [e] env = .error f) :
    e.evaluate A calls env = .error f := by
  rcases evaluateAll_cons_eq_error h with he | ⟨_, _, _, hnil⟩
  · exact he
  · cases hnil

/-- **A failure among statements** is one of the sequence. -/
theorem evaluateSequence_eq_error (h : evaluateAll A calls (throughResult es) env = .error f) :
    evaluateSequence A calls es env = .error f := by
  induction es generalizing env with
  | nil => cases h
  | cons e es ih =>
    rw [evaluateSequence]
    rw [throughResult] at h
    by_cases hresult : e.op = .result
    · rw [if_pos hresult] at h ⊢
      exact evaluateAll_singleton_eq_error h
    · rw [if_neg hresult] at h ⊢
      rcases evaluateAll_cons_eq_error h with he | ⟨v, env', he, hes⟩
      · exact bind_eq_error.mpr (Or.inl he)
      · exact bind_eq_error.mpr (Or.inr ⟨_, he, ih hes⟩)

/-- **A failure among the operands** that are evaluated is one of the expression. -/
theorem evaluate_eq_error (h : evaluateAll A calls (e.evaluatedOperands calls) env = .error f) :
    e.evaluate A calls env = .error f := by
  obtain ⟨op, es⟩ := e
  have hall : ∀ {α : Type} {g : List (Value ν) × Bindings ν → Except Failure α},
      evaluateAll A calls es env = .error f → evaluateAll A calls es env >>= g = .error f :=
    fun h => bind_eq_error.mpr (Or.inl h)
  cases op with
  | statement => exact evaluateSequence_eq_error h
  | var name format => cases h
  | functionCall name =>
    rw [evaluatedOperands] at h
    cases hname : calls name with
    | none =>
      rw [hname] at h
      cases h
    | some g =>
      rw [hname] at h
      rw [evaluate, hname]
      exact hall h
  | assignment =>
    rcases es with _ | ⟨target, _ | ⟨value, _ | _⟩⟩
    · exact hall h
    · exact hall h
    · exact bind_eq_error.mpr (Or.inl (evaluateAll_singleton_eq_error h))
    · exact hall h
  | result =>
    rcases es with _ | ⟨value, _ | _⟩
    · exact hall h
    · exact evaluateAll_singleton_eq_error h
    · exact hall h
  | tupleSelection index =>
    rcases es with _ | ⟨operand, _ | _⟩
    · exact hall h
    · exact bind_eq_error.mpr (Or.inl (evaluateAll_singleton_eq_error h))
    · exact hall h
  | fromBits format =>
    rcases es with _ | ⟨operand, _ | _⟩
    · exact hall h
    · exact bind_eq_error.mpr (Or.inl (evaluateAll_singleton_eq_error h))
    · exact hall h
  | comparison r =>
    rcases es with _ | ⟨left, _ | ⟨right, _ | _⟩⟩
    · exact hall h
    · exact hall h
    · rcases evaluateAll_cons_eq_error h with hl | ⟨a, env₁, hl, hrest⟩
      · exact bind_eq_error.mpr (Or.inl hl)
      · exact bind_eq_error.mpr (Or.inr ⟨_, hl,
          bind_eq_error.mpr (Or.inl (evaluateAll_singleton_eq_error hrest))⟩)
    · exact hall h
  | select =>
    rcases es with _ | ⟨condition, _ | ⟨ifTrue, _ | ⟨ifFalse, _ | _⟩⟩⟩
    · exact hall h
    · exact hall h
    · exact hall h
    · rcases evaluateAll_cons_eq_error h with hc | ⟨c, env₁, hc, hrest⟩
      · exact bind_eq_error.mpr (Or.inl hc)
      · refine bind_eq_error.mpr (Or.inr ⟨_, hc, ?_⟩)
        rcases evaluateAll_cons_eq_error hrest with ha | ⟨a, env₂, ha, hlast⟩
        · exact bind_eq_error.mpr (Or.inl ha)
        · exact bind_eq_error.mpr (Or.inr ⟨_, ha,
            bind_eq_error.mpr (Or.inl (evaluateAll_singleton_eq_error hlast))⟩)
    · exact hall h
  | _ => exact hall h

end Expr

/-! ### Moments -/

/-- A **moment** of an evaluation: an expression under bindings, where calls go on to a depth. -/
structure Moment (ν : Type) where
  depth : Nat
  expr : Expr
  env : Bindings ν

namespace Moment

variable {m m' m₀ : Moment ν} {f : Failure}

/-- What the evaluation of the expression of a moment gives. -/
def outcome (A : Arithmetic ν) (functions : List GeneratedFunction) (m : Moment ν) :
    Except Failure (Value ν × Bindings ν) :=
  m.expr.evaluate A (A.callsTo functions m.depth) m.env

/-- The moment at which the evaluation of an expression that may call some functions **begins**. -/
def start (functions : List GeneratedFunction) (e : Expr) (env : Bindings ν) : Moment ν :=
  ⟨functions.length + 200, e, env⟩

/-- **A step of an evaluation**: to an operand after those before it, or from a call to the body of
the function, one level deeper. -/
inductive Next (A : Arithmetic ν) (functions : List GeneratedFunction) :
    Moment ν → Moment ν → Prop
  | operand {depth : Nat} {e a : Expr} {before after : List Expr} {env env' : Bindings ν}
      {vs : List (Value ν)}
      (hes : e.evaluatedOperands (A.callsTo functions depth) = before ++ a :: after)
      (hbefore : Expr.evaluateAll A (A.callsTo functions depth) before env = .ok (vs, env')) :
      Next A functions ⟨depth, e, env⟩ ⟨depth, a, env'⟩
  | call {depth : Nat} {name : String} {es : List Expr} {env env' bound : Bindings ν}
      {g : GeneratedFunction} {vs : List (Value ν)}
      (hg : GeneratedFunction.find? functions name = some g)
      (hes : Expr.evaluateAll A (A.callsTo functions (depth + 1)) es env = .ok (vs, env'))
      (hbound : A.bindArguments g.arguments vs = .ok bound) :
      Next A functions ⟨depth + 1, .node (.functionCall name) es, env⟩ ⟨depth, g.body, bound⟩

/-- The moments that an evaluation **reaches**. -/
def Reaches (A : Arithmetic ν) (functions : List GeneratedFunction) : Moment ν → Moment ν → Prop :=
  Relation.ReflTransGen (Next A functions)

/-- The outcome at the beginning is that of the whole evaluation. -/
theorem evaluateWith_eq (e : Expr) (env : Bindings ν) :
    A.evaluateWith functions e env = ((start functions e env).outcome A functions).map Prod.fst :=
  rfl

/-- **What fails after a step fails before it**, in the same way. -/
theorem Next.outcome_eq_error (h : Next A functions m m')
    (hf : m'.outcome A functions = .error f) : m.outcome A functions = .error f := by
  cases h with
  | operand hes hbefore =>
    refine Expr.evaluate_eq_error ?_
    rw [hes]
    exact Expr.evaluateAll_append_eq_error hbefore hf
  | @call depth name es env env' bound g vs hg hes hbound =>
    have hname : A.callsTo functions (depth + 1) name =
        some (A.call (GeneratedFunction.find? functions) (depth + 1) g) := by
      rw [Arithmetic.callsTo, hg]
      rfl
    have hcall : A.call (GeneratedFunction.find? functions) (depth + 1) g vs = .error f :=
      bind_eq_error.mpr (Or.inr ⟨bound, hbound, bind_eq_error.mpr (Or.inl hf)⟩)
    rw [outcome, Expr.evaluate, hname]
    exact bind_eq_error.mpr (Or.inr ⟨_, hes, bind_eq_error.mpr (Or.inl hcall)⟩)

/-- **What fails at a moment that is reached** fails at the start, in the same way. -/
theorem Reaches.outcome_eq_error (h : Reaches A functions m₀ m)
    (hf : m.outcome A functions = .error f) : m₀.outcome A functions = .error f := by
  induction h with
  | refl => exact hf
  | tail _ hnext ih => exact ih (hnext.outcome_eq_error hf)

/-- Every moment that is reached gives a value when **the start does**. -/
theorem Reaches.exists_outcome_eq_ok {r : Value ν × Bindings ν} (h : Reaches A functions m₀ m)
    (hr : m₀.outcome A functions = .ok r) : ∃ q, m.outcome A functions = .ok q := by
  cases hm : m.outcome A functions with
  | ok q => exact ⟨q, rfl⟩
  | error f =>
    rw [h.outcome_eq_error hm] at hr
    cases hr

end Moment

end Elementary
