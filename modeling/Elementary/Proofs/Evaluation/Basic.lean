import Elementary.Evaluation.Basic
import Mathlib.Data.List.Forall2

/-!
# Outcomes of evaluations

Two evaluations have the same outcome when both give one value, or both fail in one way. Only the
wording may differ, and only where a failure shows what stands in the wrong place. What an operation
gives depends on its operands through their outcomes alone, and on the functions that are called
through theirs, but for three places at which the evaluation looks at an operand itself: the target
of an assignment, the coding of a bit conversion, and whether a statement is a result.

## Main results

* `SameOutcome.bind`: going on from the same outcome.
* `Expr.evaluate_congr`: an operation on operands with the same outcomes.
* `Arithmetic.call_congr`: functions with the same outcomes, called to any depth.
-/

namespace Elementary

/-- Failures of **one kind**: the same failure, but for the wording where a part is missing. -/
def Failure.SameKind (f g : Failure) : Prop :=
  f = g ∨ ∃ s t, f = .missingPart s ∧ g = .missingPart t

/-- **The same outcome**: one value, or failures of one kind. -/
def SameOutcome {α : Type} : Except Failure α → Except Failure α → Prop
  | .ok a, .ok b => a = b
  | .error f, .error g => f.SameKind g
  | _, _ => False

namespace SameOutcome

variable {α β : Type} {x y : Except Failure α} {f g : α → Except Failure β}

theorem refl (x : Except Failure α) : SameOutcome x x := by
  cases x with
  | ok a => exact rfl
  | error f => exact Or.inl rfl

theorem of_eq (h : x = y) : SameOutcome x y := h ▸ refl x

/-- **Going on** from the same outcome in the same way. -/
theorem bind (h : SameOutcome x y) (hfg : ∀ a, SameOutcome (f a) (g a)) :
    SameOutcome (x >>= f) (y >>= g) := by
  cases x with
  | ok a =>
    cases y with
    | ok b =>
      obtain rfl : a = b := h
      exact hfg a
    | error g => exact h.elim
  | error f =>
    cases y with
    | ok b => exact h.elim
    | error g => exact h

/-- The same outcome, of which the same part is taken. -/
theorem map (h : SameOutcome x y) (f : α → β) : SameOutcome (x.map f) (y.map f) :=
  h.bind (f := fun a => .ok (f a)) (g := fun a => .ok (f a)) fun a => refl (.ok (f a))

end SameOutcome

/-- Calls with **the same outcomes**, of the same functions. -/
def SameCalls {ν : Type} (calls' calls : Calls ν) : Prop :=
  ∀ name, Option.Rel (fun f' f => ∀ values, SameOutcome (f' values) (f values))
    (calls' name) (calls name)

/-- The operations that mean **the same in every arithmetic**. -/
def Op.isControl : Op → Bool
  | .statement | .assignment | .result | .var _ _ | .select | .comparison _ => true
  | .tuple | .tupleSelection _ | .functionCall _ | .fromBits _ => true
  | _ => false

namespace Expr

variable {ν : Type} {A : Arithmetic ν} {calls' calls : Calls ν} {op : Op} {e e' : Expr}
  {es es' : List Expr}

/-- Every other operation is left to the arithmetic, with the values of its operands. -/
theorem evaluate_numeric (h : op.isControl = false) (env : Bindings ν) :
    evaluate A calls (node op es) env =
      (do let (vs, env) ← evaluateAll A calls es env; .ok (← A.operation op vs, env)) := by
  cases op <;> first | rfl | cases h

/-- Expressions that **play one role** among the operands: of one operation, or neither of them a
result or a variable. -/
def SameRole (e' e : Expr) : Prop :=
  e'.op = e.op ∨
    (e'.op ≠ .result ∧ e.op ≠ .result ∧
      (∀ name f, e'.op ≠ .var name f) ∧ ∀ name f, e.op ≠ .var name f)

theorem SameRole.result_iff (h : SameRole e' e) : e'.op = .result ↔ e.op = .result := by
  rcases h with h | ⟨h', h, -, -⟩
  · rw [h]
  · exact iff_of_false h' h

/-- Expressions that can **stand for each other** as operands: they play one role and have the same
outcomes. -/
def Interchangeable (A : Arithmetic ν) (calls' calls : Calls ν) (e' e : Expr) : Prop :=
  SameRole e' e ∧ ∀ env, SameOutcome (e'.evaluate A calls' env) (e.evaluate A calls env)

/-- Operands with the same outcomes, evaluated one after the other. -/
theorem evaluateAll_congr (hes : List.Forall₂ (Interchangeable A calls' calls) es' es) :
    ∀ env, SameOutcome (evaluateAll A calls' es' env) (evaluateAll A calls es env) := by
  induction hes with
  | nil => exact fun env => .refl _
  | cons he _ ih =>
    intro env
    rw [evaluateAll, evaluateAll]
    exact (he.2 env).bind fun ⟨v, env⟩ => (ih env).bind fun ⟨vs, env⟩ => .refl _

/-- Statements with the same outcomes, run as a sequence. -/
theorem evaluateSequence_congr (hes : List.Forall₂ (Interchangeable A calls' calls) es' es) :
    ∀ env, SameOutcome (evaluateSequence A calls' es' env) (evaluateSequence A calls es env) := by
  induction hes with
  | nil => exact fun env => .refl _
  | @cons e' e _ _ he _ ih =>
    intro env
    rw [evaluateSequence, evaluateSequence]
    by_cases hresult : e.op = .result
    · rw [if_pos hresult, if_pos (he.1.result_iff.mpr hresult)]
      exact he.2 env
    · rw [if_neg hresult, if_neg (mt he.1.result_iff.mp hresult)]
      exact (he.2 env).bind fun ⟨v, env⟩ => ih env

/-- The end of an assignment to a target of the given operation. -/
def assignTo (target : Op) (v : Value ν) (env : Bindings ν) :
    Except Failure (Value ν × Bindings ν) :=
  match target with
  | .var name _ => .ok (.nothing, (name, v) :: env)
  | _ => .error (.missingPart (target.name ++ " cannot be assigned to"))

/-- What is no variable cannot be assigned to. -/
theorem assignTo_of_ne_var (h : ∀ name f, op ≠ .var name f) (v : Value ν) (env : Bindings ν) :
    assignTo op v env = .error (.missingPart (op.name ++ " cannot be assigned to")) := by
  cases op with
  | var name f => exact absurd rfl (h name f)
  | _ => rfl

/-- Targets in one role are the same variable, or none. -/
theorem assignTo_congr (h : SameRole e' e) (v : Value ν) (env : Bindings ν) :
    SameOutcome (assignTo e'.op v env) (assignTo e.op v env) := by
  rcases h with h | ⟨-, -, h', h⟩
  · rw [h]
    exact .refl _
  · rw [assignTo_of_ne_var h', assignTo_of_ne_var h]
    exact Or.inr ⟨_, _, rfl, rfl⟩

/-- The same coding is held by operands of one operation. -/
theorem coding_congr (h : e'.op = e.op) : e'.coding = e.coding := by
  simp only [coding, name]
  rw [h]

/-- **What an operation gives depends on the outcomes of its operands** and of the calls. -/
theorem evaluate_congr (hcalls : SameCalls calls' calls)
    (hes : List.Forall₂ (Interchangeable A calls' calls) es' es)
    (hbits : ∀ f, op = .fromBits f → List.Forall₂ (fun e' e => e'.op = e.op) es' es) :
    ∀ env, SameOutcome (evaluate A calls' (node op es') env)
      (evaluate A calls (node op es) env) := by
  intro env
  have hnumeric : SameOutcome
      (do let (vs, env) ← evaluateAll A calls' es' env; .ok (← A.operation op vs, env))
      (do let (vs, env) ← evaluateAll A calls es env; .ok (← A.operation op vs, env)) :=
    (evaluateAll_congr hes env).bind fun ⟨vs, env⟩ => .refl _
  cases op with
  | statement => exact evaluateSequence_congr hes env
  | var name f => exact .refl _
  | tuple => exact (evaluateAll_congr hes env).bind fun ⟨vs, env⟩ => .refl _
  | assignment =>
    rcases hes with _ | ⟨htarget, _ | ⟨hvalue, _ | _⟩⟩
    · exact hnumeric
    · exact hnumeric
    · exact (hvalue.2 env).bind fun ⟨v, env⟩ => assignTo_congr htarget.1 v env
    · exact hnumeric
  | result =>
    rcases hes with _ | ⟨hvalue, _ | _⟩
    · exact hnumeric
    · exact hvalue.2 env
    · exact hnumeric
  | select =>
    rcases hes with _ | ⟨hc, _ | ⟨ha, _ | ⟨hb, _ | _⟩⟩⟩
    · exact hnumeric
    · exact hnumeric
    · exact hnumeric
    · exact (hc.2 env).bind fun ⟨c, env⟩ => (ha.2 env).bind fun ⟨a, env⟩ =>
        (hb.2 env).bind fun ⟨b, env⟩ => .refl _
    · exact hnumeric
  | comparison r =>
    rcases hes with _ | ⟨ha, _ | ⟨hb, _ | _⟩⟩
    · exact hnumeric
    · exact hnumeric
    · exact (ha.2 env).bind fun ⟨a, env⟩ => (hb.2 env).bind fun ⟨b, env⟩ => .refl _
    · exact hnumeric
  | tupleSelection index =>
    rcases hes with _ | ⟨hv, _ | _⟩
    · exact hnumeric
    · exact (hv.2 env).bind fun ⟨v, env⟩ => .refl _
    · exact hnumeric
  | functionCall name =>
    have hf := hcalls name
    rw [evaluate, evaluate]
    rcases h' : calls' name with _ | f' <;> rcases h : calls name with _ | f <;>
      rw [h', h] at hf
    · exact .refl _
    · cases hf
    · cases hf
    · cases hf with
      | some hf =>
        exact (evaluateAll_congr hes env).bind fun ⟨vs, env⟩ => (hf vs).bind fun v => .refl _
  | fromBits f =>
    rcases hes with _ | ⟨hoperand, _ | _⟩
    · exact hnumeric
    · cases hbits f rfl with
      | cons hop _ =>
        refine (hoperand.2 env).bind fun ⟨_, env⟩ => ?_
        rw [coding_congr hop]
        exact .refl _
    · exact hnumeric
  | _ => exact hnumeric

end Expr

/-! ### Functions that call each other -/

/-- Functions that can **stand for each other**: of one name and with the same arguments, their
statements being interchangeable wherever the calls in them have the same outcomes. -/
structure GeneratedFunction.Interchangeable {ν : Type} (A : Arithmetic ν)
    (f' f : GeneratedFunction) : Prop where
  name_eq : f'.name = f.name
  arguments_eq : f'.arguments = f.arguments
  statements : ∀ calls' calls : Calls ν, SameCalls calls' calls →
    List.Forall₂ (Expr.Interchangeable A calls' calls) f'.statements f.statements

/-- The first elements that pass, in two lists of related elements of which the same ones pass. -/
theorem rel_find? {α' α : Type} {R : α' → α → Prop} {pass' : α' → Bool} {pass : α → Bool}
    {as' : List α'} {as : List α} (hpass : ∀ a' a, R a' a → pass' a' = pass a)
    (h : List.Forall₂ R as' as) : Option.Rel R (as'.find? pass') (as.find? pass) := by
  induction h with
  | nil => exact .none
  | @cons a' a _ _ ha _ ih =>
    rw [List.find?_cons, List.find?_cons, hpass a' a ha]
    cases pass a with
    | true => exact .some ha
    | false => exact ih

/-- The functions of a name, in two lists of interchangeable functions. -/
theorem GeneratedFunction.find?_congr {R : GeneratedFunction → GeneratedFunction → Prop}
    {fs' fs : List GeneratedFunction} (hR : ∀ f' f, R f' f → f'.name = f.name)
    (h : List.Forall₂ R fs' fs) (name : String) :
    Option.Rel R (find? fs' name) (find? fs name) :=
  rel_find? (fun f' f hf => by rw [hR f' f hf]) (List.forall₂_reverse_iff.mpr h)

namespace Arithmetic

variable {ν : Type} {A : Arithmetic ν} {find' find : String → Option GeneratedFunction}

/-- What two functions do with related contents, if there are any. -/
theorem rel_map {α' α β' β : Type} {R : α' → α → Prop} {S : β' → β → Prop} {x' : Option α'}
    {x : Option α} {g' : α' → β'} {g : α → β} (h : Option.Rel R x' x)
    (hg : ∀ a' a, R a' a → S (g' a') (g a)) : Option.Rel S (x'.map g') (x.map g) := by
  cases h with
  | some h => exact .some (hg _ _ h)
  | none => exact .none

/-- **Functions that can stand for each other** give the same outcomes, to any depth of calls. -/
theorem call_congr
    (hfind : ∀ name, Option.Rel (GeneratedFunction.Interchangeable A) (find' name) (find name)) :
    ∀ (depth : Nat) (f' f : GeneratedFunction), f'.Interchangeable A f →
      ∀ values, SameOutcome (A.call find' depth f' values) (A.call find depth f values)
  | 0, f', f, hf, values => by
    rw [call, call, hf.name_eq]
    exact .refl _
  | depth + 1, f', f, hf, values => by
    have hcalls : SameCalls (fun name => (find' name).map (A.call find' depth))
        (fun name => (find name).map (A.call find depth)) := by
      intro name
      exact rel_map (hfind name) (call_congr hfind depth)
    rw [call, call, hf.arguments_eq]
    refine SameOutcome.bind (.refl _) fun env => ?_
    exact (Expr.evaluateSequence_congr (hf.statements _ _ hcalls) env).bind
      fun ⟨v, _⟩ => .refl _

/-- Lists of functions that can stand for each other, one by one, give calls with the same
outcomes. -/
theorem callsOf_congr {fs' fs : List GeneratedFunction}
    (h : List.Forall₂ (GeneratedFunction.Interchangeable A) fs' fs) :
    SameCalls (A.callsOf fs') (A.callsOf fs) := by
  have hfind := GeneratedFunction.find?_congr (fun f' f hf => hf.name_eq) h
  intro name
  rw [callsOf, h.length_eq]
  exact rel_map (hfind name) (call_congr hfind _)

end Arithmetic

end Elementary
