import Elementary.Evaluation.Emulation
import Elementary.Evaluation.Reference
import Elementary.Proofs.Evaluation.Reach

/-!
# What evaluations reject

An evaluation cannot go on at a variable that is bound to nothing, at a call of a function that is
not there, at a mathematical function that is not known, and at an operation that no arithmetic
knows. Wherever it comes to one of these it fails, and the failure carries the name of what is
missing. The reference arithmetic fails with a failure of the evaluation itself each time. The
emulation of a precision looks a mathematical function up without asking whether it is there, so
that its failure is that of the table.

## Main definitions

* `Obstacle`: what an evaluation cannot go on with.
* `Moment.IsStuck`: the moments at which an evaluation comes to an obstacle of some name.
* `Reference.rejection`, `Emulation.rejection`: the failures of the two arithmetics.

## Main results

* `Moment.IsStuck.outcome_eq`: what an evaluation gives at an obstacle.
* `Obstacle.rejected`: what a whole evaluation gives that reaches an obstacle.
* `Emulation.rejection_erf`: a failure that is not one of the evaluation itself.
-/

namespace Elementary

/-- Whether a failure is one **of the evaluation itself**, and not of something that it uses. -/
def Failure.isEvaluation : Failure → Bool
  | unboundVariable _ | unknownFunction _ | unknownMathFunction _ | notEvaluable _ _ => true
  | candidateNotFinite _ _ => true
  | _ => false

/-- What an evaluation **cannot go on with**. -/
inductive Obstacle where
  | variable
  | call
  | mathFunction
  | operation
  deriving DecidableEq, Repr

/-- The failure at an obstacle of some name, in an arithmetic that is called `evaluation` and that
says by `unknown` what is no mathematical function. -/
def Obstacle.failure (evaluation : String) (unknown : String → Failure) :
    Obstacle → String → Failure
  | «variable», name => .unboundVariable name
  | call, name => .unknownFunction name
  | mathFunction, name => unknown name
  | operation, name => .notEvaluable evaluation name

variable {ν : Type} {A : Arithmetic ν} {functions : List GeneratedFunction} {o : Obstacle}
  {name evaluation : String} {unknown : String → Failure}

namespace Moment

/-- The moments at which an evaluation **comes to an obstacle** of some name. The operands of an
operation are evaluated before it is found to be unknown, those of a call after it is found. -/
inductive IsStuck (A : Arithmetic ν) (functions : List GeneratedFunction) :
    Moment ν → Obstacle → String → Prop
  | variable {depth : Nat} {name : String} {format : Option ResultFormat} {es : List Expr}
      {env : Bindings ν} (h : env.lookup name = none) :
      IsStuck A functions ⟨depth, .node (.var name format) es, env⟩ .variable name
  | call {depth : Nat} {name : String} {es : List Expr} {env : Bindings ν}
      (h : GeneratedFunction.find? functions name = none) :
      IsStuck A functions ⟨depth, .node (.functionCall name) es, env⟩ .call name
  | mathFunction {depth : Nat} {name : String} {es : List Expr} {env : Bindings ν}
      {r : List (Value ν) × Bindings ν}
      (hes : Expr.evaluateAll A (A.callsTo functions depth) es env = .ok r)
      (h : MathFunction.ofName? name = none) :
      IsStuck A functions ⟨depth, .node (.mathFunction name) es, env⟩ .mathFunction name
  | operation {depth : Nat} {name : String} {es : List Expr} {env : Bindings ν}
      {r : List (Value ν) × Bindings ν}
      (hes : Expr.evaluateAll A (A.callsTo functions depth) es env = .ok r) :
      IsStuck A functions ⟨depth, .node (.custom name) es, env⟩ .operation name

end Moment

/-- Arithmetics that **reject what they do not know**, whatever the operands are. -/
structure Arithmetic.Rejects (A : Arithmetic ν) (evaluation : String) (unknown : String → Failure) :
    Prop where
  mathFunction : ∀ name vs, MathFunction.ofName? name = none →
    A.operation (.mathFunction name) vs = .error (unknown name)
  operation : ∀ name vs, A.operation (.custom name) vs = .error (.notEvaluable evaluation name)

/-- **At an obstacle** the evaluation fails with the failure of the obstacle. -/
theorem Moment.IsStuck.outcome_eq {m : Moment ν} (h : m.IsStuck A functions o name)
    (hA : A.Rejects evaluation unknown) :
    m.outcome A functions = .error (o.failure evaluation unknown name) := by
  cases h with
  | «variable» h =>
    rw [outcome, Expr.evaluate, h]
    rfl
  | call h =>
    rw [outcome, Expr.evaluate, Arithmetic.callsTo, h]
    rfl
  | @mathFunction _ _ _ _ r hes h =>
    exact bind_eq_error.mpr (Or.inr ⟨r, hes, bind_eq_error.mpr (Or.inl (hA.mathFunction _ _ h))⟩)
  | @operation _ _ _ _ r hes =>
    exact bind_eq_error.mpr (Or.inr ⟨r, hes, bind_eq_error.mpr (Or.inl (hA.operation _ _))⟩)

/-- **An evaluation that reaches an obstacle** fails with the failure of the obstacle. -/
theorem Moment.Reaches.evaluateWith_eq_error {e : Expr} {env : Bindings ν} {m : Moment ν}
    (hm : Reaches A functions (start functions e env) m) (h : m.IsStuck A functions o name)
    (hA : A.Rejects evaluation unknown) :
    A.evaluateWith functions e env = .error (o.failure evaluation unknown name) := by
  rw [evaluateWith_eq, hm.outcome_eq_error (h.outcome_eq hA)]
  rfl

/-! ### The two arithmetics -/

/-- The failure of the reference arithmetic at an obstacle. -/
def Reference.rejection : Obstacle → String → Failure :=
  Obstacle.failure "MPEvaluator" .unknownMathFunction

/-- The failure of an emulation at an obstacle. -/
def Emulation.rejection : Obstacle → String → Failure :=
  Obstacle.failure "FormatEvaluator" .unknownKey

theorem Reference.rejects (ctx : Context) :
    (arithmeticIn ctx).Rejects "MPEvaluator" .unknownMathFunction where
  mathFunction name vs h := by
    show operation ctx (.mathFunction name) vs = _
    rw [operation, h]
    rfl
  operation name vs := rfl

theorem Emulation.rejects (p : Precision) :
    (arithmetic p).Rejects "FormatEvaluator" .unknownKey where
  mathFunction name vs h := by
    show operation p (.mathFunction name) vs = _
    rw [operation, h]
    rfl
  operation name vs := rfl

/-- **Both evaluations reject what they cannot go on with**, wherever they come to it: among the
operands to any depth, in assignments and results, and in the functions that are called. The failure
carries the name. It is one of the evaluation itself in the reference arithmetic; in the emulation
it is so but for a mathematical function that is not known. -/
theorem Obstacle.rejected (ctx : Reference.Context) (p : Precision)
    (functions : List GeneratedFunction) (e : Expr) (o : Obstacle) (name : String) :
    ((∀ env m, Moment.Reaches (Reference.arithmeticIn ctx) functions (.start functions e env) m →
        m.IsStuck (Reference.arithmeticIn ctx) functions o name →
        (Reference.arithmeticIn ctx).evaluateWith functions e env =
          .error (Reference.rejection o name)) ∧
      (Reference.rejection o name).message = name ∧
      (Reference.rejection o name).isEvaluation = true) ∧
    ((∀ env m, Moment.Reaches (Emulation.arithmetic p) functions (.start functions e env) m →
        m.IsStuck (Emulation.arithmetic p) functions o name →
        (Emulation.arithmetic p).evaluateWith functions e env =
          .error (Emulation.rejection o name)) ∧
      (Emulation.rejection o name).message = name ∧
      ((Emulation.rejection o name).isEvaluation = true ↔ o ≠ .mathFunction)) := by
  refine ⟨⟨fun env m hm h => hm.evaluateWith_eq_error h (Reference.rejects ctx), ?_, ?_⟩,
    fun env m hm h => hm.evaluateWith_eq_error h (Emulation.rejects p), ?_, ?_⟩
  · cases o <;> rfl
  · cases o <;> rfl
  · cases o <;> rfl
  · cases o <;> simp [Emulation.rejection, failure, Failure.isEvaluation]

/-- A function without arguments that gives the opposite of a variable it never binds. -/
def forgetful : GeneratedFunction where
  name := "f"
  numberType := ⟨.double, false⟩
  arguments := []
  statements := [.node .assignment [.var "y", .node .tuple []],
    .node .result [.node .negation [.var "z"]]]
  outputs := 1
  fits := []

/-- Behind the first operand of a sum, in the body of a function that is called there, behind an
assignment, the variable is reached, in every arithmetic. -/
theorem Moment.reaches_forgetful (A : Arithmetic ν) (v : Value ν) :
    Reaches A [forgetful]
      (start [forgetful] (.node .addition [.var "x", .node (.functionCall "f") []]) [("x", v)])
      ⟨200, .var "z", [("y", .tuple [])]⟩ := by
  have hbody : Expr.evaluatedOperands (A.callsTo [forgetful] 200) forgetful.body =
      [.node .assignment [.var "y", .node .tuple []]] ++
        .node .result [.node .negation [.var "z"]] :: [] := rfl
  have hresult : Expr.evaluatedOperands (A.callsTo [forgetful] 200)
      (.node .result [.node .negation [.var "z"]]) = [] ++ .node .negation [.var "z"] :: [] := rfl
  have hnegation : Expr.evaluatedOperands (A.callsTo [forgetful] 200)
      (.node .negation [.var "z"]) = [] ++ .var "z" :: [] := rfl
  refine .head (.operand (show _ = [.var "x"] ++ _ :: [] from rfl) rfl) ?_
  refine .head (.call rfl rfl rfl) ?_
  refine .head (.operand hbody rfl) ?_
  exact .head (.operand hresult rfl) (.single (.operand hnegation rfl))

/-- Both evaluations fail at the variable, and say its name. -/
theorem Obstacle.rejected_forgetful :
    (Reference.arithmeticIn ⟨120, 36⟩).evaluateWith [forgetful]
        (.node .addition [.var "x", .node (.functionCall "f") []])
        [("x", .number (.integer 1))] = .error (.unboundVariable "z") ∧
      (Emulation.arithmetic .double).evaluateWith [forgetful]
        (.node .addition [.var "x", .node (.functionCall "f") []])
        [("x", .number (.binary .double (.finite false 1)))] = .error (.unboundVariable "z") := by
  obtain ⟨⟨hreference, -, -⟩, hemulation, -, -⟩ := rejected ⟨120, 36⟩ .double [forgetful]
    (.node .addition [.var "x", .node (.functionCall "f") []]) .variable "z"
  exact ⟨hreference _ _ (Moment.reaches_forgetful _ _) (.variable rfl),
    hemulation _ _ (Moment.reaches_forgetful _ _) (.variable rfl)⟩

/-- **The emulation fails with a failure that is not one of the evaluation** at the error function,
which is no function that is known; the reference arithmetic fails with one. -/
theorem Emulation.rejection_erf :
    MathFunction.ofName? "erf" = none ∧
      (arithmetic .double).evaluateWith [] (.node (.mathFunction "erf") [.var "x"])
        [("x", .number (.binary .double (.finite false 1)))] = .error (.unknownKey "erf") ∧
      (Failure.unknownKey "erf").isEvaluation = false ∧
      (Reference.arithmeticIn ⟨120, 36⟩).evaluateWith [] (.node (.mathFunction "erf") [.var "x"])
        [("x", .number (.integer 1))] = .error (.unknownMathFunction "erf") ∧
      (Failure.unknownMathFunction "erf").isEvaluation = true :=
  ⟨by decide, rfl, rfl, rfl, rfl⟩

end Elementary
