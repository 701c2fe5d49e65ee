import Elementary.Proofs.Evaluation.Steps
import Elementary.Proofs.Expr.Quantize

/-!
# Evaluation with other constants

The quantization of an expression writes its constants anew and leaves everything else as it is. So
what an operation of the quantized expression gives follows, in every arithmetic, from what its
quantized operands give.

## Main definitions

* `ChangesConstants`: ways to write expressions anew that change constants only.

## Main results

* `gives_coded_constant`: quantized constants.
* `ChangesConstants.gives_unary`, `gives_binary` and the like: the operations.
* `ChangesConstants.assigns_cons`, `evaluateSequence_concat`: assignments, and a result after them.
-/

namespace Elementary

open Expr (Gives Assigns)

section Literals

variable {ν : Type} {A : Arithmetic ν} {calls : Calls ν} {env : Bindings ν} {nt : NumberType}
  {n : Number} {c : Nat} {u v : Value ν}

/-- **A coding** gives what it stands for, in one lane or in all lanes. -/
theorem gives_literal (hbits : A.operation (.bitPattern c) [] = .ok u)
    (hdecode : A.decode c nt.formatAttribute = .ok v)
    (hsplat : A.operation (.splat nt.formatAttribute) [v] = .ok v) :
    (nt.literal c).Gives A calls env v := by
  have hscalar : Gives A calls env
      (.node (.fromBits nt.formatAttribute) [.node (.bitPattern c) []]) v := by
    have hpattern : Gives A calls env (.node (.bitPattern c) []) u := .operation rfl .nil hbits
    rw [Gives, Expr.evaluate, hpattern, ok_bind]
    show (do let x ← A.decode c nt.formatAttribute; .ok (x, env)) = _
    rw [hdecode, ok_bind]
  rw [NumberType.literal]
  split
  · exact .unary rfl hscalar hsplat
  · exact hscalar

/-- **A quantized constant** gives what its coding stands for. -/
theorem gives_coded_constant (hc : nt.codingOutcome n = .ok c)
    (hbits : A.operation (.bitPattern c) [] = .ok u)
    (hdecode : A.decode c nt.formatAttribute = .ok v)
    (hsplat : A.operation (.splat nt.formatAttribute) [v] = .ok v) :
    ((Expr.constant n).coded nt).Gives A calls env v := by
  rw [Expr.constant, Expr.coded_of_number?_eq_some rfl (NumberType.coding?_of_codingOutcome hc)]
  exact gives_literal hbits hdecode hsplat

end Literals

/-- A way to write expressions anew that **changes constants only**. -/
def ChangesConstants (τ : Expr → Expr) : Prop :=
  ∀ op es, op.number? = none → τ (.node op es) = .node op (es.map τ)

theorem changesConstants_id : ChangesConstants id := fun op es _ => by rw [List.map_id]; rfl

theorem changesConstants_coded (nt : NumberType) : ChangesConstants (Expr.coded nt) :=
  fun _ _ => Expr.coded_of_number?_eq_none

/-- An expression is quantized, or it is left as it is. -/
theorem changesConstants_of_quantized {τ : Expr → Expr} {nt : NumberType}
    (hτ : τ = id ∨ τ = Expr.coded nt) : ChangesConstants τ := by
  rcases hτ with rfl | rfl
  · exact changesConstants_id
  · exact changesConstants_coded nt

namespace ChangesConstants

variable {ν : Type} {A : Arithmetic ν} {calls : Calls ν} {env env' : Bindings ν}
  {τ : Expr → Expr} {op : Op} {a b c e : Expr} {es : List Expr} {u v w : Value ν} {name : String}
  {format : Option ResultFormat}

theorem gives_var (hτ : ChangesConstants τ) (h : env.lookup name = some v) :
    (τ (.node (.var name format) [])).Gives A calls env v := by
  rw [hτ _ _ rfl]
  exact .var h

theorem gives_unary (hτ : ChangesConstants τ) (hop : op.isControl = false)
    (hnumber : op.number? = none) (ha : (τ a).Gives A calls env u)
    (hv : A.operation op [u] = .ok v) : (τ (.node op [a])).Gives A calls env v := by
  rw [hτ _ _ hnumber]
  exact .unary hop ha hv

theorem gives_binary (hτ : ChangesConstants τ) (hop : op.isControl = false)
    (hnumber : op.number? = none) (ha : (τ a).Gives A calls env u) (hb : (τ b).Gives A calls env w)
    (hv : A.operation op [u, w] = .ok v) : (τ (.node op [a, b])).Gives A calls env v := by
  rw [hτ _ _ hnumber]
  exact .binary hop ha hb hv

theorem gives_neg (hτ : ChangesConstants τ) (ha : (τ a).Gives A calls env u)
    (hv : A.operation .negation [u] = .ok v) : (τ (-a)).Gives A calls env v :=
  hτ.gives_unary rfl rfl ha hv

theorem gives_nearestInteger (hτ : ChangesConstants τ) (ha : (τ a).Gives A calls env u)
    (hv : A.operation .nearestInteger [u] = .ok v) :
    (τ (Expr.nearestInteger a)).Gives A calls env v :=
  hτ.gives_unary rfl rfl ha hv

theorem gives_absolute (hτ : ChangesConstants τ) (ha : (τ a).Gives A calls env u)
    (hv : A.operation .absolute [u] = .ok v) : (τ (Expr.absolute a)).Gives A calls env v :=
  hτ.gives_unary rfl rfl ha hv

theorem gives_isOdd (hτ : ChangesConstants τ) (ha : (τ a).Gives A calls env u)
    (hv : A.operation .isOdd [u] = .ok v) : (τ (Expr.isOdd a)).Gives A calls env v :=
  hτ.gives_unary rfl rfl ha hv

theorem gives_add (hτ : ChangesConstants τ) (ha : (τ a).Gives A calls env u)
    (hb : (τ b).Gives A calls env w) (hv : A.operation .addition [u, w] = .ok v) :
    (τ (a + b)).Gives A calls env v :=
  hτ.gives_binary rfl rfl ha hb hv

theorem gives_sub (hτ : ChangesConstants τ) (ha : (τ a).Gives A calls env u)
    (hb : (τ b).Gives A calls env w) (hv : A.operation .subtraction [u, w] = .ok v) :
    (τ (a - b)).Gives A calls env v :=
  hτ.gives_binary rfl rfl ha hb hv

theorem gives_mul (hτ : ChangesConstants τ) (ha : (τ a).Gives A calls env u)
    (hb : (τ b).Gives A calls env w) (hv : A.operation .multiplication [u, w] = .ok v) :
    (τ (a * b)).Gives A calls env v :=
  hτ.gives_binary rfl rfl ha hb hv

theorem gives_compare (hτ : ChangesConstants τ) {r : Relation} {holds : Bool}
    (ha : (τ a).Gives A calls env u) (hb : (τ b).Gives A calls env w)
    (h : A.compare r u w = .ok holds) :
    (τ (Expr.compare r a b)).Gives A calls env (.truth holds) := by
  rw [Expr.compare, hτ _ _ rfl]
  exact .comparison ha hb h

theorem gives_select (hτ : ChangesConstants τ) {holds : Bool}
    (hc : (τ c).Gives A calls env (.truth holds)) (ha : (τ a).Gives A calls env u)
    (hb : (τ b).Gives A calls env w) :
    (τ (Expr.select c a b)).Gives A calls env (if holds then u else w) := by
  rw [Expr.select, hτ _ _ rfl]
  exact .select hc ha hb

/-- A call with two arguments. -/
theorem gives_call (hτ : ChangesConstants τ) {run : List (Value ν) → Except Failure (Value ν)}
    (hrun : calls name = some run) (ha : (τ a).Gives A calls env u)
    (hb : (τ b).Gives A calls env w) (hv : run [u, w] = .ok v) :
    (τ (Expr.call name [a, b])).Gives A calls env v := by
  rw [Expr.call, hτ _ _ rfl]
  exact .call hrun (.cons ha (.cons hb .nil)) hv

/-- **An assignment** before others. -/
theorem assigns_cons (hτ : ChangesConstants τ) (he : (τ e).Gives A calls env v)
    (hrest : Assigns A calls (es.map τ) ((name, v) :: env) env') :
    Assigns A calls ((Expr.assign (.node (.var name format) []) e :: es).map τ) env env' := by
  rw [List.map_cons, Expr.assign, hτ _ _ rfl, List.map_cons, List.map_cons, hτ _ _ rfl]
  exact .cons he hrest

/-- **A result** ends a sequence. -/
theorem evaluateSequence_result (hτ : ChangesConstants τ) (he : (τ e).Gives A calls env v)
    (rest : List Expr) :
    Expr.evaluateSequence A calls (τ (Expr.result e) :: rest) env = .ok (v, env) := by
  rw [Expr.result, hτ _ _ rfl]
  exact (Expr.evaluateSequence_result rest).trans he

/-- **Assignments and a result** after them. -/
theorem evaluateSequence_concat (hτ : ChangesConstants τ)
    (hassigns : Assigns A calls (es.map τ) env env') (he : (τ e).Gives A calls env' v) :
    Expr.evaluateSequence A calls ((es ++ [Expr.result e]).map τ) env = .ok (v, env') := by
  rw [List.map_append, hassigns.evaluateSequence_append]
  exact hτ.evaluateSequence_result he []

/-- A body that consists of assignments and a result. -/
theorem evaluateSequence_body (hτ : ChangesConstants τ) {body : List Expr}
    (hassigns : Assigns A calls (body.dropLast.map τ) env env')
    (hbody : body = body.dropLast ++ [Expr.result e]) (he : (τ e).Gives A calls env' v) :
    Expr.evaluateSequence A calls (body.map τ) env = .ok (v, env') := by
  rw [hbody]
  exact hτ.evaluateSequence_concat hassigns he

end ChangesConstants

end Elementary
