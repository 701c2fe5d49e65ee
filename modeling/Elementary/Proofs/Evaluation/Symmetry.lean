import Elementary.Proofs.Evaluation.Opposite
import Elementary.Proofs.Evaluation.Quantize

/-!
# Symmetry under a change of sign

Which symmetry the value of an expression has when the argument of a body is negated can be told
from the expression, when it is known for the variables. What is called may be any function, as it
gives the same values to the same arguments. The evaluation of such an expression changes no
variable, and a quantized function runs like the body as it is written.

## Main definitions

* `Expr.HasSymmetry`, `Expr.BodyHasSymmetry`: the symmetries of expressions and of bodies.
* `Expr.Paired`: two evaluations of an expression with related values.

## Main results

* `Expr.HasSymmetry.evaluate`: two evaluations of an expression with a symmetry.
* `Expr.BodyHasSymmetry.call_quantized`: two calls of a quantized function.
-/

namespace Elementary

/-! ### Symmetries of expressions -/

/-- The symmetries of variables, the latest first. -/
abbrev Symmetries := List (String × Symmetry)

/-- Bindings of variables in two runs to **mirrored values**. -/
def Symmetries.Bound (p : Precision) (symmetries : Symmetries) (env env' : Bindings Scalar) :
    Prop :=
  ∀ name c, symmetries.lookup name = some c → ∀ v w, env.lookup name = some v →
    env'.lookup name = some w → Value.Mirrored p c v w

/-- A variable is bound to mirrored values. -/
theorem Symmetries.Bound.cons {p : Precision} {symmetries : Symmetries}
    {env env' : Bindings Scalar} {c : Symmetry} {v w : Value Scalar}
    (h : symmetries.Bound p env env') (hvw : Value.Mirrored p c v w) (name : String) :
    Bound p ((name, c) :: symmetries) ((name, v) :: env) ((name, w) :: env') := by
  intro other d hd v' w' hv' hw'
  rw [List.lookup_cons] at hd hv' hw'
  cases hname : other == name with
  | true =>
    rw [hname] at hd hv' hw'
    cases hd
    cases hv'
    cases hw'
    exact hvw
  | false =>
    rw [hname] at hd hv' hw'
    exact h other d hd v' w' hv' hw'

namespace Expr

variable {p : Precision} {symmetries : Symmetries} {e a b : Expr} {es : List Expr} {c : Symmetry}

/-- The **expressions of a symmetry**. Whatever is computed from the same values is the same. An
opposite value stays opposite when an opposite one is taken off, or when it is multiplied by one
that is the same; its square and its magnitude are the same. An even value takes the sign of one
that is not zero, and two calls change places when the argument of one is the negation of that of
the other. -/
inductive HasSymmetry (symmetries : Symmetries) : Expr → Symmetry → Prop
  | variable {name : String} {format : Option ResultFormat} {c : Symmetry}
      (h : symmetries.lookup name = some c) : HasSymmetry symmetries (node (.var name format) []) c
  | constant (n : Number) : HasSymmetry symmetries (node (.constant n) []) .even
  | same {e : Expr} (h : HasSymmetry symmetries e .even) : HasSymmetry symmetries e .same
  | opposite {e : Expr} (h : HasSymmetry symmetries e .odd) : HasSymmetry symmetries e .opposite
  | odd {e : Expr} (h : HasSymmetry symmetries e .signed) : HasSymmetry symmetries e .odd
  | operation {op : Op} {es : List Expr} (hop : op.isControl = false)
      (harity : op.checkArity es.length = .ok ()) (h : ∀ e ∈ es, HasSymmetry symmetries e .same) :
      HasSymmetry symmetries (node op es) .same
  | comparison {r : Relation} {a b : Expr} (ha : HasSymmetry symmetries a .same)
      (hb : HasSymmetry symmetries b .same) :
      HasSymmetry symmetries (node (.comparison r) [a, b]) .same
  | select {t a b : Expr} {c : Symmetry} (ht : HasSymmetry symmetries t .same)
      (ha : HasSymmetry symmetries a c) (hb : HasSymmetry symmetries b c) :
      HasSymmetry symmetries (node .select [t, a, b]) c
  | call {name : String} {es : List Expr} (h : ∀ e ∈ es, HasSymmetry symmetries e .same) :
      HasSymmetry symmetries (node (.functionCall name) es) .same
  | left {op : Op} {a b : Expr} (hop : Emulation.IsBinary op)
      (ha : HasSymmetry symmetries a .even) (hb : HasSymmetry symmetries b .same) :
      HasSymmetry symmetries (node op [a, b]) .even
  | right {op : Op} {a b : Expr} (hop : Emulation.IsBinary op)
      (ha : HasSymmetry symmetries a .same) (hb : HasSymmetry symmetries b .even) :
      HasSymmetry symmetries (node op [a, b]) .even
  | mulAdd {a b c : Expr} (ha : HasSymmetry symmetries a .same)
      (hb : HasSymmetry symmetries b .same) (hc : HasSymmetry symmetries c .even) :
      HasSymmetry symmetries (node .fusedMultiplyAdd [a, b, c]) .even
  | exponentInsertion {e : Expr} (h : HasSymmetry symmetries e .same) :
      HasSymmetry symmetries (node .exponentInsertion [e]) .even
  | absolute {e : Expr} (h : HasSymmetry symmetries e .odd) :
      HasSymmetry symmetries (node .absolute [e]) .even
  | exponentExtraction {e : Expr} (h : HasSymmetry symmetries e .odd) :
      HasSymmetry symmetries (node .exponentExtraction [e]) .even
  | mantissaExtraction {e : Expr} (h : HasSymmetry symmetries e .signed) :
      HasSymmetry symmetries (node .mantissaExtraction [e]) .signed
  | nearestInteger {e : Expr} (h : HasSymmetry symmetries e .odd) :
      HasSymmetry symmetries (node .nearestInteger [e]) .odd
  | difference {a b : Expr} (ha : HasSymmetry symmetries a .odd)
      (hb : HasSymmetry symmetries b .odd) :
      HasSymmetry symmetries (node .subtraction [a, b]) .odd
  | product {a b : Expr} (ha : HasSymmetry symmetries a .opposite)
      (hb : HasSymmetry symmetries b .even) :
      HasSymmetry symmetries (node .multiplication [a, b]) .odd
  | square {e : Expr} (h : HasSymmetry symmetries e .odd) :
      HasSymmetry symmetries (node .multiplication [e, e]) .even
  | withSign {x r : Expr} (hx : HasSymmetry symmetries x .signed)
      (hr : HasSymmetry symmetries r .even) :
      HasSymmetry symmetries (node .select [node (.comparison .less) [x, 0], -r, r]) .odd
  | callSum {name : String} {x : Expr} (h : HasSymmetry symmetries x .signed) :
      HasSymmetry symmetries (node .addition [node (.functionCall name) [x],
        node (.functionCall name) [-x]]) .same
  | callDifference {name : String} {x : Expr} (h : HasSymmetry symmetries x .signed) :
      HasSymmetry symmetries (node .subtraction [node (.functionCall name) [x],
        node (.functionCall name) [-x]]) .opposite

/-! ### Paired evaluations -/

variable {A : Arithmetic Scalar} {calls : Calls Scalar} {env env' env₁ : Bindings Scalar} {op : Op}
  {v : Value Scalar} {R S T : Value Scalar → Value Scalar → Prop} {t x r : Expr}

/-- Two evaluations of an expression are **paired by a relation**: when both give a value the
relation holds between the values, and neither has changed a variable. -/
def Paired (A : Arithmetic Scalar) (calls : Calls Scalar) (env env' : Bindings Scalar)
    (R : Value Scalar → Value Scalar → Prop) (e : Expr) : Prop :=
  ∀ v env₁ w env₂, evaluate A calls e env = .ok (v, env₁) →
    evaluate A calls e env' = .ok (w, env₂) → env₁ = env ∧ env₂ = env' ∧ R v w

namespace Paired

theorem mono (h : Paired A calls env env' R e) (hRS : ∀ v w, R v w → S v w) :
    Paired A calls env env' S e := by
  intro v env₁ w env₂ hv hw
  obtain ⟨h₁, h₂, hR⟩ := h v env₁ w env₂ hv hw
  exact ⟨h₁, h₂, hRS v w hR⟩

/-- Operands with **the same values** in both runs. -/
theorem evaluateAll (h : ∀ e ∈ es, Paired A calls env env' Eq e) :
    ∀ vs env₁ ws env₂, Expr.evaluateAll A calls es env = .ok (vs, env₁) →
      Expr.evaluateAll A calls es env' = .ok (ws, env₂) → env₁ = env ∧ env₂ = env' ∧ vs = ws := by
  induction es with
  | nil =>
    intro vs env₁ ws env₂ hvs hws
    cases hvs
    cases hws
    exact ⟨rfl, rfl, rfl⟩
  | cons e es ih =>
    intro vs env₁ ws env₂ hvs hws
    obtain ⟨v, env₃, vs', rfl, hv, hvs'⟩ := evaluateAll_cons_eq_ok hvs
    obtain ⟨w, env₄, ws', rfl, hw, hws'⟩ := evaluateAll_cons_eq_ok hws
    obtain ⟨rfl, rfl, rfl⟩ := h e List.mem_cons_self v env₃ w env₄ hv hw
    obtain ⟨rfl, rfl, rfl⟩ :=
      ih (fun a ha => h a (List.mem_cons_of_mem e ha)) vs' env₁ ws' env₂ hvs' hws'
    exact ⟨rfl, rfl, rfl⟩

/-- An operation on **the same values** gives the same. -/
theorem operation (hop : op.isControl = false) (h : ∀ e ∈ es, Paired A calls env env' Eq e) :
    Paired A calls env env' (fun v w => v = w ∧ ∃ vs, A.operation op vs = .ok v) (node op es) := by
  intro v env₁ w env₂ heval heval'
  obtain ⟨vs, hvs, hv⟩ := evaluate_operation_eq_ok hop heval
  obtain ⟨ws, hws, hw⟩ := evaluate_operation_eq_ok hop heval'
  obtain ⟨rfl, rfl, rfl⟩ := evaluateAll h vs env₁ ws env₂ hvs hws
  rw [hv] at hw
  cases hw
  exact ⟨rfl, rfl, rfl, vs, hv⟩

theorem call {name : String} (h : ∀ e ∈ es, Paired A calls env env' Eq e) :
    Paired A calls env env' Eq (node (.functionCall name) es) := by
  intro v env₁ w env₂ heval heval'
  obtain ⟨f, vs, hf, hvs, hv⟩ := evaluate_call_eq_ok heval
  obtain ⟨g, ws, hg, hws, hw⟩ := evaluate_call_eq_ok heval'
  obtain ⟨rfl, rfl, rfl⟩ := evaluateAll h vs env₁ ws env₂ hvs hws
  rw [hf] at hg
  cases hg
  rw [hv] at hw
  cases hw
  exact ⟨rfl, rfl, rfl⟩

theorem unary (hop : op.isControl = false) (ha : Paired A calls env env' R a)
    (h : ∀ v v' u u', R v v' → A.operation op [v] = .ok u → A.operation op [v'] = .ok u' →
      S u u') :
    Paired A calls env env' S (node op [a]) := by
  intro u env₁ u' env₂ heval heval'
  obtain ⟨v, hv, hu⟩ := evaluate_unary_eq_ok hop heval
  obtain ⟨v', hv', hu'⟩ := evaluate_unary_eq_ok hop heval'
  obtain ⟨h₁, h₂, hR⟩ := ha v env₁ v' env₂ hv hv'
  exact ⟨h₁, h₂, h v v' u u' hR hu hu'⟩

theorem binary (hop : op.isControl = false) (ha : Paired A calls env env' R a)
    (hb : Paired A calls env env' S b)
    (h : ∀ v v' w w' u u', R v v' → S w w' → A.operation op [v, w] = .ok u →
      A.operation op [v', w'] = .ok u' → T u u') :
    Paired A calls env env' T (node op [a, b]) := by
  intro u env₁ u' env₂ heval heval'
  obtain ⟨v, w, env₃, hv, hw, hu⟩ := evaluate_binary_eq_ok hop heval
  obtain ⟨v', w', env₄, hv', hw', hu'⟩ := evaluate_binary_eq_ok hop heval'
  obtain ⟨rfl, rfl, hR⟩ := ha v env₃ v' env₄ hv hv'
  obtain ⟨h₁, h₂, hS⟩ := hb w env₁ w' env₂ hw hw'
  exact ⟨h₁, h₂, h v v' w w' u u' hR hS hu hu'⟩

theorem ternary {U : Value Scalar → Value Scalar → Prop} {d : Expr} (hop : op.isControl = false)
    (ha : Paired A calls env env' R a) (hb : Paired A calls env env' S b)
    (hd : Paired A calls env env' T d)
    (h : ∀ v v' w w' z z' u u', R v v' → S w w' → T z z' → A.operation op [v, w, z] = .ok u →
      A.operation op [v', w', z'] = .ok u' → U u u') :
    Paired A calls env env' U (node op [a, b, d]) := by
  intro u env₁ u' env₂ heval heval'
  obtain ⟨v, w, z, env₃, env₄, hv, hw, hz, hu⟩ := evaluate_ternary_eq_ok hop heval
  obtain ⟨v', w', z', env₅, env₆, hv', hw', hz', hu'⟩ := evaluate_ternary_eq_ok hop heval'
  obtain ⟨rfl, rfl, hR⟩ := ha v env₃ v' env₅ hv hv'
  obtain ⟨rfl, rfl, hS⟩ := hb w env₄ w' env₆ hw hw'
  obtain ⟨h₁, h₂, hT⟩ := hd z env₁ z' env₂ hz hz'
  exact ⟨h₁, h₂, h v v' w w' z z' u u' hR hS hT hu hu'⟩

/-- An operand that stands **twice** has one value. -/
theorem twice (hop : op.isControl = false) (ha : Paired A calls env env' R a)
    (h : ∀ v v' u u', R v v' → A.operation op [v, v] = .ok u → A.operation op [v', v'] = .ok u' →
      S u u') :
    Paired A calls env env' S (node op [a, a]) := by
  intro u env₁ u' env₂ heval heval'
  obtain ⟨v, w, env₃, hv, hw, hu⟩ := evaluate_binary_eq_ok hop heval
  obtain ⟨v', w', env₄, hv', hw', hu'⟩ := evaluate_binary_eq_ok hop heval'
  obtain ⟨rfl, rfl, hR⟩ := ha v env₃ v' env₄ hv hv'
  cases hv.symm.trans hw
  cases hv'.symm.trans hw'
  exact ⟨rfl, rfl, h v v' u u' hR hu hu'⟩

theorem comparison {r : Relation} (ha : Paired A calls env env' Eq a)
    (hb : Paired A calls env env' Eq b) :
    Paired A calls env env' Eq (node (.comparison r) [a, b]) := by
  intro u env₁ u' env₂ hu hu'
  obtain ⟨v, w, env₃, holds, hv, hw, hholds, rfl⟩ := evaluate_comparison_eq_ok hu
  obtain ⟨v', w', env₄, holds', hv', hw', hholds', rfl⟩ := evaluate_comparison_eq_ok hu'
  obtain ⟨rfl, rfl, rfl⟩ := ha v env₃ v' env₄ hv hv'
  obtain ⟨h₁, h₂, rfl⟩ := hb w env₁ w' env₂ hw hw'
  rw [hholds] at hholds'
  cases hholds'
  exact ⟨h₁, h₂, rfl⟩

theorem select (ht : Paired A calls env env' Eq t) (ha : Paired A calls env env' R a)
    (hb : Paired A calls env env' R b) : Paired A calls env env' R (node .select [t, a, b]) := by
  intro u env₁ u' env₂ hu hu'
  obtain ⟨c, env₃, v, env₄, w, hc, hv, hw, rfl⟩ := evaluate_select_eq_ok hu
  obtain ⟨c', env₅, v', env₆, w', hc', hv', hw', rfl⟩ := evaluate_select_eq_ok hu'
  obtain ⟨rfl, rfl, rfl⟩ := ht c env₃ c' env₅ hc hc'
  obtain ⟨rfl, rfl, hvR⟩ := ha v env₄ v' env₆ hv hv'
  obtain ⟨h₁, h₂, hwR⟩ := hb w env₁ w' env₂ hw hw'
  refine ⟨h₁, h₂, ?_⟩
  cases c.isTrue A with
  | true => exact hvR
  | false => exact hwR

/-- The negation of a number has the other sign. -/
theorem exists_negation {q : Precision} {d : Datum}
    (hx : evaluate (Emulation.arithmetic p) calls x env = .ok (.number (.binary q d), env))
    (h : evaluate (Emulation.arithmetic p) calls (-x) env = .ok (v, env₁)) :
    env₁ = env ∧ v = .number (.binary q d.neg) := by
  obtain ⟨w, hw, hv⟩ := evaluate_unary_eq_ok rfl h
  cases hx.symm.trans hw
  cases hv
  exact ⟨rfl, rfl⟩

/-- **Two calls change places** when their arguments do. -/
theorem swappedCalls {name : String} (hop : op.isControl = false)
    (hx : Paired (Emulation.arithmetic p) calls env env' (Value.Mirrored p .signed) x) :
    Paired (Emulation.arithmetic p) calls env env'
      (fun u u' => ∃ s t, Emulation.operation p op [s, t] = .ok u ∧
        Emulation.operation p op [t, s] = .ok u')
      (node op [node (.functionCall name) [x], node (.functionCall name) [-x]]) := by
  intro u env₁ u' env₂ heval heval'
  obtain ⟨s, t, env₃, hfirst, hsecond, hu⟩ := evaluate_binary_eq_ok hop heval
  obtain ⟨t', s', env₄, hfirst', hsecond', hu'⟩ := evaluate_binary_eq_ok hop heval'
  obtain ⟨f, vs, hf, hvs, hs⟩ := evaluate_call_eq_ok hfirst
  obtain ⟨f₁, ws, hf₁, hws, ht'⟩ := evaluate_call_eq_ok hfirst'
  obtain ⟨f₂, vs₂, hf₂, hvs₂, ht⟩ := evaluate_call_eq_ok hsecond
  obtain ⟨f₃, ws₂, hf₃, hws₂, hs'⟩ := evaluate_call_eq_ok hsecond'
  cases hf.symm.trans hf₁
  cases hf.symm.trans hf₂
  cases hf.symm.trans hf₃
  obtain ⟨v, rfl, hv⟩ := evaluateAll_singleton_eq_ok hvs
  obtain ⟨w, rfl, hw⟩ := evaluateAll_singleton_eq_ok hws
  obtain ⟨v₂, rfl, hv₂⟩ := evaluateAll_singleton_eq_ok hvs₂
  obtain ⟨w₂, rfl, hw₂⟩ := evaluateAll_singleton_eq_ok hws₂
  obtain ⟨rfl, rfl, negative, q, -, -, rfl, rfl⟩ := hx v env₃ w env₄ hv hw
  -- the second call of a run has the argument of the first call of the other run
  obtain ⟨rfl, rfl⟩ := exists_negation hv hv₂
  obtain ⟨rfl, rfl⟩ := exists_negation hw hw₂
  rw [Datum.neg, Bool.not_not] at hs'
  cases hs.symm.trans hs'
  cases ht'.symm.trans ht
  exact ⟨rfl, rfl, s, t, hu, hu'⟩

/-- **The sign of a number that is not zero**, taken over by one that is the same in both runs. -/
theorem withSign (hx : Paired (Emulation.arithmetic p) calls env env' (Value.Mirrored p .signed) x)
    (hr : Paired (Emulation.arithmetic p) calls env env' (Value.Mirrored p .even) r) :
    Paired (Emulation.arithmetic p) calls env env' (Value.Mirrored p .odd)
      (node .select [node (.comparison .less) [x, 0], -r, r]) := by
  have hzero : ∀ {env env₁ : Bindings Scalar} {v : Value Scalar},
      evaluate (Emulation.arithmetic p) calls 0 env = .ok (v, env₁) →
      env₁ = env ∧ v = .number (.binary p .zero) := by
    intro env env₁ v h
    obtain ⟨vs, hvs, hv⟩ := evaluate_operation_eq_ok rfl h
    cases hvs
    cases (Emulation.operation_zero p).symm.trans hv
    exact ⟨rfl, rfl⟩
  intro u env₁ u' env₂ heval heval'
  obtain ⟨c, env₃, n, env₄, w, hc, hn, hw, rfl⟩ := evaluate_select_eq_ok heval
  obtain ⟨c', env₅, n', env₆, w', hc', hn', hw', rfl⟩ := evaluate_select_eq_ok heval'
  obtain ⟨v, z, env₇, holds, hv, hz, hholds, rfl⟩ := evaluate_comparison_eq_ok hc
  obtain ⟨v', z', env₈, holds', hv', hz', hholds', rfl⟩ := evaluate_comparison_eq_ok hc'
  obtain ⟨rfl, rfl, negative, q, hq, hne, rfl, rfl⟩ := hx v env₇ v' env₈ hv hv'
  obtain ⟨rfl, rfl⟩ := hzero hz
  obtain ⟨rfl, rfl⟩ := hzero hz'
  -- the condition is the sign
  have hflipped : (Datum.finite (!negative) q).IsMember p.format := hq
  cases (Emulation.compare_less_zero hq hne).symm.trans hholds
  cases (Emulation.compare_less_zero hflipped hne).symm.trans hholds'
  obtain ⟨y, hy, hneg⟩ := evaluate_unary_eq_ok rfl hn
  obtain ⟨y', hy', hneg'⟩ := evaluate_unary_eq_ok rfl hn'
  obtain ⟨rfl, rfl, rfl, s, d, rfl⟩ := hr y env₄ y' env₆ hy hy'
  cases hy.symm.trans hw
  cases hy'.symm.trans hw'
  cases hneg
  cases hneg'
  refine ⟨rfl, rfl, ?_⟩
  cases holds with
  | true => exact ⟨s, d.neg, d, (Datum.opposite_neg d).symm, rfl, rfl⟩
  | false => exact ⟨s, d, d.neg, Datum.opposite_neg d, rfl, rfl⟩

end Paired

/-- **Two evaluations of an expression with a symmetry** give values that are mirrored by it, and
change no variable. -/
theorem HasSymmetry.evaluate (h : e.HasSymmetry symmetries c)
    (henv : symmetries.Bound p env env') :
    Paired (Emulation.arithmetic p) calls env env' (Value.Mirrored p c) e := by
  induction h with
  | @«variable» name format c hc =>
    intro v env₁ w env₂ hv hw
    obtain ⟨hlookup, rfl⟩ := evaluate_var_eq_ok hv
    obtain ⟨hlookup', rfl⟩ := evaluate_var_eq_ok hw
    exact ⟨rfl, rfl, henv name c hc v w hlookup hlookup'⟩
  | constant n =>
    intro v env₁ w env₂ heval heval'
    obtain ⟨vs, hvs, hv⟩ := evaluate_operation_eq_ok rfl heval
    obtain ⟨ws, hws, hw⟩ := evaluate_operation_eq_ok rfl heval'
    cases hvs
    cases hws
    cases hv.symm.trans hw
    exact ⟨rfl, rfl, rfl, Emulation.hasPrecision_constant hv⟩
  | same h ih => exact ih.mono fun v w hvw => hvw.1
  | opposite h ih =>
    refine ih.mono ?_
    rintro v w ⟨q, x, y, hxy, hv, hw⟩
    exact ⟨_, _, .binary q hxy, hv, hw⟩
  | odd h ih =>
    refine ih.mono ?_
    rintro v w ⟨negative, q, _, _, hv, hw⟩
    exact ⟨p, _, _, .finite negative q, hv, hw⟩
  | operation hop harity h ih => exact (Paired.operation hop ih).mono fun v w hvw => hvw.1
  | comparison ha hb iha ihb => exact iha.comparison ihb
  | select ht ha hb iht iha ihb => exact iht.select iha ihb
  | call h ih => exact .call ih
  | left hop ha hb iha ihb =>
    refine iha.binary hop.isControl ihb ?_
    rintro v _ w _ u u' ⟨rfl, hv⟩ rfl hu hu'
    cases hu.symm.trans hu'
    exact ⟨rfl, Emulation.hasPrecision_operation hop (Or.inl hv) hu⟩
  | right hop ha hb iha ihb =>
    refine iha.binary hop.isControl ihb ?_
    rintro v _ w _ u u' rfl ⟨rfl, hw⟩ hu hu'
    cases hu.symm.trans hu'
    exact ⟨rfl, Emulation.hasPrecision_operation hop (Or.inr hw) hu⟩
  | mulAdd ha hb hc iha ihb ihc =>
    refine iha.ternary rfl ihb ihc ?_
    rintro v _ w _ z _ u u' rfl rfl ⟨rfl, hz⟩ hu hu'
    cases hu.symm.trans hu'
    exact ⟨rfl, Emulation.hasPrecision_fusedMultiplyAdd hz hu⟩
  | exponentInsertion h ih =>
    refine ih.unary rfl ?_
    rintro v _ u u' rfl hu hu'
    cases hu.symm.trans hu'
    exact ⟨rfl, Emulation.hasPrecision_exponentInsertion hu⟩
  | absolute h ih =>
    refine ih.unary rfl ?_
    rintro _ _ u u' ⟨q, x, y, hxy, rfl, rfl⟩ hu hu'
    cases hu
    cases hu'
    exact ⟨congrArg (fun d => Value.number (Scalar.binary q d)) hxy.abs_eq, _, _, rfl⟩
  | exponentExtraction h ih =>
    refine ih.unary rfl ?_
    rintro _ _ u u' ⟨q, x, y, hxy, rfl, rfl⟩ hu hu'
    cases hu
    cases hu'
    refine ⟨?_, _, _, rfl⟩
    simp only [Scalar.typed, hxy.exponent_eq]
  | mantissaExtraction h ih =>
    refine ih.unary rfl ?_
    rintro _ _ u u' ⟨negative, q, hq, hne, rfl, rfl⟩ hu hu'
    cases hu
    cases hu'
    have hmantissa := hq.mantissa
    simp only [Datum.mantissa, if_neg hne] at hmantissa
    refine ⟨negative, _, hmantissa, div_ne_zero hne (pow2_ne_zero _), ?_, ?_⟩
    · simp only [Scalar.typedFrom_binary, Datum.mantissa, if_neg hne, p.wider_self]
    · simp only [Scalar.typedFrom_binary, Datum.mantissa, if_neg hne, p.wider_self]
  | nearestInteger h ih =>
    refine ih.unary rfl ?_
    rintro _ _ u u' ⟨q, x, y, hxy, rfl, rfl⟩ hu hu'
    cases hu
    cases hu'
    exact ⟨q, _, _, hxy.nearestInteger, rfl, rfl⟩
  | difference ha hb iha ihb =>
    exact iha.binary rfl ihb fun v v' w w' u u' hv hw hu hu' =>
      Emulation.mirrored_difference hv hw hu hu'
  | product ha hb iha ihb =>
    exact iha.binary rfl ihb fun v v' w w' u u' hv hw hu hu' =>
      Emulation.mirrored_product hv hw hu hu'
  | square h ih =>
    exact ih.twice rfl fun v v' u u' hv hu hu' => Emulation.mirrored_square hv hu hu'
  | withSign hx hr ihx ihr => exact ihx.withSign ihr
  | callSum h ih =>
    refine (Paired.swappedCalls rfl ih).mono ?_
    rintro u u' ⟨s, t, hu, hu'⟩
    exact Emulation.operation_addition_swap hu hu'
  | callDifference h ih =>
    refine (Paired.swappedCalls rfl ih).mono ?_
    rintro u u' ⟨s, t, hu, hu'⟩
    exact Emulation.operation_subtraction_swap hu hu'

/-- An operation other than a bit conversion is well formed and without bit conversions when its
operands are. -/
theorem plain_node (harity : op.checkArity es.length = .ok ()) (hop : ∀ f, op ≠ .fromBits f)
    (hes : ∀ e ∈ es, e.WellFormed ∧ e.HasDirectBits) :
    (node op es).WellFormed ∧ (node op es).HasDirectBits := by
  refine ⟨wellFormed_node.mpr ⟨harity, fun e he => (hes e he).1⟩, fun f operand hmem => ?_⟩
  rcases mem_subterms_node.mp hmem with heq | ⟨e, he, hmem⟩
  · cases heq
    exact absurd rfl (hop f)
  · exact (hes e he).2 f operand hmem

/-- An expression with a symmetry is well formed and holds no bit conversion. -/
theorem HasSymmetry.plain (h : e.HasSymmetry symmetries c) : e.WellFormed ∧ e.HasDirectBits := by
  have hneg : ∀ {x : Expr}, x.WellFormed ∧ x.HasDirectBits →
      (-x).WellFormed ∧ (-x).HasDirectBits := fun hx => plain_node rfl (by simp) (by simpa using hx)
  have hcall : ∀ {name : String} {x : Expr}, x.WellFormed ∧ x.HasDirectBits →
      (node (.functionCall name) [x]).WellFormed ∧
        (node (.functionCall name) [x]).HasDirectBits := fun hx =>
    plain_node rfl (by simp) (by simpa using hx)
  induction h with
  | @operation op es hop harity h ih =>
    refine plain_node harity ?_ ih
    rintro f rfl
    cases hop
  | same h ih => exact ih
  | opposite h ih => exact ih
  | odd h ih => exact ih
  | @call name es h ih => exact plain_node rfl (by simp) ih
  | left hop ha hb iha ihb => cases hop <;> exact plain_node rfl (by simp) (by simp [iha, ihb])
  | right hop ha hb iha ihb => cases hop <;> exact plain_node rfl (by simp) (by simp [iha, ihb])
  | @withSign x r hx hr ihx ihr =>
    have hzero : (0 : Expr).WellFormed ∧ (0 : Expr).HasDirectBits :=
      plain_node rfl (by simp) (by simp)
    have hsign : (node (.comparison .less) [x, 0]).WellFormed ∧
        (node (.comparison .less) [x, 0]).HasDirectBits :=
      plain_node rfl (by simp) (by simp [ihx, hzero])
    exact plain_node rfl (by simp) (by simp [hsign, hneg ihr, ihr])
  | callSum h ih => exact plain_node rfl (by simp) (by simp [hcall ih, hcall (hneg ih)])
  | callDifference h ih => exact plain_node rfl (by simp) (by simp [hcall ih, hcall (hneg ih)])
  | _ => exact plain_node rfl (by simp) (by simp [*])

/-! ### Bodies and calls -/

/-- The **bodies of a symmetry**: assignments, and a result at the end. -/
inductive BodyHasSymmetry : Symmetries → List Expr → Symmetry → Prop
  | assignment {symmetries : Symmetries} {name : String} {format : Option ResultFormat}
      {value : Expr} {rest : List Expr} {c d : Symmetry} (h : value.HasSymmetry symmetries c)
      (hrest : BodyHasSymmetry ((name, c) :: symmetries) rest d) :
      BodyHasSymmetry symmetries (node .assignment [node (.var name format) [], value] :: rest) d
  | result {symmetries : Symmetries} {value : Expr} {c : Symmetry}
      (h : value.HasSymmetry symmetries c) :
      BodyHasSymmetry symmetries [node .result [value]] c

/-- **A statement repeated** keeps the symmetry of its variable; `P` says what is known of the
variables before each repetition and after the last. -/
theorem BodyHasSymmetry.replicate {name : String} {format : Option ResultFormat} {value : Expr}
    {rest : List Expr} {d : Symmetry} {P : Symmetries → Prop}
    (hstep : ∀ symmetries, P symmetries → value.HasSymmetry symmetries c ∧
      P ((name, c) :: symmetries))
    (hrest : ∀ symmetries, P symmetries → BodyHasSymmetry symmetries rest d) (n : Nat)
    (hP : P symmetries) :
    BodyHasSymmetry symmetries
      (List.replicate n (node .assignment [node (.var name format) [], value]) ++ rest) d := by
  induction n generalizing symmetries with
  | zero => exact hrest symmetries hP
  | succ n ih =>
    obtain ⟨hvalue, hnext⟩ := hstep symmetries hP
    rw [List.replicate_succ, List.cons_append]
    exact .assignment hvalue (ih hnext)

/-- **Two runs of a body with a symmetry** give values that are mirrored by it. -/
theorem BodyHasSymmetry.evaluateSequence {w : Value Scalar} {env₂ : Bindings Scalar}
    (h : BodyHasSymmetry symmetries es c) (henv : symmetries.Bound p env env')
    (hv : Expr.evaluateSequence (Emulation.arithmetic p) calls es env = .ok (v, env₁))
    (hw : Expr.evaluateSequence (Emulation.arithmetic p) calls es env' = .ok (w, env₂)) :
    Value.Mirrored p c v w := by
  induction h generalizing env env' with
  | @assignment symmetries name _ _ _ _ _ h _ ih =>
    obtain ⟨x, env₃, hx, hrest⟩ := evaluateSequence_assignment_eq_ok hv
    obtain ⟨y, env₄, hy, hrest'⟩ := evaluateSequence_assignment_eq_ok hw
    obtain ⟨rfl, rfl, hxy⟩ := h.evaluate henv x env₃ y env₄ hx hy
    exact ih (henv.cons hxy name) hrest hrest'
  | result h => exact (h.evaluate henv v env₁ w env₂ hv hw).2.2

/-- A body with a symmetry is well formed and holds no bit conversion. -/
theorem BodyHasSymmetry.plain (h : BodyHasSymmetry symmetries es c) :
    (node .statement es).WellFormed ∧ (node .statement es).HasDirectBits := by
  refine plain_node rfl (by simp) ?_
  induction h with
  | @assignment symmetries name format value rest c d h hrest ih =>
    have htarget : (node (.var name format) []).WellFormed ∧
        (node (.var name format) []).HasDirectBits := plain_node rfl (by simp) (by simp)
    exact List.forall_mem_cons.mpr
      ⟨plain_node rfl (by simp) (by simp [htarget, h.plain]), ih⟩
  | result h => simpa using plain_node rfl (by simp) (by simp [h.plain])

end Expr

/-- A call that gives a value gives the same when functions stand for others. -/
theorem SameOutcome.eq_ok {α : Type} {x y : Except Failure α} {a : α} (h : SameOutcome x y)
    (hx : x = .ok a) : y = .ok a := by
  subst hx
  cases y with
  | ok b => exact congrArg _ (Eq.symm h)
  | error f => exact h.elim

/-- **Two calls of a quantized function** whose body has a symmetry, with numbers that differ in
their sign alone, give values that are mirrored by the symmetry. -/
theorem Expr.BodyHasSymmetry.call_quantized {nt : NumberType} {f g : GeneratedFunction}
    {name : String} {c : Symmetry} {find : String → Option GeneratedFunction} {depth : Nat}
    {negative : Bool} {q : Rat} {v w : Value Scalar}
    (hbody : BodyHasSymmetry [(name, .signed)] f.statements c) (harguments : f.arguments = [name])
    (hg : (f.quantizeFor nt).outcome = .ok g)
    (hq : (Datum.finite negative q).IsMember nt.precision.format) (hne : q ≠ 0)
    (hv : (Emulation.arithmetic nt.precision).call find depth g
      [.number (.binary nt.precision (.finite negative q))] = .ok v)
    (hw : (Emulation.arithmetic nt.precision).call find depth g
      [.number (.binary nt.precision (.finite (!negative) q))] = .ok w) :
    Value.Mirrored nt.precision c v w := by
  obtain ⟨hwf, hbits⟩ := hbody.plain
  have hinterchangeable := GeneratedFunction.quantize_interchangeable hwf hbits hg
  have hfind : ∀ name, Option.Rel
      (GeneratedFunction.Interchangeable (Emulation.arithmetic nt.precision)) (find name)
      (find name) := by
    intro name
    cases find name with
    | none => exact .none
    | some f => exact .some (GeneratedFunction.refl_interchangeable _ f)
  have hsame := Arithmetic.call_congr hfind depth g f hinterchangeable
  have hcall := (hsame _).eq_ok hv
  have hcall' := (hsame _).eq_ok hw
  cases depth with
  | zero => cases hcall
  | succ depth =>
    have hbind : ∀ x : Datum, x.IsMember nt.precision.format →
        (Emulation.arithmetic nt.precision).bindArguments f.arguments
          [.number (.binary nt.precision x)] =
            .ok [(name, .number (.binary nt.precision x))] := by
      intro x hx
      rw [harguments]
      show Except.ok [(name, Value.number (Scalar.binary nt.precision _))] = _
      rw [Emulation.inPrecision_binary hx]
    obtain ⟨env, env₁, henv, hv'⟩ := Arithmetic.call_succ_eq_ok hcall
    obtain ⟨env', env₂, henv', hw'⟩ := Arithmetic.call_succ_eq_ok hcall'
    have hflipped : (Datum.finite (!negative) q).IsMember nt.precision.format := hq
    cases (hbind _ hq).symm.trans henv
    cases (hbind _ hflipped).symm.trans henv'
    refine hbody.evaluateSequence ?_ hv' hw'
    have hargument : Value.Mirrored nt.precision .signed
        (.number (.binary nt.precision (.finite negative q)))
        (.number (.binary nt.precision (.finite (!negative) q))) :=
      ⟨negative, q, hq, hne, rfl, rfl⟩
    have hnone : Symmetries.Bound nt.precision [] [] [] := by
      intro name c hc
      cases hc
    exact hnone.cons hargument name

end Elementary
