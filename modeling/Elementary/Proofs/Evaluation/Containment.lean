import Elementary.Proofs.Evaluation.Code

/-!
# Emulations that stay in one precision

Whatever the evaluation of code of one precision comes to, be it an operand or the body of a
function that is called, is code of the precision again, under variables that are bound to values of
code. So neither its value nor any value on the way leaves the precision. There are two kinds of
exceptions. What holds a coding gives an integer; and a function without a result gives nothing.

## Main definitions

* `Moment.IsCode`, `Moment.IsCoding`: the moments that are reached from code.

## Main results

* `Emulation.callsTo_keepTo`: functions whose bodies are code keep to the precision.
* `Moment.Next.isCode`: a step of an evaluation leads from code to code.
* `Emulation.never_leaves_precision`: what an evaluation gives, at its end and on the way.
* `Emulation.evaluateWith_resultless`: a call that gives nothing.
-/

namespace Elementary

variable {p : Precision} {silent : Bool} {functions : List GeneratedFunction}
  {m m' m₀ : Moment Scalar}

/-- The calls of functions whose bodies are code **keep to the precision**, to any depth. -/
theorem Emulation.callsTo_keepTo (hfunctions : ∀ f ∈ functions, f.body.IsCode p silent .operand)
    (depth : Nat) : Expr.CallsKeepTo p silent ((arithmetic p).callsTo functions depth) := by
  induction depth with
  | zero =>
    intro name f values v hf _ hv
    obtain ⟨g, -, rfl⟩ := Option.map_eq_some_iff.mp hf
    cases hv
  | succ depth ih =>
    intro name f values v hf hvalues hv
    obtain ⟨g, hg, rfl⟩ := Option.map_eq_some_iff.mp hf
    obtain ⟨env, env', henv, hw⟩ := Arithmetic.call_succ_eq_ok hv
    have hbody := hfunctions g (GeneratedFunction.find?_eq_some hg).1
    exact (hbody.keepsTo ih (isOf_bindArguments hvalues henv) hw).1

namespace Moment

/-- A moment **at code** of the precision, with variables that are bound to values of code. -/
def IsCode (p : Precision) (silent : Bool) (m : Moment Scalar) : Prop :=
  (∃ use, m.expr.IsCode p silent use) ∧ m.env.IsOf p silent

/-- A moment **at a coding**. -/
def IsCoding (m : Moment Scalar) : Prop := ∃ coding, m.expr = .node (.bitPattern coding) []

/-- **A step leads from code to code**, or to the coding below a bit conversion. -/
theorem Next.isCode (h : Next (Emulation.arithmetic p) functions m m')
    (hfunctions : ∀ f ∈ functions, f.body.IsCode p silent .operand) (hm : m.IsCode p silent)
    {r : Value Scalar × Bindings Scalar}
    (hr : m.outcome (Emulation.arithmetic p) functions = .ok r) :
    m'.IsCode p silent ∨ m'.IsCoding := by
  obtain ⟨⟨use, he⟩, henv⟩ := hm
  cases h with
  | @operand depth e a before after env env' vs hes hbefore =>
    have hcalls := Emulation.callsTo_keepTo hfunctions depth
    rcases he.evaluatedOperands with hcode | ⟨x, rfl⟩
    · rw [hes] at hcode
      obtain ⟨-, henv'⟩ := Expr.evaluateAll_of_keepsTo
        (fun b hb => (hcode b (List.mem_append_left _ hb)).imp fun _ h => ⟨h.keepsTo hcalls,
          fun _ _ => trivial⟩) henv hbefore
      exact Or.inl ⟨hcode a (List.mem_append_right _ List.mem_cons_self), henv'⟩
    · -- the operand of a bit conversion is the first and the only one
      cases before with
      | cons b before => cases before <;> cases hes
      | nil =>
        cases hes
        cases hbefore
        obtain ⟨w, coding, hw, hcoding, -⟩ := Expr.evaluate_fromBits_eq_ok hr
        obtain ⟨⟨n, rfl⟩ | ⟨n, rfl⟩, rfl⟩ := Expr.leaf_of_coding hcoding hw
        · exact Or.inr ⟨n, rfl⟩
        · exact Or.inl ⟨⟨.operand, .numeric (.constant n) nofun⟩, henv⟩
  | @call depth name es env env' bound g vs hg hes hbound =>
    have hcalls := Emulation.callsTo_keepTo hfunctions (depth + 1)
    have hes' : ∀ a ∈ es, a.IsCode p silent .operand := by
      cases he with
      | numeric hop => cases hop with | arithmetic hop => cases hop
      | call h => exact h
    obtain ⟨hvs, -⟩ := Expr.evaluateAll_keepsTo (fun a ha => (hes' a ha).keepsTo hcalls) henv hes
    exact Or.inl ⟨⟨.operand, hfunctions g (GeneratedFunction.find?_eq_some hg).1⟩,
      Emulation.isOf_bindArguments hvs hbound⟩

/-- From a coding **no step** is made. -/
theorem IsCoding.not_next (hm : m.IsCoding) : ¬ Next (Emulation.arithmetic p) functions m m' := by
  obtain ⟨coding, hexpr⟩ := hm
  intro h
  cases h with
  | @operand depth e a before after env env' vs hes hbefore =>
    obtain rfl : e = _ := hexpr
    cases before <;> cases hes
  | call => cases hexpr

/-- **Every moment that is reached** from code is at code, or at a coding. -/
theorem Reaches.isCode (h : Reaches (Emulation.arithmetic p) functions m₀ m)
    (hfunctions : ∀ f ∈ functions, f.body.IsCode p silent .operand) (hm : m₀.IsCode p silent)
    {r : Value Scalar × Bindings Scalar}
    (hr : m₀.outcome (Emulation.arithmetic p) functions = .ok r) :
    m.IsCode p silent ∨ m.IsCoding := by
  induction h with
  | refl => exact Or.inl hm
  | tail hreach hnext ih =>
    obtain ⟨q, hq⟩ := exists_outcome_eq_ok hreach hr
    rcases ih with hcode | hcoding
    · exact hnext.isCode hfunctions hcode hq
    · exact absurd hnext hcoding.not_next

end Moment

/-- **Code of one precision never leaves it**: what its emulation gives is a number of the precision
or a tuple of such values, and so is, for its use, the value at every moment that the evaluation
reaches, codings apart; and variables are bound to such values only. Where every sequence whose
value is used has a result, in the functions too, none of the values is nothing. -/
theorem Emulation.never_leaves_precision {e : Expr} {env : Bindings Scalar} {v : Value Scalar}
    (hfunctions : ∀ f ∈ functions, f.body.IsCode p silent .operand)
    (he : e.IsCode p silent .operand) (henv : env.IsOf p silent)
    (h : (arithmetic p).evaluateWith functions e env = .ok v) :
    v.IsOf p silent ∧
      ∀ m, Moment.Reaches (arithmetic p) functions (.start functions e env) m →
        ∃ w env', m.outcome (arithmetic p) functions = .ok (w, env') ∧
          (m.IsCoding ∨ m.IsCode p silent ∧
            (∀ use, m.expr.IsCode p silent use → w.Serves p silent use) ∧ env'.IsOf p silent) := by
  obtain ⟨⟨v', env'⟩, hr, hv⟩ := bind_eq_ok.mp h
  cases hv
  have hkeeps : ∀ (m : Moment Scalar) {use : Use} {w : Value Scalar} {env' : Bindings Scalar},
      m.expr.IsCode p silent use → m.env.IsOf p silent →
      m.outcome (arithmetic p) functions = .ok (w, env') →
      w.Serves p silent use ∧ env'.IsOf p silent := fun m _ _ _ hcode henv hw =>
    hcode.keepsTo (callsTo_keepTo hfunctions m.depth) henv hw
  refine ⟨(hkeeps (.start functions e env) he henv hr).1, fun m hm => ?_⟩
  obtain ⟨⟨w, env₁⟩, hw⟩ := hm.exists_outcome_eq_ok hr
  refine ⟨w, env₁, hw, ?_⟩
  rcases hm.isCode hfunctions ⟨⟨_, he⟩, henv⟩ hr with hcode | hcoding
  · obtain ⟨use, huse⟩ := hcode.1
    exact Or.inr ⟨hcode, fun use huse => (hkeeps m huse hcode.2 hw).1,
      (hkeeps m huse hcode.2 hw).2⟩
  · exact Or.inl hcoding

namespace Emulation

/-- A function that triples its argument, the factor given by its coding, and makes it positive. -/
def tripled : GeneratedFunction where
  name := "tripled"
  numberType := ⟨.single, false⟩
  arguments := ["x"]
  statements :=
    [.node .assignment [.var "y", .node .multiplication
      [.var "x", .node (.fromBits (some (.binary .single))) [.node (.bitPattern 0x40400000) []]]],
    .node .result [.node .select
      [.node (.comparison .less) [.var "y", .constant (.integer 0)], .node .negation [.var "y"],
        .var "y"]]]
  outputs := 1
  fits := []

/-- `tripled(x) + 1`, evaluated where `x` is minus one. -/
theorem never_leaves_precision_tripled :
    let e : Expr := .node .addition
      [.node (.functionCall "tripled") [.var "x"], .constant (.integer 1)]
    let env : Bindings Scalar := [("x", .number (.binary .single (.finite true 1)))]
    ∃ v, (arithmetic .single).evaluateWith [tripled] e env = .ok v ∧ v.IsOf .single false ∧
      ∀ m, Moment.Reaches (arithmetic .single) [tripled] (.start [tripled] e env) m →
        ∃ w env', m.outcome (arithmetic .single) [tripled] = .ok (w, env') ∧
          (m.IsCoding ∨ m.IsCode .single false ∧
            (∀ use, m.expr.IsCode .single false use → w.Serves .single false use) ∧
            env'.IsOf .single false) := by
  intro e env
  have hvar : ∀ name, (Expr.var name).IsCode .single false .operand := fun _ => .variable
  have hconstant : ∀ n, (Expr.constant (.integer n)).IsCode .single false .operand :=
    fun n => .numeric (.constant _) nofun
  have htripled : tripled.body.IsCode .single false .operand := by
    refine .sequence (Or.inr ⟨_, List.mem_cons_of_mem _ List.mem_cons_self, rfl⟩) ?_
    refine List.forall_mem_cons.mpr ⟨.assignment (Or.inl rfl) ?_,
      List.forall_mem_singleton.mpr (.result (.select (.comparison nofun (hvar _) (hconstant 0))
        (.numeric (.arithmetic .negation) ?_) (hvar _)))⟩
    · exact .numeric (.arithmetic .multiplication)
        (List.forall_mem_cons.mpr ⟨hvar _, List.forall_mem_singleton.mpr .fromBits⟩)
    · exact List.forall_mem_singleton.mpr (hvar _)
  have he : e.IsCode .single false .operand := by
    refine .numeric (.arithmetic .addition) (List.forall_mem_cons.mpr ⟨.call ?_,
      List.forall_mem_singleton.mpr (hconstant 1)⟩)
    exact List.forall_mem_singleton.mpr (hvar _)
  have henv : env.IsOf .single false := by
    refine List.forall_mem_singleton.mpr (.number ?_)
    exact Datum.isMember_finite.mpr ⟨by norm_num, by decide +kernel, by decide +kernel⟩
  have hvalue : ((arithmetic .single).evaluateWith [tripled] e env).toBool = true := by
    decide +kernel
  cases h : (arithmetic .single).evaluateWith [tripled] e env with
  | error f =>
    rw [h] at hvalue
    cases hvalue
  | ok v =>
    exact ⟨v, rfl, never_leaves_precision (List.forall_mem_singleton.mpr htripled) he henv h⟩

/-- A function that gives nothing, since it has no result. -/
def resultless : GeneratedFunction where
  name := "silent"
  numberType := ⟨.single, false⟩
  arguments := ["x"]
  statements := [.node .assignment [.var "y", .var "x"]]
  outputs := 1
  fits := []

/-- **A call may give nothing**, which is no number of the precision: the expression is code that is
not silent, and the body of the function that it calls is code in which no value but that of the
sequence is missing. -/
theorem evaluateWith_resultless :
    let e : Expr := .node (.functionCall "silent") [.var "x"]
    let env : Bindings Scalar := [("x", .number (.binary .single (.finite false 1)))]
    e.IsCode .single false .operand ∧
      (∀ s ∈ resultless.statements, s.IsCode .single false .statement) ∧
      env.IsOf .single false ∧
      (arithmetic .single).evaluateWith [resultless] e env = .ok .nothing ∧
      ∀ p, ¬ (Value.nothing : Value Scalar).IsOf p false := by
  intro e env
  refine ⟨.call (List.forall_mem_singleton.mpr .variable),
    List.forall_mem_singleton.mpr (.assignment (Or.inl rfl) .variable),
    List.forall_mem_singleton.mpr (.number ?_), rfl, fun p h => ?_⟩
  · exact Datum.isMember_finite.mpr ⟨by norm_num, by decide +kernel, by decide +kernel⟩
  · cases h with
    | nothing h => cases h

end Emulation

end Elementary
