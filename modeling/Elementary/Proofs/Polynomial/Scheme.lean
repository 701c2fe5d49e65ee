import Elementary.Polynomial.Horner
import Elementary.Proofs.Evaluation.Numbers
import Elementary.Proofs.Expr.Closed

/-!
# Schemes are closed and have values

A Horner scheme is made of constants, its variable, products and multiply-adds. It is closed when
the variable is in scope, and in the emulation of a precision it gives a datum wherever the variable
is bound to one, whatever overflows.

## Main definitions

* `Expr.IsScheme`: what schemes in a variable are made of.

## Main results

* `Polynomial.exists_of_horner_odd`, `exists_of_horner_even`: what the schemes of polynomials are.
* `Polynomial.isScheme_horner`: what they are made of.
* `Expr.IsScheme.isClosed`: schemes are closed.
* `Expr.IsScheme.exists_gives`: quantized schemes have values in the emulation.
-/

namespace Elementary

/-- The expressions that **schemes in a variable** are made of. -/
inductive Expr.IsScheme (name : String) : Expr → Prop
  | constant (n : Number) : IsScheme name (.constant n)
  | variable : IsScheme name (.var name)
  | product {a b : Expr} (ha : IsScheme name a) (hb : IsScheme name b) : IsScheme name (a * b)
  | mulAdd {a b c : Expr} (ha : IsScheme name a) (hb : IsScheme name b) (hc : IsScheme name c) :
    IsScheme name (.mulAdd a b c)

namespace Polynomial

variable {p : Polynomial Number} {Q : Expr → Prop} {parity : Parity} {name : String}
  {power e : Expr}

/-- What holds of every constant and is kept by a multiply-add **holds of a chain**. -/
theorem denseHorner_of_forall (hconstant : ∀ d, Q (.constant (p.coefficient d)))
    (hstep : ∀ scheme d, Q scheme →
      Q (Expr.mulAdd scheme power (.constant (p.coefficient d)))) :
    Q (p.denseHorner power) :=
  List.foldlRecOn (motive := Q) _ _ (hconstant _) fun scheme hscheme d _ => hstep scheme d hscheme

theorem isScheme_denseHorner (h : power.IsScheme name) : (p.denseHorner power).IsScheme name :=
  denseHorner_of_forall (Q := Expr.IsScheme name) (fun _ => .constant _)
    fun _ _ hscheme => .mulAdd hscheme h (.constant _)

/-- An **odd scheme** is the variable times a chain over its square. -/
theorem exists_of_horner_odd (he : p.horner name .odd = .ok e) :
    ∃ inner : Polynomial Number,
      e = .var name * inner.denseHorner (.var name * .var name) := by
  simp only [horner] at he
  split at he
  · exact ⟨_, (Except.ok.inj he).symm⟩
  · cases he

/-- An **even scheme** is a chain over the square of the variable. -/
theorem exists_of_horner_even (he : p.horner name .even = .ok e) :
    ∃ inner : Polynomial Number, e = inner.denseHorner (.var name * .var name) := by
  simp only [horner] at he
  split at he
  · exact ⟨_, (Except.ok.inj he).symm⟩
  · cases he

theorem isScheme_horner (he : p.horner name parity = .ok e) : e.IsScheme name := by
  have hsquare : (Expr.var name * Expr.var name).IsScheme name := .product .variable .variable
  cases parity with
  | odd =>
    obtain ⟨inner, rfl⟩ := exists_of_horner_odd he
    exact .product .variable (isScheme_denseHorner hsquare)
  | even =>
    obtain ⟨inner, rfl⟩ := exists_of_horner_even he
    exact isScheme_denseHorner hsquare
  | none =>
    cases he
    exact isScheme_denseHorner .variable

end Polynomial

/-- **A scheme is closed** when its variable is in scope. -/
theorem Expr.IsScheme.isClosed {S : NameScope} {name : String} {e : Expr} (h : e.IsScheme name)
    (hname : name ∈ S.names) : e.isClosed S = true := by
  induction h with
  | constant n => rfl
  | «variable» => simp [Expr.var, Expr.isClosed, Expr.allClosed, NameScope.admits, hname]
  | product _ _ iha ihb => exact isClosed_node.mpr ⟨rfl, by simpa using ⟨iha, ihb⟩⟩
  | mulAdd _ _ _ iha ihb ihc => exact isClosed_node.mpr ⟨rfl, by simpa using ⟨iha, ihb, ihc⟩⟩

/-- **Quantized schemes have values** in the emulation: where the variable is bound to a datum, a
scheme gives a datum that depends on nothing else. -/
theorem Expr.IsScheme.exists_gives {nt : NumberType} {name : String} {e : Expr} {x : Datum}
    (h : e.IsScheme name) (he : e.Codable nt) (hx : x.IsMember nt.precision.format) :
    ∃ y : Datum, y.IsMember nt.precision.format ∧ ∀ (calls : Calls Scalar) env,
      env.lookup name = some (.number (.binary nt.precision x)) →
        (e.coded nt).Gives (Emulation.arithmetic nt.precision) calls env
          (.number (.binary nt.precision y)) := by
  have hτ := changesConstants_coded nt
  induction h with
  | constant n =>
    obtain ⟨c, hc⟩ := Expr.codable_constant.mp he
    obtain ⟨q, hq, -⟩ := NumberType.coding?_eq_some_iff.mp (NumberType.coding?_of_codingOutcome hc)
    obtain ⟨_, ⟨y, -, hy, rfl⟩, hgives⟩ := Emulation.exists_coded_constant hc hq
    exact ⟨y, hy, fun calls env _ => hgives calls env⟩
  | «variable» => exact ⟨x, hx, fun calls env henv => hτ.gives_var henv⟩
  | product _ _ iha ihb =>
    obtain ⟨y, hy, ha⟩ := iha (he.operand (by simp))
    obtain ⟨z, hz, hb⟩ := ihb (he.operand (by simp))
    exact ⟨_, hy.mul hz, fun calls env henv => hτ.gives_mul (ha calls env henv)
      (hb calls env henv) (Emulation.operation_multiplication hy hz)⟩
  | mulAdd _ _ _ iha ihb ihc =>
    obtain ⟨y, hy, ha⟩ := iha (he.operand (by simp))
    obtain ⟨z, hz, hb⟩ := ihb (he.operand (by simp))
    obtain ⟨w, hw, hc⟩ := ihc (he.operand (by simp))
    rw [Expr.mulAdd, hτ _ _ rfl]
    refine ⟨(y.mul nt.precision.format z).add nt.precision.format w, Datum.isMember_add,
      fun calls env henv => ?_⟩
    exact .operation rfl (.cons (ha calls env henv) (.cons (hb calls env henv)
      (.cons (hc calls env henv) .nil))) (Emulation.operation_mulAdd hy hz hw)

end Elementary
