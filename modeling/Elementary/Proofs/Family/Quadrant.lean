import Elementary.Proofs.Evaluation.Constants
import Elementary.Proofs.Family.Constants

/-!
# The quadrant bodies in any arithmetic

The bodies of sine and cosine over quadrants measure the argument, once as it is and once with half
a unit more, take the nearest integers off, evaluate both schemes at what is left, change their
signs where the integers are odd, and choose one of the two values. The values on this way are those
that the operations of an arithmetic give. So the bodies are followed here once, for every
arithmetic, and for whatever is measured in place of the argument.

## Main definitions

* `Trigonometric.QuadrantValues`: the values on the way, and `Follows`, where they come from.
* `Trigonometric.measuring`: a body in which something else is measured.

## Main results

* `Trigonometric.assigns_quadrantSine`, `assigns_quadrantCosine`: the assignments of the bodies.
* `Trigonometric.evaluate_quadrantSine`, `evaluate_quadrantCosine`: the value that is chosen.
* `LibraryFunction.call_negateOnOdd`: the function that changes the signs.
-/

namespace Elementary

open Expr (Gives Assigns assign)
open Setting (variableIn)

namespace Trigonometric

/-- The **values on the way** through a quadrant body: what is measured, `x`, half a unit and the
sum of the two, `xh`; the nearest integers; what is left of `x` and of `xh`; and the size of what is
left of `x` with the bound that it is compared with. -/
structure QuadrantValues (ν : Type) where
  x : Value ν
  half : Value ν
  xh : Value ν
  xr : Value ν
  xhr : Value ν
  near : Value ν
  far : Value ν
  size : Value ν
  quarter : Value ν
  isSmall : Bool

namespace QuadrantValues

variable {ν : Type}

/-- The values on the way **follow from each other** by the operations of an arithmetic. -/
structure Follows (A : Arithmetic ν) (w : QuadrantValues ν) : Prop where
  shift : A.operation .addition [w.x, w.half] = .ok w.xh
  nearest : A.operation .nearestInteger [w.x] = .ok w.xr
  shiftedNearest : A.operation .nearestInteger [w.xh] = .ok w.xhr
  left : A.operation .subtraction [w.x, w.xr] = .ok w.near
  shiftedLeft : A.operation .subtraction [w.xh, w.xhr] = .ok w.far
  absolute : A.operation .absolute [w.near] = .ok w.size
  test : A.compare .lessOrEqual w.size w.quarter = .ok w.isSmall

/-- The bindings after the reduction of a quadrant body. -/
def reduced (w : QuadrantValues ν) (env : Bindings ν) : Bindings ν :=
  ("xhr", w.xhr) :: ("xr", w.xr) :: ("xh", w.xh) :: ("x", w.x) :: env

/-- The bindings **after the assignments** of a quadrant body: the variables for what is left of `x`
and of `xh`, and the values of the schemes before and after the change of the signs. -/
def bindings (w : QuadrantValues ν) (near far : String) (sr cr ss cs : Value ν)
    (env : Bindings ν) : Bindings ν :=
  ("cs", cs) :: ("ss", ss) :: ("cr", cr) :: ("sr", sr) :: (far, w.far) :: (near, w.near) ::
    w.reduced env

end QuadrantValues

/-- A quadrant body in which **something else is measured** in place of the argument. -/
def measuring (nt : NumberType) (measured : Expr) (body : List Expr) : List Expr :=
  assign (variableIn nt "x") measured :: body.tail

section Bodies

variable {ν : Type} {A : Arithmetic ν} {w : QuadrantValues ν} {calls : Calls ν} {env : Bindings ν}
  {τ : Expr → Expr} {nt : NumberType} {measured sine cosine : Expr}
  {negate : List (Value ν) → Except Failure (Value ν)} {sr c cr ss cs : Value ν}

/-- **The reduction** of a quadrant body. -/
theorem assigns_quadrantReduction {rest : List Expr} {env' : Bindings ν} (hτ : ChangesConstants τ)
    (h : w.Follows A) (hx : (τ measured).Gives A calls env w.x)
    (hhalf : ∀ env, (τ 0.5).Gives A calls env w.half)
    (hrest : Assigns A calls (rest.map τ) (w.reduced env) env') :
    Assigns A calls ((measuring nt measured (quadrantReduction nt ++ rest)).map τ) env env' := by
  refine hτ.assigns_cons hx ?_
  refine hτ.assigns_cons (hτ.gives_add (hτ.gives_var rfl) (hhalf _) h.shift) ?_
  refine hτ.assigns_cons (hτ.gives_nearestInteger (hτ.gives_var rfl) h.nearest) ?_
  exact hτ.assigns_cons (hτ.gives_nearestInteger (hτ.gives_var rfl) h.shiftedNearest) hrest

variable (nt) in
/-- **The assignments of the sine.** -/
theorem assigns_quadrantSine (hτ : ChangesConstants τ) (h : w.Follows A)
    (hx : (τ measured).Gives A calls env w.x) (hhalf : ∀ env, (τ 0.5).Gives A calls env w.half)
    (hcalls : calls "negate_on_odd" = some negate)
    (hsine : ∀ env, env.lookup "s" = some w.near → (τ sine).Gives A calls env sr)
    (hcosine : ∀ env, env.lookup "c" = some w.far → (τ cosine).Gives A calls env c)
    (hcr : A.operation .negation [c] = .ok cr) (hss : negate [w.xr, sr] = .ok ss)
    (hcs : negate [w.xhr, cr] = .ok cs) :
    Assigns A calls ((measuring nt measured (quadrantSineBody nt sine cosine)).dropLast.map τ) env
      (w.bindings "s" "c" sr cr ss cs env) := by
  refine assigns_quadrantReduction hτ h hx hhalf ?_
  refine hτ.assigns_cons (hτ.gives_sub (hτ.gives_var rfl) (hτ.gives_var rfl) h.left) ?_
  refine hτ.assigns_cons (hτ.gives_sub (hτ.gives_var rfl) (hτ.gives_var rfl) h.shiftedLeft) ?_
  refine hτ.assigns_cons (hsine _ rfl) (hτ.assigns_cons (hτ.gives_neg (hcosine _ rfl) hcr) ?_)
  refine hτ.assigns_cons (hτ.gives_call hcalls (hτ.gives_var rfl) (hτ.gives_var rfl) hss) ?_
  exact hτ.assigns_cons (hτ.gives_call hcalls (hτ.gives_var rfl) (hτ.gives_var rfl) hcs) .nil

variable (nt) in
/-- **The assignments of the cosine.** -/
theorem assigns_quadrantCosine (hτ : ChangesConstants τ) (h : w.Follows A)
    (hx : (τ measured).Gives A calls env w.x) (hhalf : ∀ env, (τ 0.5).Gives A calls env w.half)
    (hcalls : calls "negate_on_odd" = some negate)
    (hcosine : ∀ env, env.lookup "c" = some w.near → (τ cosine).Gives A calls env cr)
    (hsine : ∀ env, env.lookup "s" = some w.far → (τ sine).Gives A calls env sr)
    (hss : negate [w.xhr, sr] = .ok ss) (hcs : negate [w.xr, cr] = .ok cs) :
    Assigns A calls ((measuring nt measured (quadrantCosineBody nt sine cosine)).dropLast.map τ) env
      (w.bindings "c" "s" sr cr ss cs env) := by
  refine assigns_quadrantReduction hτ h hx hhalf ?_
  refine hτ.assigns_cons (hτ.gives_sub (hτ.gives_var rfl) (hτ.gives_var rfl) h.left) ?_
  refine hτ.assigns_cons (hτ.gives_sub (hτ.gives_var rfl) (hτ.gives_var rfl) h.shiftedLeft) ?_
  refine hτ.assigns_cons (hsine _ rfl) (hτ.assigns_cons (hcosine _ rfl) ?_)
  refine hτ.assigns_cons (hτ.gives_call hcalls (hτ.gives_var rfl) (hτ.gives_var rfl) hss) ?_
  exact hτ.assigns_cons (hτ.gives_call hcalls (hτ.gives_var rfl) (hτ.gives_var rfl) hcs) .nil

/-- **The value that is chosen**: the one from what is left of `x`, where that is small. -/
theorem gives_chosen {near first second : String} {u v : Value ν} (hτ : ChangesConstants τ)
    (h : w.Follows A) (hquarter : ∀ env, (τ 0.25).Gives A calls env w.quarter)
    (hnear : env.lookup near = some w.near) (hu : env.lookup first = some u)
    (hv : env.lookup second = some v) :
    (τ (Expr.select (Expr.compare .lessOrEqual (Expr.absolute (variableIn nt near)) 0.25)
      (variableIn nt first) (variableIn nt second))).Gives A calls env
        (if w.isSmall then u else v) :=
  hτ.gives_select (hτ.gives_compare (hτ.gives_absolute (hτ.gives_var hnear) h.absolute) (hquarter _)
    h.test) (hτ.gives_var hu) (hτ.gives_var hv)

/-- **The sine gives** the value of its scheme, or of the negated one of the cosine, each with the
sign that the integers ask for. -/
theorem evaluate_quadrantSine (hτ : ChangesConstants τ) (h : w.Follows A)
    (hquarter : ∀ env, (τ 0.25).Gives A calls env w.quarter)
    (hassigns : Assigns A calls
      ((measuring nt measured (quadrantSineBody nt sine cosine)).dropLast.map τ) env
      (w.bindings "s" "c" sr cr ss cs env)) :
    Expr.evaluateSequence A calls
      ((measuring nt measured (quadrantSineBody nt sine cosine)).map τ) env =
        .ok (if w.isSmall then ss else cs, w.bindings "s" "c" sr cr ss cs env) :=
  hτ.evaluateSequence_body hassigns rfl (gives_chosen hτ h hquarter rfl rfl rfl)

/-- **The cosine gives** the value of its scheme, or of that of the sine. -/
theorem evaluate_quadrantCosine (hτ : ChangesConstants τ) (h : w.Follows A)
    (hquarter : ∀ env, (τ 0.25).Gives A calls env w.quarter)
    (hassigns : Assigns A calls
      ((measuring nt measured (quadrantCosineBody nt sine cosine)).dropLast.map τ) env
      (w.bindings "c" "s" sr cr ss cs env)) :
    Expr.evaluateSequence A calls
      ((measuring nt measured (quadrantCosineBody nt sine cosine)).map τ) env =
        .ok (if w.isSmall then cs else ss, w.bindings "c" "s" sr cr ss cs env) :=
  hτ.evaluateSequence_body hassigns rfl (gives_chosen hτ h hquarter rfl rfl rfl)

end Bodies

end Trigonometric

namespace LibraryFunction

/-- **The function that changes signs**: a value is negated when the integer is odd. -/
theorem call_negateOnOdd {ν : Type} {A : Arithmetic ν} {s : Setting} {g : GeneratedFunction}
    {k v v' : Value ν} {odd : Bool} (hg : negateOnOdd.Builds s g)
    (hk : A.argument k = .ok k) (hv : A.argument v = .ok v)
    (hodd : A.operation .isOdd [k] = .ok (.truth odd)) (hneg : A.operation .negation [v] = .ok v')
    (find : String → Option GeneratedFunction) (depth : Nat) :
    A.call find (depth + 1) g [k, v] = .ok (if odd then v' else v) := by
  obtain ⟨fits, c, -, -, -, rfl⟩ := hg.exists_ingredients
  have hτ := changesConstants_coded s.numberType
  refine Arithmetic.call_eq (Arithmetic.bindArguments_pair hk hv "k" "v")
    (hτ.evaluateSequence_result (hτ.gives_select ?_ ?_ (hτ.gives_var rfl)) [])
  · exact hτ.gives_isOdd (hτ.gives_var rfl) hodd
  · exact hτ.gives_neg (hτ.gives_var rfl) hneg

end LibraryFunction

end Elementary
