import Elementary.Library
import Elementary.Proofs.Evaluation.Closed
import Elementary.Proofs.Polynomial.Scheme
import Elementary.Proofs.TestCase.Request
import Mathlib.Logic.Relation

/-!
# The functions of a library

A library has one list of functions for each strategy. A function is built from fits: their
polynomials become schemes, the schemes stand in a body, and the constants of the body are
quantized. Whatever the fits gave, the body is closed, so that a library can be evaluated and
written in both languages.

## Main definitions

* `LibraryFunction`: the functions of libraries, with the fits that they ask for and their bodies.
* `LibraryFunction.Builds`: a function built from any results of these fits.
* `Library.Built`: a library built from any results of its fits.

## Main results

* `LibraryFunction.closedBody`: the bodies are closed.
* `Library.calls_acyclic`: no function calls itself, directly or through others.
-/

namespace Elementary

/-- The **functions of libraries**; sine and cosine depend on the strategy. -/
inductive LibraryFunction where
  | sine (strategy : Strategy)
  | cosine (strategy : Strategy)
  | tangent
  | sineCosine
  | arctangent
  | arcsine
  | arccosine
  | exponential
  | binaryExponential
  | logarithm (base : Exponential.Base)
  | hyperbolicSine
  | hyperbolicCosine
  | hyperbolicTangent
  | reciprocal
  | reciprocalRoot
  | squareRoot
  | negateOnOdd
  | length
  deriving DecidableEq

/-- The number of a kind for the width of a setting; zero stands for one that is not there. -/
def Setting.counted (s : Setting) (kind : TermKind) : Int :=
  ((s.terms.table kind).lookup s.width).getD 0

/-- What goes into the **body of a function**: schemes of polynomials, the number of refinements,
and the two parts of the logarithm of two. -/
structure Ingredients where
  polynomials : List Expr
  refinements : Int
  head : Rat
  tail : Rat

/-- The scheme at a place. -/
def Ingredients.polynomial (c : Ingredients) (i : Nat) : Expr := c.polynomials.getD i default

namespace LibraryFunction

open Trigonometric (ofPeriods ofHalfPeriods)

/-- The name of a function. -/
def name : LibraryFunction → String
  | sine _ => "sin"
  | cosine _ => "cos"
  | tangent => "tan"
  | sineCosine => "sin_cos"
  | arctangent => "atan"
  | arcsine => "asin"
  | arccosine => "acos"
  | exponential => "exp"
  | binaryExponential => "exp2"
  | logarithm base => base.name
  | hyperbolicSine => "sinh"
  | hyperbolicCosine => "cosh"
  | hyperbolicTangent => "tanh"
  | reciprocal => "recip"
  | reciprocalRoot => "recip_sqrt"
  | squareRoot => "sqrt"
  | negateOnOdd => "negate_on_odd"
  | length => "hypot"

/-- The arguments of a function. -/
def arguments : LibraryFunction → List String
  | negateOnOdd => ["k", "v"]
  | length => ["x", "y"]
  | _ => ["arg"]

/-- How many values a function gives. -/
def outputs : LibraryFunction → Int
  | sineCosine => 2
  | _ => 1

/-- The request for a fit in a setting. -/
def request (s : Setting) (target : Expr) (terms : Int) (low high : Number) (argument : String)
    (parity : Parity) : Fit.Request :=
  ⟨.expr target, argument, terms, low, high, parity, s.width⟩

/-- The requests for sine and cosine over a quarter of a period. -/
def quadrantRequests (s : Setting) : List Fit.Request :=
  [request s (ofHalfPeriods "sin" (.var "s")) (s.counted .quadrant) (.literal "-0.25")
      (.literal "0.25") "s" .odd,
    request s (ofHalfPeriods "cos" (.var "c")) (s.counted .quadrant + 1) (.literal "-0.25")
      (.literal "0.25") "c" .even]

/-- The request for the arcsine. -/
def arcsineRequest (s : Setting) : Fit.Request :=
  request s (.mathFunction "asin" [.var "t"]) (s.counted .arcsine) (.literal "-0.5")
    (.literal "0.5") "t" .odd

/-- The request for the seed of a square root. -/
def rootRequest (s : Setting) : Fit.Request :=
  request s (1 / .mathFunction "sqrt" [.var "m"]) (s.counted .rootSeed) (.literal "1")
    (.literal "4") "m" .none

/-- Half of the logarithm of two. -/
def halfLn2 : BigFloat := ExactConstant.ln2.scale (-1)

/-- The **fits that a function asks for** in a setting. -/
def requests (s : Setting) : LibraryFunction → List Fit.Request
  | sine .singlePass =>
    [request s (ofPeriods "sin" (.var "x")) (s.counted .singlePass) (.literal "-0.5")
      (.literal "0.5") "x" .odd]
  | cosine .singlePass =>
    [request s (ofPeriods "cos" (.var "x")) (s.counted .singlePass + 1) (.literal "-0.5")
      (.literal "0.5") "x" .even]
  | sine .quadrant | cosine .quadrant => quadrantRequests s
  | tangent =>
    [request s (ofHalfPeriods "tan" (.var "x") * (.var "x" * .var "x" - 0.25)) (s.counted .tangent)
      (.literal "-0.499999") (.literal "0.499999") "x" .odd]
  | sineCosine | negateOnOdd | length => []
  | arctangent =>
    [request s (.mathFunction "atan" [.var "t"]) (s.counted .arctangent) (.literal "-1")
      (.literal "1") "t" .odd]
  | arcsine | arccosine => [arcsineRequest s]
  | exponential =>
    [request s (.mathFunction "exp" [.var "r"]) (s.counted .exponential)
      (ExactConstant.number halfLn2.negate) (ExactConstant.number halfLn2) "r" .none]
  | binaryExponential =>
    [request s (.mathFunction "exp2" [.var "r"]) (s.counted .exponential) (.literal "-0.5")
      (.literal "0.5") "r" .none]
  | logarithm base =>
    [request s (Exponential.logarithmTarget base) (s.counted .logarithm)
      (.literal ("-" ++ Exponential.reducedBound)) (.literal Exponential.reducedBound) "t" .odd]
  | hyperbolicSine =>
    [request s (.mathFunction "sinh" [.var "arg"]) (s.counted .hyperbolicSine) (.literal "-1")
      (.literal "1") "arg" .odd]
  | hyperbolicCosine =>
    [request s (.mathFunction "cosh" [.var "arg"]) (s.counted .hyperbolicCosine) (.literal "-1")
      (.literal "1") "arg" .even]
  | hyperbolicTangent =>
    [request s (.mathFunction "tanh" [.var "arg"]) (s.counted .hyperbolicTangent)
      (.literal ("-" ++ Hyperbolic.tangentBound)) (.literal Hyperbolic.tangentBound) "arg" .odd]
  | reciprocal =>
    [request s (1 / .var "am") (s.counted .reciprocalSeed) (.literal "1") (.literal "2") "am" .none]
  | reciprocalRoot | squareRoot => [rootRequest s]

/-- The **body of a function**. -/
def body (nt : NumberType) (c : Ingredients) : LibraryFunction → List Expr
  | sine .singlePass | cosine .singlePass => Trigonometric.singlePassBody nt (c.polynomial 0)
  | sine .quadrant => Trigonometric.quadrantSineBody nt (c.polynomial 0) (c.polynomial 1)
  | cosine .quadrant => Trigonometric.quadrantCosineBody nt (c.polynomial 0) (c.polynomial 1)
  | tangent => Trigonometric.tangentBody nt (c.polynomial 0)
  | sineCosine => Trigonometric.sineCosineBody nt
  | arctangent => InverseTrigonometric.arctangentBody nt (c.polynomial 0)
  | arcsine => InverseTrigonometric.arcsineBody nt (c.polynomial 0)
  | arccosine => InverseTrigonometric.arccosineBody nt (c.polynomial 0)
  | exponential => Exponential.naturalBody nt c.head c.tail (c.polynomial 0)
  | binaryExponential => Exponential.binaryBody nt (c.polynomial 0)
  | logarithm base =>
    Exponential.logarithmBody nt (ExactConstant.expr base.logarithmOfTwo) (c.polynomial 0)
  | hyperbolicSine => Hyperbolic.sineBody nt (c.polynomial 0)
  | hyperbolicCosine => Hyperbolic.cosineBody nt (c.polynomial 0)
  | hyperbolicTangent => Hyperbolic.tangentBody nt (c.polynomial 0)
  | reciprocal => Root.reciprocalBody nt (c.polynomial 0) c.refinements
  | reciprocalRoot => Root.reciprocalRootBody nt (c.polynomial 0) c.refinements
  | squareRoot => Root.squareRootBody nt (c.polynomial 0) c.refinements
  | negateOnOdd => Auxiliary.negateOnOddBody nt
  | length => Auxiliary.lengthBody nt

/-- A function **before it is quantized**. -/
def draft (F : LibraryFunction) (s : Setting) (c : Ingredients) (fits : List Fit.Result) :
    GeneratedFunction :=
  ⟨F.name, s.numberType, F.arguments, F.body s.numberType c, F.outputs, fits⟩

/-- A function **built from fits**: any results of the fits that it asks for, whatever polynomials
they hold, have schemes, and with these in the body every constant has a coding. -/
def Builds (F : LibraryFunction) (s : Setting) (f : GeneratedFunction) : Prop :=
  ∃ (fits : List Fit.Result) (c : Ingredients), fits.map (·.request) = F.requests s ∧
    List.Forall₂ (fun fit e => fit.expression = .ok e) fits c.polynomials ∧
    (F.draft s c fits).quantize.outcome = .ok f

/-! ### The calls -/

/-- The **functions that a function calls**, with their numbers of arguments. -/
def callees : LibraryFunction → List (String × Nat)
  | sine .quadrant | cosine .quadrant => [("negate_on_odd", 2)]
  | sineCosine => [("sin", 1), ("cos", 1)]
  | arcsine | arccosine | length => [("sqrt", 1)]
  | hyperbolicSine | hyperbolicCosine | hyperbolicTangent => [("exp", 1)]
  | _ => []

/-- The **rank** of a function, above those of the functions that it calls. -/
def rank : LibraryFunction → Nat
  | sineCosine => 2
  | sine .quadrant | cosine .quadrant => 1
  | arcsine | arccosine | length => 1
  | hyperbolicSine | hyperbolicCosine | hyperbolicTangent => 1
  | _ => 0

/-! ### The bodies -/

/-- The **scope of a body**: the arguments, and the functions that are called. -/
def scope (F : LibraryFunction) : NameScope := ⟨F.arguments, F.callees, false⟩

section Bodies

variable {nt : NumberType} {p q : Expr} {refinements : Int} {head tail : Rat}

open Expr (ClosedBody)

/-- An expression that is **closed wherever a variable is in scope**. -/
def ClosedIn (name : String) (e : Expr) : Prop :=
  ∀ S : NameScope, name ∈ S.names → e.isClosed S = true

/-- The scheme of a fit is closed wherever the variable of the request is in scope. -/
theorem closedIn_expression {fit : Fit.Result} (h : fit.expression = .ok p) :
    ClosedIn fit.request.argument p := fun _ hS => (Polynomial.isScheme_horner h).isClosed hS

theorem closedBody_singlePass (hp : ClosedIn "x" p) :
    ClosedBody ⟨["arg"], [], false⟩ (Trigonometric.singlePassBody nt p) :=
  .assignment rfl (.assignment rfl (.result (hp _ (by decide))))

theorem closedBody_quadrantSine (hp : ClosedIn "s" p) (hq : ClosedIn "c" q) :
    ClosedBody ⟨["arg"], [("negate_on_odd", 2)], false⟩
      (Trigonometric.quadrantSineBody nt p q) := by
  have hneg : ClosedIn "c" (-q) := fun S hS =>
    Expr.isClosed_node.mpr ⟨rfl, List.forall_mem_singleton.mpr (hq S hS)⟩
  refine .assignment rfl (.assignment rfl (.assignment rfl (.assignment rfl ?_)))
  refine .assignment rfl (.assignment rfl (.assignment (hp _ ?_) (.assignment (hneg _ ?_) ?_)))
  · decide
  · decide
  · exact .assignment rfl (.assignment rfl (.result rfl))

theorem closedBody_quadrantCosine (hp : ClosedIn "s" p) (hq : ClosedIn "c" q) :
    ClosedBody ⟨["arg"], [("negate_on_odd", 2)], false⟩
      (Trigonometric.quadrantCosineBody nt p q) := by
  refine .assignment rfl (.assignment rfl (.assignment rfl (.assignment rfl ?_)))
  refine .assignment rfl (.assignment rfl (.assignment (hp _ ?_) (.assignment (hq _ ?_) ?_)))
  · decide
  · decide
  · exact .assignment rfl (.assignment rfl (.result rfl))

theorem closedBody_tangent (hp : ClosedIn "x" p) :
    ClosedBody ⟨["arg"], [], false⟩ (Trigonometric.tangentBody nt p) :=
  .assignment rfl (.assignment rfl (.assignment rfl (.assignment (hp _ (by decide)) (.result rfl))))

theorem closedBody_arctangent (hp : ClosedIn "t" p) :
    ClosedBody ⟨["arg"], [], false⟩ (InverseTrigonometric.arctangentBody nt p) :=
  .assignment rfl (.assignment rfl (.assignment rfl (.assignment (hp _ (by decide))
    (.assignment rfl (.result rfl)))))

theorem closedBody_arcsine (hp : ClosedIn "t" p) :
    ClosedBody ⟨["arg"], [("sqrt", 1)], false⟩ (InverseTrigonometric.arcsineBody nt p) :=
  .assignment rfl (.assignment rfl (.assignment rfl (.assignment (hp _ (by decide))
    (.assignment rfl (.result rfl)))))

theorem closedBody_arccosine (hp : ClosedIn "t" p) :
    ClosedBody ⟨["arg"], [("sqrt", 1)], false⟩ (InverseTrigonometric.arccosineBody nt p) :=
  .assignment rfl (.assignment rfl (.assignment rfl (.assignment (hp _ (by decide))
    (.assignment rfl (.result rfl)))))

theorem closedBody_exponential (hp : ClosedIn "r" p) :
    ClosedBody ⟨["arg"], [], false⟩ (Exponential.naturalBody nt head tail p) :=
  .assignment rfl (.assignment rfl (.assignment (hp _ (by decide)) (.result rfl)))

theorem closedBody_binaryExponential (hp : ClosedIn "r" p) :
    ClosedBody ⟨["arg"], [], false⟩ (Exponential.binaryBody nt p) :=
  .assignment rfl (.assignment rfl (.assignment (hp _ (by decide)) (.result rfl)))

theorem closedBody_logarithm {constant : BigFloat} (hp : ClosedIn "t" p) :
    ClosedBody ⟨["arg"], [], false⟩
      (Exponential.logarithmBody nt (ExactConstant.expr constant) p) :=
  .assignment rfl (.assignment rfl (.assignment rfl (.assignment rfl (.assignment rfl
    (.assignment rfl (.assignment (hp _ (by decide)) (.result rfl)))))))

theorem closedBody_hyperbolicSine (hp : ClosedIn "arg" p) :
    ClosedBody ⟨["arg"], [("exp", 1)], false⟩ (Hyperbolic.sineBody nt p) :=
  .assignment (hp _ (by decide)) (.assignment rfl (.result rfl))

theorem closedBody_hyperbolicCosine (hp : ClosedIn "arg" p) :
    ClosedBody ⟨["arg"], [("exp", 1)], false⟩ (Hyperbolic.cosineBody nt p) :=
  .assignment (hp _ (by decide)) (.assignment rfl (.result rfl))

theorem closedBody_hyperbolicTangent (hp : ClosedIn "arg" p) :
    ClosedBody ⟨["arg"], [("exp", 1)], false⟩ (Hyperbolic.tangentBody nt p) :=
  .assignment rfl (.assignment (hp _ (by decide))
    (.assignment rfl (.assignment rfl (.result rfl))))

theorem closedBody_reciprocal (hp : ClosedIn "am" p) :
    ClosedBody ⟨["arg"], [], false⟩ (Root.reciprocalBody nt p refinements) := by
  refine .assignment rfl (.assignment rfl (.assignment rfl (.assignment (hp _ (by decide)) ?_)))
  exact .replicate rfl (.assignment rfl (.result rfl)) _

/-- The statements of a refined root, and a result from them. -/
theorem closedBody_refinedRoot {e : Expr} (hp : ClosedIn "m" p)
    (he : e.isClosed ⟨["y", "m", "h", "e", "arg"], [], false⟩ = true) :
    ClosedBody ⟨["arg"], [], false⟩
      (Root.refinedRoot nt p refinements ++ [Expr.result e]) := by
  rw [Root.refinedRoot, List.append_assoc]
  refine .assignment rfl (.assignment rfl (.assignment rfl (.assignment (hp _ (by decide)) ?_)))
  exact .replicate rfl (.result he) _

theorem closedBody_reciprocalRoot (hp : ClosedIn "m" p) :
    ClosedBody ⟨["arg"], [], false⟩ (Root.reciprocalRootBody nt p refinements) :=
  closedBody_refinedRoot hp rfl

theorem closedBody_squareRoot (hp : ClosedIn "m" p) :
    ClosedBody ⟨["arg"], [], false⟩ (Root.squareRootBody nt p refinements) :=
  closedBody_refinedRoot hp rfl

theorem closedBody_negateOnOdd :
    ClosedBody ⟨["k", "v"], [], false⟩ (Auxiliary.negateOnOddBody nt) :=
  .result rfl

theorem closedBody_length :
    ClosedBody ⟨["x", "y"], [("sqrt", 1)], false⟩ (Auxiliary.lengthBody nt) :=
  .assignment rfl (.result rfl)

theorem closedBody_sineCosine :
    ClosedBody ⟨["arg"], [("sin", 1), ("cos", 1)], false⟩ (Trigonometric.sineCosineBody nt) :=
  .results (by simp only [List.forall_mem_cons]; exact ⟨rfl, rfl, List.forall_mem_nil _⟩)

/-- **Every body is closed** when each scheme is closed wherever the variable of its fit is in
scope. -/
theorem closedBody {s : Setting} {F : LibraryFunction} {c : Ingredients}
    (h : List.Forall₂ (fun r e => ClosedIn r.argument e) (F.requests s) c.polynomials) :
    ClosedBody F.scope (F.body nt c) := by
  obtain ⟨polynomials, refinements, head, tail⟩ := c
  cases F with
  | sine strategy =>
    cases strategy with
    | singlePass =>
      obtain _ | ⟨hp, _ | _⟩ := h
      exact closedBody_singlePass hp
    | quadrant =>
      obtain _ | ⟨hp, _ | ⟨hq, _ | _⟩⟩ := h
      exact closedBody_quadrantSine hp hq
  | cosine strategy =>
    cases strategy with
    | singlePass =>
      obtain _ | ⟨hp, _ | _⟩ := h
      exact closedBody_singlePass hp
    | quadrant =>
      obtain _ | ⟨hp, _ | ⟨hq, _ | _⟩⟩ := h
      exact closedBody_quadrantCosine hp hq
  | sineCosine => exact closedBody_sineCosine
  | negateOnOdd => exact closedBody_negateOnOdd
  | length => exact closedBody_length
  | tangent => obtain _ | ⟨hp, _ | _⟩ := h; exact closedBody_tangent hp
  | arctangent => obtain _ | ⟨hp, _ | _⟩ := h; exact closedBody_arctangent hp
  | arcsine => obtain _ | ⟨hp, _ | _⟩ := h; exact closedBody_arcsine hp
  | arccosine => obtain _ | ⟨hp, _ | _⟩ := h; exact closedBody_arccosine hp
  | exponential => obtain _ | ⟨hp, _ | _⟩ := h; exact closedBody_exponential hp
  | binaryExponential => obtain _ | ⟨hp, _ | _⟩ := h; exact closedBody_binaryExponential hp
  | logarithm base => obtain _ | ⟨hp, _ | _⟩ := h; exact closedBody_logarithm hp
  | hyperbolicSine => obtain _ | ⟨hp, _ | _⟩ := h; exact closedBody_hyperbolicSine hp
  | hyperbolicCosine => obtain _ | ⟨hp, _ | _⟩ := h; exact closedBody_hyperbolicCosine hp
  | hyperbolicTangent => obtain _ | ⟨hp, _ | _⟩ := h; exact closedBody_hyperbolicTangent hp
  | reciprocal => obtain _ | ⟨hp, _ | _⟩ := h; exact closedBody_reciprocal hp
  | reciprocalRoot => obtain _ | ⟨hp, _ | _⟩ := h; exact closedBody_reciprocalRoot hp
  | squareRoot => obtain _ | ⟨hp, _ | _⟩ := h; exact closedBody_squareRoot hp

end Bodies

/-! ### Functions that were built -/

variable {s : Setting} {F : LibraryFunction} {f : GeneratedFunction}

/-- What is known of a function that was **built from fits**. -/
structure IsBuilt (F : LibraryFunction) (nt : NumberType) (f : GeneratedFunction) : Prop where
  name : f.name = F.name
  arguments : f.arguments = F.arguments
  body : ∃ statements, Expr.ClosedBody F.scope statements ∧ (∀ e ∈ statements, e.Codable nt) ∧
    f.statements = statements.map (Expr.coded nt)

/-- A function that was built has the **quantized statements of its body**, and the fits. -/
theorem Builds.exists_ingredients (h : F.Builds s f) :
    ∃ (fits : List Fit.Result) (c : Ingredients), fits.map (·.request) = F.requests s ∧
      List.Forall₂ (fun fit e => fit.expression = .ok e) fits c.polynomials ∧
      (∀ e ∈ F.body s.numberType c, e.Codable s.numberType) ∧
      f = { F.draft s c fits with
        statements := (F.body s.numberType c).map (Expr.coded s.numberType) } := by
  obtain ⟨fits, c, hrequests, hschemes, hquantized⟩ := h
  obtain ⟨hcodable, hf⟩ := GeneratedFunction.quantizeFor_eq_ok_iff.mp hquantized
  exact ⟨fits, c, hrequests, hschemes, (Expr.codable_node.mp hcodable).2, hf⟩

/-- **A function that was built** has a closed body, quantized. -/
theorem Builds.isBuilt (h : F.Builds s f) : F.IsBuilt s.numberType f := by
  obtain ⟨fits, c, hrequests, hschemes, hcodable, rfl⟩ := h.exists_ingredients
  have hclosed : List.Forall₂ (fun r e => ClosedIn r.argument e) (F.requests s) c.polynomials := by
    rw [← hrequests, List.forall₂_map_left_iff]
    exact hschemes.imp fun _ _ => closedIn_expression
  exact ⟨rfl, rfl, _, closedBody hclosed, hcodable, rfl⟩

end LibraryFunction

/-- A family of functions and tests **built from fits**: its functions are built from any results of
the fits that they ask for, and its tests from their requests. -/
structure Family.IsBuilt (s : Setting) (functions : List LibraryFunction)
    (tests : List TestCase.Request) (family : Family) : Prop where
  builds : List.Forall₂ (fun F f => F.Builds s f) functions family.functions
  describes : List.Forall₂ (fun r t => r.Describes t) tests family.tests

namespace Library

/-- The **functions of a strategy**, in the order of the output. -/
def functions (strategy : Strategy) : List LibraryFunction :=
  [.sine strategy, .cosine strategy, .tangent, .sineCosine, .arctangent, .arcsine, .arccosine,
    .exponential, .binaryExponential, .logarithm .natural, .logarithm .two, .logarithm .ten,
    .hyperbolicSine, .hyperbolicCosine, .hyperbolicTangent, .reciprocal, .reciprocalRoot,
    .squareRoot, .negateOnOdd, .length]

/-- The requests for the **tests of a strategy**, in the order of the output. -/
def tests (s : Setting) (strategy : Strategy) : List TestCase.Request :=
  List.flatten [match strategy with
    | .singlePass => Trigonometric.tests s 8 8
    | .quadrant => Trigonometric.tests s 3 4,
    InverseTrigonometric.tests s, Exponential.tests s, Hyperbolic.tests s, Root.tests s,
    Auxiliary.tests s]

/-- What a library offers to be **called**: its functions with their numbers of arguments. -/
def interface (strategy : Strategy) : List (String × Nat) :=
  (functions strategy).map fun F => (F.name, F.arguments.length)

/-- A library **built from fits**, in a setting and for a strategy. -/
abbrev Built (s : Setting) (strategy : Strategy) (library : Family) : Prop :=
  library.IsBuilt s (functions strategy) (tests s strategy)

/-! ### The functions and tests of a strategy -/

section Listed

variable {strategy : Strategy} {F : LibraryFunction}

theorem nodup_names (strategy : Strategy) :
    ((functions strategy).map LibraryFunction.name).Nodup := by
  cases strategy <;> decide

theorem nodup_testNames (s : Setting) (strategy : Strategy) :
    ((tests s strategy).map (·.name)).Nodup := by
  have hnames : (tests s strategy).map (·.name) =
      ["sin", "cos", "tan", "sin_cos_1", "sin_cos_2", "atan", "asin", "acos", "exp", "exp2", "ln",
        "log2", "log10", "sinh", "cosh", "tanh", "recip", "recip_sqrt", "sqrt", "negate_on_odd",
        "hypot"] := by
    cases strategy <;> rfl
  rw [hnames]
  decide

theorem isName_name_arguments (hF : F ∈ functions strategy) :
    (F.name :: F.arguments).all Native.isName = true := by
  revert F
  cases strategy <;> decide

/-- A function **calls functions of lower rank**, with as many arguments as they take. -/
theorem exists_callee (hF : F ∈ functions strategy) {c : String × Nat} (hc : c ∈ F.callees) :
    ∃ G ∈ functions strategy, G.name = c.1 ∧ G.arguments.length = c.2 ∧ G.rank < F.rank := by
  revert F c
  cases strategy <;> decide

theorem rank_le_two (hF : F ∈ functions strategy) : F.rank ≤ 2 := by
  revert F
  cases strategy <;> decide

/-- **The tests** are closed over the functions of the library. -/
theorem isClosed_of_mem_tests {s : Setting} {r : TestCase.Request} (hr : r ∈ tests s strategy) :
    r.isClosed (interface strategy) = true ∧ r.numberType = s.numberType := by
  have hclosed : ∀ r ∈ tests s strategy, r.isClosed (interface strategy) = true := by
    cases strategy <;> exact List.all_eq_true.mp rfl
  have htype : ∀ r ∈ tests s strategy, r.numberType = s.numberType := by
    cases strategy <;> simp [tests, Trigonometric.tests, InverseTrigonometric.tests,
      Exponential.tests, Hyperbolic.tests, Root.tests, Auxiliary.tests, Setting.test]
  exact ⟨hclosed r hr, htype r hr⟩

end Listed

end Library

end Elementary
