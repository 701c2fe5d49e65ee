import Elementary.Proofs.Evaluation.Steps
import Elementary.Proofs.Format.Datum

/-!
# Kinds of values

In the emulation of a precision the value of an expression is a number of the precision, a tuple of
such values, or a truth value. Which of them it is can be told from the expression, when it is known
for the variables and for the functions that are called; and the evaluation of an expression that
has a kind changes no variable. In such a body the numbers never leave the precision, so that no
argument of a call is ever rounded.

## Main definitions

* `Kind`, `Value.HasKind`: the kinds, and the values of each.
* `Expr.HasKind`, `Expr.BodyHasKind`: the kinds of expressions and of bodies.
* `WellKinded`: functions that call each other with arguments of the right kinds.

## Main results

* `Emulation.hasKind_operation`: the operations of the precision give numbers of the precision.
* `Expr.HasKind.evaluate`: an expression of a kind has a value of the kind, if it has one.
* `WellKinded.call`: so do the calls of a function.
-/

namespace Elementary

/-! ### Values -/

/-- The **kinds** of values: numbers, tuples of values of one kind, numbers and tuples of all sorts,
and truth values. -/
inductive Kind where
  | number
  | tuple (components : Kind)
  | value
  | test
  deriving DecidableEq, Repr

/-- Whether the values of a kind are made of numbers. -/
def Kind.isData : Kind → Bool
  | number | value => true
  | tuple components => components.isData
  | test => false

namespace Value

variable {p : Precision} {v : Value Scalar}

/-- The **data of a precision**: its numbers, and tuples of data. -/
inductive IsData (p : Precision) : Value Scalar → Prop
  | number {x : Datum} (h : x.IsMember p.format) : IsData p (.number (.binary p x))
  | tuple {vs : List (Value Scalar)} (h : ∀ v ∈ vs, IsData p v) : IsData p (.tuple vs)

/-- The values **of a kind**. -/
def HasKind (p : Precision) : Kind → Value Scalar → Prop
  | .number, v => ∃ x, x.IsMember p.format ∧ v = .number (.binary p x)
  | .tuple k, v => ∃ vs, (∀ w ∈ vs, HasKind p k w) ∧ v = .tuple vs
  | .value, v => v.IsData p
  | .test, v => ∃ b, v = .truth b

/-- What is made of numbers is data. -/
theorem HasKind.isData {k : Kind} (h : v.HasKind p k) (hk : k.isData = true) : v.IsData p := by
  induction k generalizing v with
  | number =>
    obtain ⟨x, hx, rfl⟩ := h
    exact .number hx
  | tuple k ih =>
    obtain ⟨vs, hvs, rfl⟩ := h
    exact .tuple fun w hw => ih (hvs w hw) hk
  | value => exact h
  | test => cases hk

/-- A component of a tuple is one of its values. -/
theorem mem_of_component {A : Arithmetic Scalar} {index : Int} {vs : List (Value Scalar)}
    (h : (tuple vs).component A index = .ok v) : v ∈ vs := by
  simp only [component] at h
  generalize (if index < 0 then index + (vs.length : Int) else index) = i at h
  by_cases hi : i < 0
  · rw [if_pos hi] at h
    cases h
  · rw [if_neg hi] at h
    cases hget : vs[i.toNat]? with
    | none =>
      rw [hget] at h
      cases h
    | some w =>
      rw [hget] at h
      cases h
      exact List.mem_of_getElem? hget

/-- A component of data is data. -/
theorem IsData.component {A : Arithmetic Scalar} {index : Int} {w : Value Scalar}
    (h : v.IsData p) (hw : v.component A index = .ok w) : w.IsData p := by
  cases h with
  | number => cases hw
  | tuple h => exact h w (mem_of_component hw)

end Value

/-! ### The numbers of a precision -/

@[simp] theorem Scalar.typedFrom_binary (p q : Precision) (x : Datum) :
    (binary q x).typedFrom p = (q, x) := rfl

@[simp] theorem Precision.wider_self (p : Precision) : p.wider p = p := by
  cases p <;> rfl

namespace Emulation

variable {p : Precision} {op : Op} {x y z : Datum} {v : Value Scalar} {vs : List (Value Scalar)}

@[simp] theorem inPrecision_binary (h : x.IsMember p.format) :
    (Scalar.binary p x).inPrecision p = x :=
  Datum.convert_eq_self h

theorem isMember_integer (n : Int) : ((Scalar.integer n).inPrecision p).IsMember p.format := by
  have hdouble : (Scalar.ofInteger n).IsMember Precision.double.format := Datum.isMember_ofRat
  exact hdouble.convert

/-- **Two numbers of a precision** meet in it. -/
theorem arithmeticOperation_binary (hx : x.IsMember p.format) (hy : y.IsMember p.format) :
    arithmeticOperation op (.binary p x) (.binary p y) =
      .ok (.binary p (datumOperation p.format op x y)) := by
  have hmeet : (Scalar.binary p x).meet (.binary p y) = p := p.wider_self
  simp only [arithmeticOperation, hmeet, inPrecision_binary hx, inPrecision_binary hy]
  rfl

theorem isMember_datumOperation (hx : x.IsMember p.format) (hy : y.IsMember p.format) :
    (datumOperation p.format op x y).IsMember p.format := by
  unfold datumOperation
  split
  · exact Datum.isMember_add
  · exact Datum.isMember_sub
  · exact hx.mul hy
  · exact hx.div hy

/-- The operations on numbers that **give a number**, in code of one precision. -/
inductive IsArithmetic (p : Precision) : Op → Prop
  | conversion : IsArithmetic p (.conversion (some (.binary p)))
  | negation : IsArithmetic p .negation
  | absolute : IsArithmetic p .absolute
  | nearestInteger : IsArithmetic p .nearestInteger
  | floor : IsArithmetic p .floor
  | exponentInsertion : IsArithmetic p .exponentInsertion
  | exponentExtraction : IsArithmetic p .exponentExtraction
  | mantissaExtraction : IsArithmetic p .mantissaExtraction
  | addition : IsArithmetic p .addition
  | subtraction : IsArithmetic p .subtraction
  | multiplication : IsArithmetic p .multiplication
  | division : IsArithmetic p .division
  | fusedMultiplyAdd : IsArithmetic p .fusedMultiplyAdd

/-- No such operation is one of control. -/
theorem IsArithmetic.isControl (h : IsArithmetic p op) : op.isControl = false := by
  cases h <;> rfl

/-- What bits stand for is a number of the precision. -/
theorem hasKind_decode {coding : Int} (h : decode coding (some (.binary p)) = .ok v) :
    v.HasKind p .number := by
  simp only [decode] at h
  split at h
  · cases h
  · cases h
    exact ⟨_, Datum.isMember_ofCoding _ _, rfl⟩

/-- Whether a number is odd is a truth value. -/
theorem hasKind_isOdd (h : operation p .isOdd vs = .ok v) : v.HasKind p .test := by
  obtain ⟨xs, -, h⟩ := bind_eq_ok.mp h
  rcases xs with _ | ⟨x, _ | _⟩ <;> cases h
  exact ⟨_, rfl⟩

/-- The scalars of data are numbers of the precision. -/
theorem exists_data {xs : List Scalar} (hvs : ∀ v ∈ vs, v.IsData p)
    (h : vs.mapM Scalar.ofValue = .ok xs) :
    ∃ ds : List Datum, (∀ d ∈ ds, d.IsMember p.format) ∧
      vs = ds.map (fun d => .number (.binary p d)) ∧ xs = ds.map (.binary p) := by
  have hall := mapM_eq_ok.mp h
  clear h
  induction hall with
  | nil => exact ⟨[], by simp, rfl, rfl⟩
  | @cons v x _ _ hv _ ih =>
    obtain ⟨ds, hds, rfl, rfl⟩ := ih fun w hw => hvs w (List.mem_cons_of_mem v hw)
    cases hvs v List.mem_cons_self with
    | @number d hd =>
      cases hv
      exact ⟨d :: ds, List.forall_mem_cons.mpr ⟨hd, hds⟩, rfl, rfl⟩
    | tuple => cases hv

/-- An operation on anything but nothing by itself is one on scalars. -/
theorem operation_of_ne_nothing (hop : IsArithmetic p op) (hvs : vs ≠ [.nothing]) :
    operation p op vs = (do scalarOperation p op (← vs.mapM Scalar.ofValue)) := by
  cases hop with
  | conversion =>
    -- nothing is converted by itself
    rcases vs with _ | ⟨v, vs⟩
    · rfl
    · cases v <;> cases vs <;> first | rfl | exact absurd rfl hvs
  | _ => rfl

/-- An operation on data is one on scalars. -/
theorem operation_data (hop : IsArithmetic p op) (hvs : ∀ v ∈ vs, v.IsData p) :
    operation p op vs = (do scalarOperation p op (← vs.mapM Scalar.ofValue)) := by
  refine operation_of_ne_nothing hop ?_
  rintro rfl
  cases hvs _ List.mem_cons_self

/-- The power of two of a scalar is a number of the precision. -/
theorem exists_powerOfTwo {s t : Scalar} (h : powerOfTwo p s = .ok t) :
    ∃ d : Datum, d.IsMember p.format ∧ t = .binary p d := by
  obtain ⟨k, -, h⟩ := bind_eq_ok.mp h
  split at h
  · cases h
    exact ⟨_, Datum.isMember_powerOfTwo _, rfl⟩
  · cases h

/-- **The operations on one number** give a number. -/
theorem hasKind_unary (hop : IsArithmetic p op) (hx : x.IsMember p.format)
    (h : scalarOperation p op [.binary p x] = .ok v) : v.HasKind p .number := by
  cases hop with
  | exponentInsertion =>
    obtain ⟨t, ht, h⟩ := bind_eq_ok.mp h
    obtain ⟨d, hd, rfl⟩ := exists_powerOfTwo ht
    cases h
    exact ⟨d, hd, rfl⟩
  | mantissaExtraction =>
    cases h
    exact ⟨_, hx.mantissa, by rw [Scalar.typedFrom_binary, p.wider_self]⟩
  | conversion => cases h; exact ⟨_, hx.convert, rfl⟩
  | negation => cases h; exact ⟨_, hx.neg, rfl⟩
  | absolute => cases h; exact ⟨_, hx.abs, rfl⟩
  | nearestInteger => cases h; exact ⟨_, hx.nearestInteger, rfl⟩
  | floor => cases h; exact ⟨_, hx.floor, rfl⟩
  | exponentExtraction => cases h; exact ⟨_, isMember_integer _, rfl⟩
  | _ => cases h

/-- **The operations on two numbers** give a number. -/
theorem hasKind_binary (hop : IsArithmetic p op) (hx : x.IsMember p.format)
    (hy : y.IsMember p.format)
    (h : scalarOperation p op [.binary p x, .binary p y] = .ok v) : v.HasKind p .number := by
  have hnumber : ∀ op', (do return .number (← arithmeticOperation op' (.binary p x) (.binary p y)) :
      Except Failure (Value Scalar)) = .ok v → v.HasKind p .number := by
    intro op' h
    rw [arithmeticOperation_binary hx hy] at h
    cases h
    exact ⟨_, isMember_datumOperation hx hy, rfl⟩
  cases hop <;> first | exact hnumber _ h | cases h

/-- **The operation on three numbers** gives a number. -/
theorem hasKind_ternary (hop : IsArithmetic p op) (hx : x.IsMember p.format)
    (hy : y.IsMember p.format) (hz : z.IsMember p.format)
    (h : scalarOperation p op [.binary p x, .binary p y, .binary p z] = .ok v) :
    v.HasKind p .number := by
  cases hop with
  | fusedMultiplyAdd =>
    have hproduct : (datumOperation p.format .multiplication x y).IsMember p.format :=
      isMember_datumOperation hx hy
    simp only [scalarOperation, arithmeticOperation_binary hx hy] at h
    change (do return .number (← arithmeticOperation .addition
      (.binary p (datumOperation p.format .multiplication x y)) (.binary p z)) :
      Except Failure (Value Scalar)) = _ at h
    rw [arithmeticOperation_binary hproduct hz] at h
    cases h
    exact ⟨_, isMember_datumOperation hproduct hz, rfl⟩
  | _ => cases h

/-- **The operations on data give numbers of the precision.** -/
theorem hasKind_operation (hop : IsArithmetic p op) (hvs : ∀ v ∈ vs, v.IsData p)
    (h : operation p op vs = .ok v) : v.HasKind p .number := by
  rw [operation_data hop hvs] at h
  obtain ⟨xs, hxs, h⟩ := bind_eq_ok.mp h
  obtain ⟨ds, hds, -, rfl⟩ := exists_data hvs hxs
  rcases ds with _ | ⟨x, _ | ⟨y, _ | ⟨z, _ | _⟩⟩⟩
  · cases hop <;> cases h
  · exact hasKind_unary hop (hds x (by simp)) h
  · exact hasKind_binary hop (hds x (by simp)) (hds y (by simp)) h
  · exact hasKind_ternary hop (hds x (by simp)) (hds y (by simp)) (hds z (by simp)) h
  · cases hop <;> cases h

end Emulation

/-! ### Kinds of expressions -/

/-- A function has a **result** when its body holds one. -/
def GeneratedFunction.HasResult (f : GeneratedFunction) : Prop :=
  ∃ s ∈ f.statements, s.op = .result

/-- **What may be called**: the functions by their names, and the kinds of what they give. -/
structure Interface where
  find : String → Option GeneratedFunction
  results : String → Kind

/-- The kinds of variables, the latest first. -/
abbrev Kinds := List (String × Kind)

/-- Bindings of variables to **values of their kinds**. -/
def Kinds.Bound (p : Precision) (kinds : Kinds) (env : Bindings Scalar) : Prop :=
  ∀ name v, env.lookup name = some v → ∃ k, kinds.lookup name = some k ∧ v.HasKind p k

/-- A variable is bound to a value of a kind. -/
theorem Kinds.Bound.cons {p : Precision} {kinds : Kinds} {env : Bindings Scalar} {k : Kind}
    {v : Value Scalar} (h : kinds.Bound p env) (hv : v.HasKind p k) (name : String) :
    Bound p ((name, k) :: kinds) ((name, v) :: env) := by
  intro other w hw
  rw [List.lookup_cons] at hw ⊢
  cases hname : other == name with
  | true =>
    rw [hname] at hw
    cases hw
    exact ⟨k, rfl, hv⟩
  | false =>
    rw [hname] at hw
    exact h other w hw

/-- Calls that give **values of the right kinds**: only functions that are known are called, and on
data as many as its arguments a function with a result gives a value of its kind. -/
def Interface.Respected (p : Precision) (I : Interface) (calls : Calls Scalar) : Prop :=
  ∀ name f, calls name = some f → ∃ g, I.find name = some g ∧
    (g.HasResult → ∀ values v, (∀ w ∈ values, w.IsData p) →
      values.length = g.arguments.length → f values = .ok v → v.HasKind p (I.results name))

namespace Expr

variable {p : Precision} {I : Interface} {kinds : Kinds} {e : Expr} {es : List Expr} {k : Kind}

/-- The **expressions of a kind** in code of one precision. Bits are numbers of that precision;
numbers and tuples are the operands of operations, tests only conditions, and a number in every
lane is one number. A function that is called has as many arguments as are passed to it, and a
result. What a variable that is not bound holds does not matter. -/
inductive HasKind (p : Precision) (I : Interface) (kinds : Kinds) : Expr → Kind → Prop
  | variable {name : String} {format : Option ResultFormat} {es : List Expr} {k : Kind}
      (h : ∀ k', kinds.lookup name = some k' → k' = k) :
      HasKind p I kinds (node (.var name format) es) k
  | value {e : Expr} {k : Kind} (h : HasKind p I kinds e k) (hk : k.isData = true) :
      HasKind p I kinds e .value
  | fromBits (coding : Int) :
      HasKind p I kinds (node (.fromBits (some (.binary p))) [node (.bitPattern coding) []]) .number
  | splat {format : Option ResultFormat} {e : Expr} (h : HasKind p I kinds e .number) :
      HasKind p I kinds (node (.splat format) [e]) .number
  | arithmetic {op : Op} {es : List Expr} (hop : Emulation.IsArithmetic p op)
      (h : ∀ e ∈ es, HasKind p I kinds e .value) : HasKind p I kinds (node op es) .number
  | isOdd {e : Expr} (h : HasKind p I kinds e .value) : HasKind p I kinds (node .isOdd [e]) .test
  | comparison {r : Relation} {a b : Expr} (ha : HasKind p I kinds a .value)
      (hb : HasKind p I kinds b .value) : HasKind p I kinds (node (.comparison r) [a, b]) .test
  | select {c a b : Expr} {kc k : Kind} (hc : HasKind p I kinds c kc) (ha : HasKind p I kinds a k)
      (hb : HasKind p I kinds b k) : HasKind p I kinds (node .select [c, a, b]) k
  | tuple {es : List Expr} {k : Kind} (h : ∀ e ∈ es, HasKind p I kinds e k) :
      HasKind p I kinds (node .tuple es) (.tuple k)
  | component {index : Int} {e : Expr} {k : Kind} (h : HasKind p I kinds e (.tuple k)) :
      HasKind p I kinds (node (.tupleSelection index) [e]) k
  | selection {index : Int} {e : Expr} (h : HasKind p I kinds e .value) :
      HasKind p I kinds (node (.tupleSelection index) [e]) .value
  | call {name : String} {es : List Expr} (h : ∀ e ∈ es, HasKind p I kinds e .value)
      (hcall : ∀ g, I.find name = some g → es.length = g.arguments.length ∧ g.HasResult) :
      HasKind p I kinds (node (.functionCall name) es) (I.results name)

/-! ### Evaluation -/

variable {calls : Calls Scalar} {env env' : Bindings Scalar} {v : Value Scalar}
  {vs : List (Value Scalar)}

/-- **The values of operands** that have a kind, from the evaluation of each. -/
theorem evaluateAll_hasKind {A : Arithmetic Scalar} {es : List Expr}
    (h : ∀ e ∈ es, ∀ v env', evaluate A calls e env = .ok (v, env') → env' = env ∧ v.HasKind p k)
    (heval : evaluateAll A calls es env = .ok (vs, env')) :
    env' = env ∧ vs.length = es.length ∧ ∀ v ∈ vs, v.HasKind p k := by
  induction es generalizing vs env' with
  | nil =>
    cases heval
    exact ⟨rfl, rfl, fun v hv => absurd hv List.not_mem_nil⟩
  | cons e es ih =>
    obtain ⟨v, env₁, vs', rfl, hv, hvs⟩ := evaluateAll_cons_eq_ok heval
    obtain ⟨rfl, hkind⟩ := h e List.mem_cons_self v env₁ hv
    obtain ⟨rfl, hlength, hkinds⟩ := ih (fun a ha => h a (List.mem_cons_of_mem e ha)) hvs
    exact ⟨rfl, by rw [List.length_cons, hlength, List.length_cons],
      List.forall_mem_cons.mpr ⟨hkind, hkinds⟩⟩

/-- **An expression of a kind** changes no variable, and its value is of the kind. -/
theorem HasKind.evaluate (h : e.HasKind p I kinds k) (hcalls : I.Respected p calls)
    (henv : kinds.Bound p env)
    (heval : Expr.evaluate (Emulation.arithmetic p) calls e env = .ok (v, env')) :
    env' = env ∧ v.HasKind p k := by
  induction h generalizing v env' with
  | @«variable» name format es k hk =>
    obtain ⟨hlookup, rfl⟩ := evaluate_var_eq_ok heval
    obtain ⟨k', hk', hkind⟩ := henv name v hlookup
    exact ⟨rfl, hk k' hk' ▸ hkind⟩
  | value h hk ih =>
    obtain ⟨rfl, hv⟩ := ih heval
    exact ⟨rfl, hv.isData hk⟩
  | fromBits coding =>
    obtain ⟨w, coding, hw, -, hv⟩ := evaluate_fromBits_eq_ok heval
    cases hw
    exact ⟨rfl, Emulation.hasKind_decode hv⟩
  | splat h ih =>
    obtain ⟨w, hw, hv⟩ := evaluate_unary_eq_ok rfl heval
    cases hv
    exact ih hw
  | arithmetic hop h ih =>
    obtain ⟨vs, hvs, hv⟩ := evaluate_operation_eq_ok hop.isControl heval
    obtain ⟨rfl, -, hkinds⟩ := evaluateAll_hasKind (fun a ha v env' h => ih a ha h) hvs
    exact ⟨rfl, Emulation.hasKind_operation hop hkinds hv⟩
  | isOdd h ih =>
    obtain ⟨w, hw, hv⟩ := evaluate_unary_eq_ok rfl heval
    obtain ⟨rfl, -⟩ := ih hw
    exact ⟨rfl, Emulation.hasKind_isOdd hv⟩
  | comparison ha hb iha ihb =>
    obtain ⟨a, b, env₁, holds, hva, hvb, -, rfl⟩ := evaluate_comparison_eq_ok heval
    obtain ⟨rfl, -⟩ := iha hva
    obtain ⟨rfl, -⟩ := ihb hvb
    exact ⟨rfl, holds, rfl⟩
  | select hc ha hb ihc iha ihb =>
    obtain ⟨c, env₁, a, env₂, b, hvc, hva, hvb, rfl⟩ := evaluate_select_eq_ok heval
    obtain ⟨rfl, -⟩ := ihc hvc
    obtain ⟨rfl, hka⟩ := iha hva
    obtain ⟨rfl, hkb⟩ := ihb hvb
    refine ⟨rfl, ?_⟩
    split
    · exact hka
    · exact hkb
  | tuple h ih =>
    obtain ⟨vs, hvs, rfl⟩ := evaluate_tuple_eq_ok heval
    obtain ⟨rfl, -, hkinds⟩ := evaluateAll_hasKind (fun a ha v env' h => ih a ha h) hvs
    exact ⟨rfl, vs, hkinds, rfl⟩
  | component h ih =>
    obtain ⟨w, hw, hv⟩ := evaluate_component_eq_ok heval
    obtain ⟨rfl, vs, hvs, rfl⟩ := ih hw
    exact ⟨rfl, hvs v (Value.mem_of_component hv)⟩
  | selection h ih =>
    obtain ⟨w, hw, hv⟩ := evaluate_component_eq_ok heval
    obtain ⟨rfl, hkind⟩ := ih hw
    exact ⟨rfl, hkind.component hv⟩
  | @call name es h hcall ih =>
    obtain ⟨f, vs, hf, hvs, hv⟩ := evaluate_call_eq_ok heval
    obtain ⟨rfl, hlength, hkinds⟩ := evaluateAll_hasKind (fun a ha v env' h => ih a ha h) hvs
    obtain ⟨g, hg, hrespect⟩ := hcalls name f hf
    obtain ⟨harity, hresult⟩ := hcall g hg
    exact ⟨rfl, hrespect hresult vs v hkinds (hlength.trans harity) hv⟩

/-- The **bodies of a kind**: lists of assignments up to the first result, which is of the kind. An
assignment gives its variable the kind of the value. -/
inductive BodyHasKind (p : Precision) (I : Interface) : Kinds → List Expr → Kind → Prop
  | nil {kinds : Kinds} {k : Kind} : BodyHasKind p I kinds [] k
  | assignment {kinds : Kinds} {name : String} {format : Option ResultFormat} {es rest : List Expr}
      {value : Expr} {kv k : Kind} (h : value.HasKind p I kinds kv)
      (hrest : BodyHasKind p I ((name, kv) :: kinds) rest k) :
      BodyHasKind p I kinds (node .assignment [node (.var name format) es, value] :: rest) k
  | result {kinds : Kinds} {value : Expr} {rest : List Expr} {k : Kind}
      (h : value.HasKind p I kinds k) : BodyHasKind p I kinds (node .result [value] :: rest) k

/-- **A body of a kind** with a result gives a value of the kind, if it gives one. -/
theorem BodyHasKind.evaluateSequence (h : BodyHasKind p I kinds es k)
    (hcalls : I.Respected p calls) (henv : kinds.Bound p env)
    (hresult : ∃ s ∈ es, s.op = .result)
    (heval : Expr.evaluateSequence (Emulation.arithmetic p) calls es env = .ok (v, env')) :
    v.HasKind p k := by
  induction h generalizing env with
  | nil =>
    obtain ⟨s, hs, -⟩ := hresult
    exact absurd hs List.not_mem_nil
  | @assignment kinds name _ _ _ _ _ _ h _ ih =>
    obtain ⟨w, env₁, hw, hrest⟩ := evaluateSequence_assignment_eq_ok heval
    obtain ⟨rfl, hkind⟩ := h.evaluate hcalls henv hw
    obtain ⟨s, hs, hop⟩ := hresult
    rcases List.mem_cons.mp hs with rfl | hs
    · cases hop
    · exact ih (henv.cons hkind name) ⟨s, hs, hop⟩ hrest
  | result h => exact (h.evaluate hcalls henv heval).2

end Expr

/-! ### Calls -/

/-- The **interface of some functions**, each giving values of a kind. -/
def Interface.of (functions : List GeneratedFunction) (results : String → Kind) : Interface :=
  ⟨GeneratedFunction.find? functions, results⟩

/-- **Functions with bodies of the right kinds**, whose arguments are numbers. -/
def WellKinded (p : Precision) (functions : List GeneratedFunction) (results : String → Kind) :
    Prop :=
  ∀ f ∈ functions, Expr.BodyHasKind p (.of functions results)
    (f.arguments.map fun name => (name, .number)) f.statements (results f.name)

/-- A function that is found has the name and is one of the functions. -/
theorem GeneratedFunction.find?_eq_some {functions : List GeneratedFunction} {name : String}
    {f : GeneratedFunction} (h : find? functions name = some f) :
    f ∈ functions ∧ f.name = name := by
  unfold find? at h
  have hname := List.find?_some h
  exact ⟨List.mem_reverse.mp (List.mem_of_find?_eq_some h), of_decide_eq_true hname⟩

namespace Emulation

variable {p : Precision} {names : List String} {values : List (Value Scalar)}
  {env : Bindings Scalar} {v w : Value Scalar}

/-- Data that can be an argument is a number, and **stays what it is**. -/
theorem argument_eq (hv : v.IsData p) (h : argument p v = .ok w) :
    w = v ∧ v.HasKind p .number := by
  cases hv with
  | number hx =>
    cases h
    exact ⟨by rw [inPrecision_binary hx], _, hx, rfl⟩
  | tuple => cases h

/-- **Bindings of arguments** that are data bind each argument to the number itself. -/
theorem bindArguments_eq (hvalues : ∀ v ∈ values, v.IsData p)
    (h : (arithmetic p).bindArguments names values = .ok env) :
    env = (names.zip values).reverse ∧ ∀ b ∈ env, b.2.HasKind p .number := by
  obtain ⟨bs, rfl, hbs⟩ := Arithmetic.bindArguments_eq_ok h
  have hsame : List.Forall₂ (fun b' b => b' = b ∧ b'.2.HasKind p .number) bs
      (names.zip values) := by
    refine (forall₂_and_mem hbs).imp ?_
    rintro b' b ⟨⟨hname, hw⟩, hmem⟩
    obtain ⟨hvalue, hkind⟩ := argument_eq (hvalues b.2 (List.of_mem_zip hmem).2) hw
    exact ⟨Prod.ext hname hvalue, hvalue ▸ hkind⟩
  have heq : List.Forall₂ (· = ·) bs (names.zip values) := hsame.imp fun _ _ h => h.1
  rw [List.forall₂_eq_eq_eq] at heq
  refine ⟨by rw [heq], fun b hb => ?_⟩
  obtain ⟨_, -, -, hkind⟩ := exists_of_forall₂ hsame (List.mem_reverse.mp hb)
  exact hkind

/-- Each of some names has the kind of all. -/
theorem lookup_map_of_mem {name : String} (k : Kind) (h : name ∈ names) :
    (names.map fun name => (name, k)).lookup name = some k := by
  induction names with
  | nil => exact absurd h List.not_mem_nil
  | cons other names ih =>
    rw [List.map_cons, List.lookup_cons]
    rcases List.mem_cons.mp h with rfl | h
    · rw [beq_self_eq_true]
    · cases name == other with
      | true => rfl
      | false => exact ih h

/-- **Arguments that are data** are bound to numbers. -/
theorem bound_arguments (hvalues : ∀ v ∈ values, v.IsData p)
    (h : (arithmetic p).bindArguments names values = .ok env) :
    Kinds.Bound p (names.map fun name => (name, Kind.number)) env := by
  obtain ⟨henv, hnumbers⟩ := bindArguments_eq hvalues h
  intro name v hv
  have hmem : (name, v) ∈ env := mem_of_lookup_eq_some hv
  refine ⟨.number, lookup_map_of_mem _ ?_, hnumbers (name, v) hmem⟩
  rw [henv, List.mem_reverse] at hmem
  exact (List.of_mem_zip hmem).1

end Emulation

namespace WellKinded

variable {p : Precision} {functions : List GeneratedFunction} {results : String → Kind}

/-- Functions that give values of their kinds respect their interface. -/
theorem respected_of {run : GeneratedFunction → List (Value Scalar) → Except Failure (Value Scalar)}
    (h : ∀ f ∈ functions, f.HasResult → ∀ values v, (∀ w ∈ values, w.IsData p) →
      run f values = .ok v → v.HasKind p (results f.name)) :
    (Interface.of functions results).Respected p fun name =>
      (GeneratedFunction.find? functions name).map run := by
  intro name f hname
  obtain ⟨g, hg, rfl⟩ := Option.map_eq_some_iff.mp hname
  obtain ⟨hmem, rfl⟩ := GeneratedFunction.find?_eq_some hg
  exact ⟨g, hg, fun hresult values v hvalues _ => h g hmem hresult values v hvalues⟩

/-- **Calls give values of the right kinds**, to any depth. -/
theorem call (h : WellKinded p functions results) (depth : Nat) :
    ∀ f ∈ functions, f.HasResult → ∀ values v, (∀ w ∈ values, w.IsData p) →
      (Emulation.arithmetic p).call (GeneratedFunction.find? functions) depth f values = .ok v →
      v.HasKind p (results f.name) := by
  induction depth with
  | zero =>
    intro f _ _ values v _ hcall
    cases hcall
  | succ depth ih =>
    intro f hf hresult values v hvalues hcall
    obtain ⟨env, env', henv, hw⟩ := Arithmetic.call_succ_eq_ok hcall
    exact (h f hf).evaluateSequence (respected_of ih) (Emulation.bound_arguments hvalues henv)
      hresult hw

end WellKinded

end Elementary
