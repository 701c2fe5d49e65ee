import Elementary.Proofs.Evaluation.Basic
import Elementary.Proofs.Evaluation.Denotation
import Elementary.Proofs.Evaluation.Steps

/-!
# Exact rational arithmetic

Apart from all rounding, an expression computes with rational numbers. This is the reference
arithmetic without a working precision: the same operations on the same operands, in which only a
conversion to a format rounds. Mathematical constants and functions are no rational numbers and
have no value here.

## Main definitions

* `Rational.arithmetic`: the arithmetic of rational numbers.
* `Expr.HasValue`: an expression has a value, under bindings that it leaves as they are.
* `Expr.Represents`: expressions in place of functions.

## Main results

* `Expr.HasValue.operation`: an operation on expressions that have values.
* `Reference.ringOperation_exact`, `Reference.mulAdd_exact`: what the reference arithmetic adds,
  subtracts and multiplies is the same, wherever it fits the working precision.
-/

namespace Elementary

namespace Rational

/-- The number of a value; a truth value is zero or one. -/
def ofValue : Value Rat → Except Failure Rat
  | .number q => .ok q
  | .truth b => .ok b.toInt
  | _ => .error (.wrongKind "a number is needed")

/-- A numeric operation on rational numbers. -/
def numberOperation (op : Op) (args : List Rat) : Except Failure (Value Rat) :=
  match op, args with
  | .constant n, [] => n.toRat.map .number
  | .bitPattern coding, [] => .ok (.number coding)
  | .splat _, [x] => .ok (.number x)
  | .conversion f, [x] => (Reference.convert x f).map .number
  | .isOdd, [x] => .ok (.truth (truncate x % 2 = 1))
  | .exponentInsertion, [x] => .ok (.number (pow2 (truncate x)))
  | .addition, [a, b] => .ok (.number (a + b))
  | .subtraction, [a, b] => .ok (.number (a - b))
  | .multiplication, [a, b] => .ok (.number (a * b))
  | .division, [a, b] => if b = 0 then .error .divisionByZero else .ok (.number (a / b))
  | .fusedMultiplyAdd, [a, b, c] => .ok (.number (a * b + c))
  | op, [x] =>
    match op.onNumber? with
    | some f => .ok (.number (f x))
    | none => .error (.notEvaluable "MPEvaluator" op.name)
  | op, _ => .error (.notEvaluable "MPEvaluator" op.name)

/-- A numeric operation on values. -/
def operation (op : Op) (args : List (Value Rat)) : Except Failure (Value Rat) :=
  match op, args with
  | .splat _, [v] => .ok v
  | op, args => do numberOperation op (← args.mapM ofValue)

/-- Numbers are operands as they are. -/
theorem operation_numbers (op : Op) (qs : List Rat) :
    operation op (qs.map .number) = numberOperation op qs := by
  have hoperands : (qs.map .number).mapM ofValue = .ok qs :=
    mapM_eq_ok.mpr (List.forall₂_map_left_iff.mpr (List.forall₂_same.mpr fun _ _ => rfl))
  unfold operation
  split
  · next f v h =>
    obtain ⟨q, rfl, rfl⟩ := List.map_eq_singleton_iff.mp h
    rfl
  · rw [hoperands, ok_bind]

/-- The number of a coding. -/
def decode (coding : Int) (format : Option ResultFormat) : Except Failure (Value Rat) :=
  match format with
  | some (.binary p) =>
    match p.format.decode? coding with
    | some q => .ok (.number q)
    | none => .error (.specialCoding (Text.hexMarked coding) p.name)
  | _ => .error (.missingPart "no binary format")

/-- The order of two values. -/
def order (a b : Value Rat) : Except Failure (Option Ordering) := do
  let (x, y) := (← ofValue a, ← ofValue b)
  return some (if x < y then .lt else if x = y then .eq else .gt)

/-- Whether a relation holds between two values. -/
def compare (r : Relation) (a b : Value Rat) : Except Failure Bool := do
  return match ← Value.order order a b with
    | some o => r.holds o
    | none => false

/-- The **arithmetic of rational numbers**. -/
def arithmetic : Arithmetic Rat where
  operation := operation
  decode := decode
  argument v := (ofValue v).map .number
  compare := compare
  isTrue q := q != 0
  selectionFailure _ := .wrongKind "a number has no components"

end Rational

/-! ### Values of expressions -/

namespace Expr

variable {calls : Calls Rat} {env : Bindings Rat} {op : Op} {e a b c : Expr} {es : List Expr}
  {q x y z : Rat} {qs : List Rat} {name : String} {n : Number}

/-- An expression **has a value** under bindings that it leaves as they are. -/
def HasValue (calls : Calls Rat) (env : Bindings Rat) (e : Expr) (q : Rat) : Prop :=
  e.evaluate Rational.arithmetic calls env = .ok (.number q, env)

/-- **An operation on expressions that have values.** -/
theorem HasValue.operation (hop : op.isControl = false)
    (hes : List.Forall₂ (HasValue calls env) es qs)
    (hq : Rational.numberOperation op qs = .ok (.number q)) :
    (node op es).HasValue calls env q := by
  have hvalues : List.Forall₂ (Gives Rational.arithmetic calls env) es (qs.map .number) :=
    List.forall₂_map_right_iff.mpr hes
  exact Gives.operation hop hvalues ((Rational.operation_numbers op qs).trans hq)

/-- An expression **represents a function** of a variable: wherever the variable is bound to a
number, it has the value of the function there. -/
def Represents (calls : Calls Rat) (name : String) (F : Rat → Rat) (e : Expr) : Prop :=
  ∀ env q, env.lookup name = some (.number q) → e.HasValue calls env (F q)

theorem HasValue.constant (h : n.toRat = .ok q) : (Expr.constant n).HasValue calls env q :=
  .operation rfl .nil (congrArg (Except.map Value.number) h)

theorem HasValue.var (h : env.lookup name = some (.number q)) :
    (Expr.var name).HasValue calls env q :=
  Gives.var h

theorem HasValue.mul (ha : a.HasValue calls env x) (hb : b.HasValue calls env y) :
    (a * b).HasValue calls env (x * y) :=
  .operation rfl (.cons ha (.cons hb .nil)) rfl

theorem HasValue.mulAdd (ha : a.HasValue calls env x) (hb : b.HasValue calls env y)
    (hc : c.HasValue calls env z) : (Expr.mulAdd a b c).HasValue calls env (x * y + z) :=
  .operation rfl (.cons ha (.cons hb (.cons hc .nil))) rfl

end Expr

/-! ### The reference arithmetic -/

namespace Reference

variable {ctx : Context} {op : Op} {a b c : Quantity} {x y z q : Rat} {as : List Quantity}
  {qs : List Rat}

/-- An operation on two quantities that denote numbers is one on integers, or one on finite
numbers of arbitrary precision. -/
theorem arithmeticOperation_cases (bits : Nat) (op : Op) (ha : a.Denotes x) (hb : b.Denotes y) :
    (∃ m n : Int, x = m ∧ y = n ∧
      arithmeticOperation bits op a b = integerOperation op m n) ∨
    ∃ u v : Dyadic, x = u.toRat ∧ y = v.toRat ∧
      arithmeticOperation bits op a b = realOperation bits op (.finite u) (.finite v) := by
  obtain ⟨u, hu, hx⟩ := ha.exists_real
  obtain ⟨v, hv, hy⟩ := hb.exists_real
  cases ha with
  | integer m =>
    cases hb with
    | integer n => exact .inl ⟨m, n, rfl, rfl, rfl⟩
    | real v => exact .inr ⟨_, v, hx.symm, rfl, by cases hu; rfl⟩
  | real u =>
    cases hb with
    | integer n => exact .inr ⟨u, _, rfl, hy.symm, by cases hv; rfl⟩
    | real v => exact .inr ⟨u, v, rfl, rfl, rfl⟩

/-- A dyadic that fits is rounded to itself. -/
theorem denotes_roundDyadic {bits : Nat} {u : Dyadic} (h : Fits bits u.toRat) :
    (Quantity.real (.finite (BigFloat.roundDyadic bits u))).Denotes u.toRat := by
  rw [BigFloat.roundDyadic_eq_self h]
  exact .real u

/-- An operation that takes integers to integers and rounds the dyadic result for other numbers is
exact when the result fits. -/
theorem exists_ringOperation {bits : Nat} (op : Op) {f : Rat → Rat → Rat}
    (hint : ∀ m n : Int, ∃ k : Int, integerOperation op m n = .ok (.integer k) ∧ k = f m n)
    (hreal : ∀ u v : Dyadic, ∃ w : Dyadic,
      realOperation bits op (.finite u) (.finite v) =
        .ok (.real (.finite (BigFloat.roundDyadic bits w))) ∧ w.toRat = f u.toRat v.toRat)
    (ha : a.Denotes x) (hb : b.Denotes y) (hfits : Fits bits (f x y)) :
    ∃ c, arithmeticOperation bits op a b = .ok c ∧ c.Denotes (f x y) := by
  rcases arithmeticOperation_cases bits op ha hb with
    ⟨m, n, rfl, rfl, hop⟩ | ⟨u, v, rfl, rfl, hop⟩
  · obtain ⟨k, hk, hvalue⟩ := hint m n
    rw [← hvalue]
    exact ⟨_, hop.trans hk, .integer k⟩
  · obtain ⟨w, hw, hvalue⟩ := hreal u v
    rw [← hvalue] at hfits ⊢
    exact ⟨_, hop.trans hw, denotes_roundDyadic hfits⟩

/-- **Sums, differences and products of the reference arithmetic are exact** when they fit the
working precision. -/
theorem ringOperation_exact (hop : op ∈ [.addition, .subtraction, .multiplication])
    (ha : a.Denotes x) (hb : b.Denotes y) (hfits : Fits ctx.bits q)
    (hq : Rational.numberOperation op [x, y] = .ok (.number q)) :
    ∃ c, quantityOperation ctx op [a, b] = .ok (.number c) ∧ c.Denotes q := by
  simp only [List.mem_cons, List.not_mem_nil, or_false] at hop
  rcases hop with rfl | rfl | rfl <;> cases hq
  · obtain ⟨c, hc, hdenotes⟩ := exists_ringOperation .addition (f := (· + ·))
      (fun m n => ⟨m + n, rfl, Int.cast_add m n⟩) (fun u v => ⟨u + v, rfl, Dyadic.toRat_add u v⟩)
      ha hb hfits
    exact ⟨c, by rw [quantityOperation, hc]; rfl, hdenotes⟩
  · have hneg (u v : Dyadic) : (u + -v).toRat = u.toRat - v.toRat := by
      rw [Dyadic.toRat_add, Dyadic.toRat_neg, sub_eq_add_neg]
    obtain ⟨c, hc, hdenotes⟩ := exists_ringOperation .subtraction (f := (· - ·))
      (fun m n => ⟨m - n, rfl, Int.cast_sub m n⟩) (fun u v => ⟨u + -v, rfl, hneg u v⟩) ha hb hfits
    exact ⟨c, by rw [quantityOperation, hc]; rfl, hdenotes⟩
  · obtain ⟨c, hc, hdenotes⟩ := exists_ringOperation .multiplication (f := (· * ·))
      (fun m n => ⟨m * n, rfl, Int.cast_mul m n⟩) (fun u v => ⟨u * v, rfl, Dyadic.toRat_mul u v⟩)
      ha hb hfits
    exact ⟨c, by rw [quantityOperation, hc]; rfl, hdenotes⟩

/-- **A product and a sum** of the reference arithmetic are exact when the sum fits the working
precision. -/
theorem mulAdd_exact (ha : a.Denotes x) (hb : b.Denotes y) (hc : c.Denotes z)
    (hfits : Fits ctx.bits (x * y + z)) :
    ∃ d, quantityOperation ctx .fusedMultiplyAdd [a, b, c] = .ok (.number d) ∧
      d.Denotes (x * y + z) := by
  obtain ⟨u, hu, rfl⟩ := ha.exists_real
  obtain ⟨v, hv, rfl⟩ := hb.exists_real
  obtain ⟨w, hw, rfl⟩ := hc.exists_real
  rw [← Dyadic.toRat_mul, ← Dyadic.toRat_add] at hfits ⊢
  exact ⟨_, by rw [quantityOperation, mulAdd, hu, hv, hw]; rfl, denotes_roundDyadic hfits⟩

end Reference

end Elementary
