import Elementary.Proofs.Evaluation.Constants
import Elementary.Proofs.Evaluation.Denotation
import Elementary.Proofs.Evaluation.Opposite
import Elementary.Proofs.Evaluation.Quantize
import Elementary.Proofs.Evaluation.Rational
import Elementary.Proofs.Format.Range

/-!
# Numbers in the emulation

In the emulation of a precision the value of an operation on numbers of the precision is again such
a number, which denotes the exact result, rounded once if it has to be rounded at all. So a
quantized expression is followed by the numbers that its operands denote, and where none of them is
rounded it is exact.

## Main definitions

* `Value.Denotes`: the number of a precision that a value denotes.
* `Expr.IsExactConstant`: constants that a number type takes as they are.
* `Expr.Denotes`: the number of a precision that a quantized expression denotes.

## Main results

* `Emulation.exists_addition`, `exists_subtraction`, `exists_multiplication`: rounded operations.
* `Emulation.exists_unary`, `exists_nearestInteger`, `exists_absolute`: operations without rounding.
* `Emulation.exists_coded_constant`: quantized constants.
* `Expr.Denotes.unary`, `Expr.Denotes.binary`, `Expr.Denotes.exact`, `Expr.Denotes.mulAdd`:
  operations on expressions.
* `Expr.isExactConstant_written`: the constants that the bodies write out are exact.
* `Rational.hasValue_constant`: exact constants in exact arithmetic.
-/

namespace Elementary

/-- A value **denotes a number of a precision**: it is a finite datum of the precision. -/
def Value.Denotes (p : Precision) (v : Value Scalar) (q : Rat) : Prop :=
  ∃ x : Datum, x.Denotes q ∧ x.IsMember p.format ∧ v = .number (.binary p x)

theorem Value.Denotes.has {p : Precision} {v : Value Scalar} {q : Rat} (h : v.Denotes p q) :
    p.Has q := by
  obtain ⟨x, hx, hmember, -⟩ := h
  exact ⟨x, hx, hmember⟩

/-- A value denotes **one number**. -/
theorem Value.Denotes.unique {p : Precision} {v : Value Scalar} {q s : Rat} (h : v.Denotes p q)
    (h' : v.Denotes p s) : q = s := by
  obtain ⟨x, hx, -, rfl⟩ := h
  obtain ⟨y, hy, -, heq⟩ := h'
  cases heq
  exact Option.some.inj (hx.toRat?_eq.symm.trans hy.toRat?_eq)

/-! ### Exact constants -/

/-- A constant is **exact in a number type**: it has a coding, and its value is a number of the
precision. -/
def Expr.IsExactConstant (nt : NumberType) (e : Expr) (q : Rat) : Prop :=
  ∃ n : Number, e = .constant n ∧ n.toRat = .ok q ∧ e.Codable nt ∧ nt.precision.Has q

/-- The constants that the bodies write out are exact **in every number type**. -/
theorem Expr.isExactConstant_written (nt : NumberType) :
    IsExactConstant nt 0 0 ∧ IsExactConstant nt 0.25 (1 / 4) ∧ IsExactConstant nt 0.5 (1 / 2) ∧
      IsExactConstant nt 1 1 ∧ IsExactConstant nt 1.5 (3 / 2) ∧ IsExactConstant nt 2.0 2 := by
  have hquarters : nt.precision.Has (((6 : Int) : Rat) / 4) :=
    Precision.has_quarters (by cases nt.precision <;> decide)
  have hthree : ((6 : Int) : Rat) / 4 = 3 / 2 := by norm_num
  rw [hthree] at hquarters
  exact ⟨⟨_, rfl, rfl, codable_of_all (by decide +kernel) nt, Precision.has_zero⟩,
    ⟨_, rfl, by decide +kernel, codable_of_all (by decide +kernel) nt, Precision.has_quarter⟩,
    ⟨_, rfl, by decide +kernel, codable_of_all (by decide +kernel) nt, Precision.has_half⟩,
    ⟨_, rfl, rfl, codable_of_all (by decide +kernel) nt, Precision.has_one⟩,
    ⟨_, rfl, by decide +kernel, codable_of_all (by decide +kernel) nt, hquarters⟩,
    ⟨_, rfl, by decide +kernel, codable_of_all (by decide +kernel) nt, Precision.has_two⟩⟩

namespace Emulation

variable {p : Precision} {nt : NumberType} {op : Op} {x y z : Datum} {v w : Value Scalar}
  {q s r : Rat} {f : Rat → Rat} {n : Number} {c : Nat}

/-! ### Data -/

/-- **An operation on two data** of the precision. -/
theorem operation_datum (hop : IsBinary op) (hx : x.IsMember p.format)
    (hy : y.IsMember p.format) :
    (arithmetic p).operation op [.number (.binary p x), .number (.binary p y)] =
      .ok (.number (.binary p (datumOperation p.format op x y))) := by
  have hscalars : (do return Value.number (← arithmeticOperation op (.binary p x) (.binary p y))) =
      (.ok (.number (.binary p (datumOperation p.format op x y))) :
        Except Failure (Value Scalar)) := by
    rw [arithmeticOperation_binary hx hy]
    rfl
  cases hop <;> exact hscalars

theorem operation_multiplication (hx : x.IsMember p.format) (hy : y.IsMember p.format) :
    (arithmetic p).operation .multiplication [.number (.binary p x), .number (.binary p y)] =
      .ok (.number (.binary p (x.mul p.format y))) :=
  operation_datum .multiplication hx hy

theorem operation_mulAdd (hx : x.IsMember p.format) (hy : y.IsMember p.format)
    (hz : z.IsMember p.format) :
    (arithmetic p).operation .fusedMultiplyAdd
        [.number (.binary p x), .number (.binary p y), .number (.binary p z)] =
      .ok (.number (.binary p ((x.mul p.format y).add p.format z))) := by
  have hproduct : arithmeticOperation .multiplication (.binary p x) (.binary p y) =
      .ok (.binary p (x.mul p.format y)) := arithmeticOperation_binary hx hy
  have hsum : arithmeticOperation .addition (.binary p (x.mul p.format y)) (.binary p z) =
      .ok (.binary p ((x.mul p.format y).add p.format z)) :=
    arithmeticOperation_binary (hx.mul hy) hz
  show (do
    let product ← arithmeticOperation .multiplication (.binary p x) (.binary p y)
    return Value.number (← arithmeticOperation .addition product (.binary p z))) = _
  rw [hproduct, ok_bind, hsum]
  rfl

/-! ### Numbers -/

/-- **A sum**, rounded once. -/
theorem exists_addition (hv : v.Denotes p q) (hw : w.Denotes p s)
    (h : |p.format.round (q + s)| ≤ p.format.maxValue) :
    ∃ u, (arithmetic p).operation .addition [v, w] = .ok u ∧
      u.Denotes p (p.format.round (q + s)) := by
  obtain ⟨x, hx, hxmember, rfl⟩ := hv
  obtain ⟨y, hy, hymember, rfl⟩ := hw
  exact ⟨_, operation_datum .addition hxmember hymember, _, hx.add hy h, Datum.isMember_add, rfl⟩

/-- **A difference**, rounded once. -/
theorem exists_subtraction (hv : v.Denotes p q) (hw : w.Denotes p s)
    (h : |p.format.round (q - s)| ≤ p.format.maxValue) :
    ∃ u, (arithmetic p).operation .subtraction [v, w] = .ok u ∧
      u.Denotes p (p.format.round (q - s)) := by
  obtain ⟨x, hx, hxmember, rfl⟩ := hv
  obtain ⟨y, hy, hymember, rfl⟩ := hw
  exact ⟨_, operation_datum .subtraction hxmember hymember, _, hx.sub hy h, Datum.isMember_sub, rfl⟩

/-- A difference that is a number of the precision is **not rounded**. -/
theorem exists_subtraction_exact (hv : v.Denotes p q) (hw : w.Denotes p s) (h : p.Has (q - s)) :
    ∃ u, (arithmetic p).operation .subtraction [v, w] = .ok u ∧ u.Denotes p (q - s) := by
  have hround := h.round_eq
  obtain ⟨u, hu, hdenotes⟩ := exists_subtraction hv hw (by rw [hround]; exact h.abs_le_maxValue)
  exact ⟨u, hu, hround ▸ hdenotes⟩

/-- **A product**, rounded once. -/
theorem exists_multiplication (hv : v.Denotes p q) (hw : w.Denotes p s)
    (h : |p.format.round (q * s)| ≤ p.format.maxValue) :
    ∃ u, (arithmetic p).operation .multiplication [v, w] = .ok u ∧
      u.Denotes p (p.format.round (q * s)) := by
  obtain ⟨x, hx, hxmember, rfl⟩ := hv
  obtain ⟨y, hy, hymember, rfl⟩ := hw
  exact ⟨_, operation_multiplication hxmember hymember, _, hx.mul hy h, hxmember.mul hymember, rfl⟩

/-- **A quotient**, rounded once. -/
theorem exists_division (hv : v.Denotes p q) (hw : w.Denotes p s) (hs : s ≠ 0)
    (h : |p.format.round (q / s)| ≤ p.format.maxValue) :
    ∃ u, (arithmetic p).operation .division [v, w] = .ok u ∧
      u.Denotes p (p.format.round (q / s)) := by
  obtain ⟨x, hx, hxmember, rfl⟩ := hv
  obtain ⟨y, hy, hymember, rfl⟩ := hw
  exact ⟨_, operation_datum .division hxmember hymember, _, hx.div hy hs h,
    hxmember.div hymember, rfl⟩

/-- **An operation on two numbers**: what exact arithmetic gives, rounded once. -/
theorem exists_binary (hop : IsBinary op) (hv : v.Denotes p q) (hw : w.Denotes p s)
    (hr : Rational.numberOperation op [q, s] = .ok (.number r))
    (h : |p.format.round r| ≤ p.format.maxValue) :
    ∃ u, (arithmetic p).operation op [v, w] = .ok u ∧ u.Denotes p (p.format.round r) := by
  cases hop with
  | addition => cases hr; exact exists_addition hv hw h
  | subtraction => cases hr; exact exists_subtraction hv hw h
  | multiplication => cases hr; exact exists_multiplication hv hw h
  | division =>
    rw [Rational.numberOperation] at hr
    split at hr
    · cases hr
    · next hs =>
      cases hr
      exact exists_division hv hw hs h

/-- **An operation that does not round**: it does to a number what it does exactly. -/
theorem exists_unary (hv : v.Denotes p q) (hop : op.onNumber? = some f) (hq : op.Accepts p q) :
    ∃ u, (arithmetic p).operation op [v] = .ok u ∧ u.Denotes p (f q) := by
  have hhas : p.Has (f q) := hv.has.onNumber hop hq
  obtain ⟨x, hx, hmember, rfl⟩ := hv
  suffices hdatum : ∃ y : Datum, (arithmetic p).operation op [.number (.binary p x)] =
      .ok (.number (.binary p y)) ∧ y.Denotes (f q) by
    obtain ⟨y, hy, hdenotes⟩ := hdatum
    exact ⟨_, hy, y, hdenotes, hdenotes.isMember_of_has hhas, rfl⟩
  cases op <;> cases hop
  case negation => exact ⟨_, rfl, hx.neg⟩
  case absolute => exact ⟨_, rfl, hx.abs⟩
  case nearestInteger => exact ⟨_, rfl, hx.nearestInteger⟩
  case floor => exact ⟨_, rfl, hx.floor⟩
  case exponentInsertion =>
    obtain ⟨n, rfl, hlow, hhigh⟩ := hq
    have hpower := powerOfTwo_eq ⟨x, hx, hmember⟩ (.binary p.wider_self hx) hlow hhigh
    refine ⟨.finite false (pow2 n), ?_, ?_⟩
    · show (do return Value.number (← powerOfTwo p (.binary p x))) = _
      rw [hpower]
      rfl
    · dsimp only
      rw [Rat.floor_intCast]
      exact .finite false (pow2_pos n).le
  case exponentExtraction =>
    refine ⟨_, rfl, ?_⟩
    show ((Scalar.integer x.exponent).inPrecision p).Denotes _
    rw [hx.exponent_eq hq]
    exact (Scalar.Denotes.integer (p := p) _).inPrecision hhas p.wider_self
  case mantissaExtraction =>
    refine ⟨x.mantissa, ?_, hx.mantissa hq⟩
    show Except.ok (Value.number (Scalar.binary (p.wider p) x.mantissa)) = _
    rw [p.wider_self]

/-- **The nearest integer**. -/
theorem exists_nearestInteger (hv : v.Denotes p q) :
    ∃ u, (arithmetic p).operation .nearestInteger [v] = .ok u ∧
      u.Denotes p (roundHalfEven q : Int) :=
  exists_unary hv (show Op.nearestInteger.onNumber? = some _ from rfl) trivial

/-- **The magnitude**. -/
theorem exists_absolute (hv : v.Denotes p q) :
    ∃ u, (arithmetic p).operation .absolute [v] = .ok u ∧ u.Denotes p |q| := by
  rw [← rat_abs_eq]
  exact exists_unary hv (show Op.absolute.onNumber? = some _ from rfl) trivial

/-- Whether an integer is **odd**. -/
theorem operation_isOdd {k : Int} (hv : v.Denotes p k) :
    (arithmetic p).operation .isOdd [v] = .ok (.truth (decide (k % 2 = 1))) := by
  obtain ⟨x, hx, -, rfl⟩ := hv
  exact congrArg (fun b => Except.ok (Value.truth b)) hx.isOdd_eq

/-- **A comparison** of two numbers. -/
theorem compare_eq (relation : Relation) (hv : v.Denotes p q) (hw : w.Denotes p s) :
    (arithmetic p).compare relation v w = .ok (relation.between q s) := by
  obtain ⟨x, hx, hxmember, rfl⟩ := hv
  obtain ⟨y, hy, hymember, rfl⟩ := hw
  have horder := order_exact (v := .number (.binary p x)) (w := .number (.binary p y)) rfl rfl
    ⟨x, hx, hxmember⟩ ⟨y, hy, hymember⟩ (.binary p.wider_self hx) (.binary p.wider_self hy)
  rw [← relation.holds_order]
  show compare _ _ _ = _
  rw [compare, Value.order, horder, ok_bind]
  · rfl
  · rintro _ _ h
    cases h

/-- **A number of the precision as an argument** stays as it is. -/
theorem argument_binary (hx : x.IsMember p.format) :
    (arithmetic p).argument (.number (.binary p x)) = .ok (.number (.binary p x)) := by
  show Except.ok (Value.number (Scalar.binary p ((Scalar.binary p x).inPrecision p))) = _
  rw [inPrecision_binary hx]

/-- **A quantized constant** denotes its number, rounded once. -/
theorem exists_coded_constant (hc : nt.codingOutcome n = .ok c) (hq : n.toRat = .ok q) :
    ∃ v, v.Denotes nt.precision (nt.precision.format.round q) ∧
      ∀ calls env, ((Expr.constant n).coded nt).Gives (arithmetic nt.precision) calls env v := by
  have hcoding := NumberType.coding?_of_codingOutcome hc
  obtain ⟨q', hq', hencode⟩ := NumberType.coding?_eq_some_iff.mp hcoding
  cases hq.symm.trans hq'
  refine ⟨_, ⟨_, Datum.denotes_ofCoding (Format.decode?_of_encode? hencode),
    Datum.isMember_ofCoding _ c, rfl⟩, fun calls env => ?_⟩
  rw [Expr.constant, Expr.coded_of_number?_eq_some rfl hcoding]
  exact evaluate_literal (Format.encode?_lt hencode)

/-- An exact constant is **not rounded**. -/
theorem exists_coded_exact {e : Expr} (he : e.IsExactConstant nt q) :
    ∃ v, v.Denotes nt.precision q ∧
      ∀ calls env, (e.coded nt).Gives (arithmetic nt.precision) calls env v := by
  obtain ⟨n, rfl, hn, hcodable, hq⟩ := he
  obtain ⟨c, hc⟩ := Expr.codable_constant.mp hcodable
  have hconstant := exists_coded_constant hc hn
  rwa [hq.round_eq] at hconstant

end Emulation

/-! ### Expressions -/

namespace Expr

variable {nt : NumberType} {env : Bindings Scalar} {op : Op} {a b e : Expr} {q s r : Rat}
  {f : Rat → Rat} {n : Number} {v : Value Scalar} {name : String}

/-- A quantized expression **denotes a number** under bindings: it gives a value that does. -/
def Denotes (nt : NumberType) (env : Bindings Scalar) (e : Expr) (q : Rat) : Prop :=
  ∃ v : Value Scalar, v.Denotes nt.precision q ∧
    ∀ calls, (e.coded nt).Gives (Emulation.arithmetic nt.precision) calls env v

namespace Denotes

theorem has (h : e.Denotes nt env q) : nt.precision.Has q := by
  obtain ⟨v, hv, -⟩ := h
  exact hv.has

theorem var {format : Option ResultFormat} (hv : v.Denotes nt.precision q)
    (h : env.lookup name = some v) : (node (.var name format) []).Denotes nt env q :=
  ⟨v, hv, fun _ => (changesConstants_coded nt).gives_var h⟩

/-- **A constant**, rounded once. -/
theorem constant (hcodable : (Expr.constant n).Codable nt) (hn : n.toRat = .ok q) :
    (Expr.constant n).Denotes nt env (nt.precision.format.round q) := by
  obtain ⟨c, hc⟩ := codable_constant.mp hcodable
  obtain ⟨v, hv, hgives⟩ := Emulation.exists_coded_constant hc hn
  exact ⟨v, hv, fun calls => hgives calls env⟩

/-- An exact constant is **not rounded**. -/
theorem exact_constant (he : e.IsExactConstant nt q) : e.Denotes nt env q := by
  obtain ⟨v, hv, hgives⟩ := Emulation.exists_coded_exact he
  exact ⟨v, hv, fun calls => hgives calls env⟩

theorem half : (0.5 : Expr).Denotes nt env (1 / 2) :=
  exact_constant (isExactConstant_written nt).2.2.1

theorem one : (1 : Expr).Denotes nt env 1 :=
  exact_constant (isExactConstant_written nt).2.2.2.1

theorem two : (2.0 : Expr).Denotes nt env 2 :=
  exact_constant (isExactConstant_written nt).2.2.2.2.2

/-- **An operation that does not round.** -/
theorem unary (ha : a.Denotes nt env q) (hop : op.onNumber? = some f)
    (hq : op.Accepts nt.precision q) : (node op [a]).Denotes nt env (f q) := by
  obtain ⟨v, hv, hgives⟩ := ha
  obtain ⟨u, hu, hdenotes⟩ := Emulation.exists_unary hv hop hq
  have hkind : op.isControl = false ∧ op.number? = none := by
    cases op <;> cases hop <;> exact ⟨rfl, rfl⟩
  exact ⟨u, hdenotes, fun calls =>
    (changesConstants_coded nt).gives_unary hkind.1 hkind.2 (hgives calls) hu⟩

/-- **An operation on two numbers**, rounded once. -/
theorem binary (ha : a.Denotes nt env q) (hop : Emulation.IsBinary op) (hb : b.Denotes nt env s)
    (hr : Rational.numberOperation op [q, s] = .ok (.number r))
    (h : |nt.precision.format.round r| ≤ nt.precision.format.maxValue) :
    (node op [a, b]).Denotes nt env (nt.precision.format.round r) := by
  obtain ⟨v, hv, hgives⟩ := ha
  obtain ⟨w, hw, hgives'⟩ := hb
  obtain ⟨u, hu, hdenotes⟩ := Emulation.exists_binary hop hv hw hr h
  have hnumber : op.number? = none := by cases hop <;> rfl
  exact ⟨u, hdenotes, fun calls => (changesConstants_coded nt).gives_binary hop.isControl hnumber
    (hgives calls) (hgives' calls) hu⟩

/-- An operation whose result is a number of the precision is **not rounded**. -/
theorem exact (ha : a.Denotes nt env q) (hop : Emulation.IsBinary op) (hb : b.Denotes nt env s)
    (hr : Rational.numberOperation op [q, s] = .ok (.number r)) (h : nt.precision.Has r) :
    (node op [a, b]).Denotes nt env r := by
  have hround := h.round_eq
  have hbinary := ha.binary hop hb hr (by rw [hround]; exact h.abs_le_maxValue)
  rwa [hround] at hbinary

/-- **A product and a sum**, each rounded once. -/
theorem mulAdd {c : Expr} (ha : a.Denotes nt env q) (hb : b.Denotes nt env s)
    (hc : c.Denotes nt env r)
    (hproduct : |nt.precision.format.round (q * s)| ≤ nt.precision.format.maxValue)
    (hsum : |nt.precision.format.round (nt.precision.format.round (q * s) + r)| ≤
      nt.precision.format.maxValue) :
    (Expr.mulAdd a b c).Denotes nt env
      (nt.precision.format.round (nt.precision.format.round (q * s) + r)) := by
  obtain ⟨_, ⟨x, hx, hxmember, rfl⟩, hgives⟩ := ha
  obtain ⟨_, ⟨y, hy, hymember, rfl⟩, hgives'⟩ := hb
  obtain ⟨_, ⟨z, hz, hzmember, rfl⟩, hgives''⟩ := hc
  refine ⟨_, ⟨_, (hx.mul hy hproduct).add hz hsum, Datum.isMember_add, rfl⟩, fun calls => ?_⟩
  rw [Expr.mulAdd, changesConstants_coded nt _ _ rfl]
  exact .operation rfl (.cons (hgives calls) (.cons (hgives' calls) (.cons (hgives'' calls) .nil)))
    (Emulation.operation_mulAdd hxmember hymember hzmember)

/-- **The exponent** of a positive number. -/
theorem exponent (h : e.Denotes nt env q) (hq : 0 < q) :
    (exponentExtraction e).Denotes nt env (floorLog2 q : Int) := by
  have hexponent := h.unary (show Op.exponentExtraction.onNumber? = some _ from rfl) hq.ne'
  rwa [Rat.abs_of_nonneg hq.le] at hexponent

/-- **The mantissa** of a positive number. -/
theorem mantissa (h : e.Denotes nt env q) (hq : 0 < q) :
    (mantissaExtraction e).Denotes nt env (q * pow2 (-floorLog2 q)) := by
  have hmantissa := h.unary (show Op.mantissaExtraction.onNumber? = some _ from rfl) hq.ne'
  rwa [Rat.abs_of_nonneg hq.le] at hmantissa

/-- **A power of two** in the range of the exponents. -/
theorem powerOfTwo {k : Int} (h : e.Denotes nt env k)
    (hlow : nt.precision.format.minSubnormalExponent ≤ k)
    (hhigh : k ≤ nt.precision.format.maxExponent) :
    (exponentInsertion e).Denotes nt env (pow2 k) := by
  have hpower := h.unary (show Op.exponentInsertion.onNumber? = some _ from rfl) ⟨k, rfl, hlow, hhigh⟩
  rwa [Rat.floor_intCast] at hpower

end Denotes

end Expr

/-! ### Exact arithmetic -/

namespace Rational

/-- **A comparison** of two numbers in exact arithmetic. -/
theorem compare_numbers (r : Relation) (x y : Rat) :
    arithmetic.compare r (.number x) (.number y) = .ok (r.between x y) :=
  congrArg Except.ok (r.holds_order x y)

section Quantized

variable {τ : Expr → Expr} {nt : NumberType} {a e : Expr} {q : Rat}
  (hτ : τ = id ∨ τ = Expr.coded nt) (calls : Calls Rat) (env : Bindings Rat)

include hτ

/-- An exact constant has its value in exact arithmetic, **quantized or not**. -/
theorem hasValue_constant (he : e.IsExactConstant nt q) : (τ e).HasValue calls env q := by
  obtain ⟨n, rfl, hn, hcodable, hq⟩ := he
  rcases hτ with rfl | rfl
  · exact .constant hn
  · obtain ⟨c, hc⟩ := Expr.codable_constant.mp hcodable
    obtain ⟨q', hq', hencode⟩ :=
      NumberType.coding?_eq_some_iff.mp (NumberType.coding?_of_codingOutcome hc)
    cases hn.symm.trans hq'
    have hdecode : decode c nt.formatAttribute = .ok (.number q) := by
      rw [NumberType.formatAttribute, decode, Format.decode?_of_encode? hencode, hq.round_eq]
    exact gives_coded_constant hc rfl hdecode rfl

theorem hasValue_zero : (τ 0).HasValue calls env 0 :=
  hasValue_constant hτ calls env (Expr.isExactConstant_written nt).1

theorem hasValue_quarter : (τ 0.25).HasValue calls env (1 / 4) :=
  hasValue_constant hτ calls env (Expr.isExactConstant_written nt).2.1

theorem hasValue_half : (τ 0.5).HasValue calls env (1 / 2) :=
  hasValue_constant hτ calls env (Expr.isExactConstant_written nt).2.2.1

theorem hasValue_one : (τ 1).HasValue calls env 1 :=
  hasValue_constant hτ calls env (Expr.isExactConstant_written nt).2.2.2.1

theorem hasValue_three_halves : (τ 1.5).HasValue calls env (3 / 2) :=
  hasValue_constant hτ calls env (Expr.isExactConstant_written nt).2.2.2.2.1

theorem hasValue_two : (τ 2.0).HasValue calls env 2 :=
  hasValue_constant hτ calls env (Expr.isExactConstant_written nt).2.2.2.2.2

variable {calls : Calls Rat} {env : Bindings Rat}

/-- **The magnitude** of a number. -/
theorem hasValue_absolute (ha : (τ a).HasValue calls env q) :
    (τ (Expr.absolute a)).HasValue calls env |q| := by
  rw [← rat_abs_eq]
  exact (changesConstants_of_quantized hτ).gives_absolute ha rfl

/-- **The exponent** of a number. -/
theorem hasValue_exponent (ha : (τ a).HasValue calls env q) :
    (τ (Expr.exponentExtraction a)).HasValue calls env (floorLog2 |q| : Int) := by
  rw [← rat_abs_eq]
  exact (changesConstants_of_quantized hτ).gives_unary rfl rfl ha rfl

/-- **The mantissa** of a number. -/
theorem hasValue_mantissa (ha : (τ a).HasValue calls env q) :
    (τ (Expr.mantissaExtraction a)).HasValue calls env (q * pow2 (-floorLog2 |q|)) := by
  rw [← rat_abs_eq]
  exact (changesConstants_of_quantized hτ).gives_unary rfl rfl ha rfl

/-- **A power of two.** -/
theorem hasValue_powerOfTwo {k : Int} (ha : (τ a).HasValue calls env k) :
    (τ (Expr.exponentInsertion a)).HasValue calls env (pow2 k) := by
  have hpower : arithmetic.operation .exponentInsertion [.number (k : Rat)] =
      .ok (.number (pow2 k)) := by
    show Except.ok (Value.number (pow2 (truncate (k : Rat)))) = _
    rw [truncate_intCast]
  exact (changesConstants_of_quantized hτ).gives_unary rfl rfl ha hpower

/-- The **inverse of a power of two.** -/
theorem hasValue_powerOfTwo_neg {k : Int} (ha : (τ a).HasValue calls env k) :
    (τ (Expr.exponentInsertion (-a))).HasValue calls env (pow2 (-k)) := by
  refine hasValue_powerOfTwo hτ ?_
  rw [Int.cast_neg]
  exact (changesConstants_of_quantized hτ).gives_neg ha rfl

end Quantized

end Rational

end Elementary
