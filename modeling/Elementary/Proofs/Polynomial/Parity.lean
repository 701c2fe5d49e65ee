import Elementary.Proofs.BigFloat.Rounding
import Elementary.Proofs.Format.Opposite
import Elementary.Proofs.Polynomial.Horner
import Elementary.Proofs.Polynomial.Scheme

/-!
# Parity in rounded arithmetic

Rounding to nearest does not see signs. So the scheme of an odd polynomial gives opposite values at
opposite numbers, and that of an even polynomial the same value, without any error: the chain of
multiply-adds runs over the square, which is rounded to one number on both sides, and an odd scheme
multiplies what the chain gives by its variable. It does not matter how a multiply-add is rounded,
or whether something overflowed.

The evaluation in written numbers joins the coefficients over the number itself, those of missing
degrees included. There the values on both sides are opposite at every second degree, which the
coefficients of the other degrees, being zero, do not disturb.

## Main definitions

* `Parity.mirror`: the value at the opposite number that a parity asks for.
* `Expr.MirroredAt`: an expression has a value at a number, and the mirrored one at its opposite.
* `SignSymmetric`: products that do not see signs.

## Main results

* `SignSymmetric.mirroredAt_horner`: schemes in an arithmetic whose products do not see signs.
* `Polynomial.exists_foldlM_mirrored`: the loop over all degrees.
* `Polynomial.horner_mirrored`: schemes, quantized or not, and the evaluation in written numbers.
-/

namespace Elementary

/-- The value at the opposite number that a **parity** asks for: the opposite one if it is odd, the
same if it is even. -/
def Parity.mirror {α : Type} (parity : Parity) (negate : α → α) (a : α) : α :=
  match parity with
  | .odd => negate a
  | _ => a

/-- An expression in one variable is **mirrored at a number**: in every scope it has a value there,
and the mirrored value at the opposite number. -/
def Expr.MirroredAt {κ ν : Type} (A : Arithmetic ν) (number : κ → ν) (negate : κ → κ)
    (parity : Parity) (name : String) (e : Expr) (x : κ) : Prop :=
  ∀ (calls : Calls ν) (env : Bindings ν), ∃ y,
    e.Gives A calls ((name, .number (number x)) :: env) (.number (number y)) ∧
    e.Gives A calls ((name, .number (number (negate x))) :: env)
      (.number (number (parity.mirror negate y)))

/-- An arithmetic whose **products do not see signs**, on numbers of some kind: a product with an
opposite factor is opposite, a square is the same, and products are added to something. -/
structure SignSymmetric {κ ν : Type} (A : Arithmetic ν) (number : κ → ν) (negate : κ → κ)
    (IsNumber : κ → Prop) : Prop where
  mul : ∀ x y, IsNumber x → IsNumber y → ∃ z, IsNumber z ∧
    A.operation .multiplication [.number (number x), .number (number y)] =
      .ok (.number (number z)) ∧
    A.operation .multiplication [.number (number (negate x)), .number (number y)] =
      .ok (.number (number (negate z)))
  square : ∀ x, IsNumber x →
    A.operation .multiplication [.number (number (negate x)), .number (number (negate x))] =
      A.operation .multiplication [.number (number x), .number (number x)]
  mulAdd : ∀ x y z, IsNumber x → IsNumber y → IsNumber z → ∃ w, IsNumber w ∧
    A.operation .fusedMultiplyAdd [.number (number x), .number (number y), .number (number z)] =
      .ok (.number (number w))

/-! ### Schemes -/

namespace Polynomial

variable {p : Polynomial Number} {Q : Expr → Prop} {parity : Parity} {name : String}
  {power e : Expr} {nt : NumberType}

/-- **The scheme of a parity** is a chain over the square, in odd ones multiplied by the
variable. The coefficients of the chain are those of the polynomial. -/
theorem exists_horner_eq (hparity : parity ≠ .none)
    (hdegrees : ∀ m ∈ p.coefficients, parity.Admits m.1) (name : String) :
    ∃ inner : Polynomial Number,
      (∀ P : Number → Prop, P 0 → (∀ m ∈ p.coefficients, P m.2) →
        ∀ d, P (inner.coefficient d)) ∧
      p.horner name parity = .ok (parity.mirror (Expr.var name * ·)
        (inner.denseHorner (Expr.var name * Expr.var name))) := by
  have hall {P : Number → Prop} {q : Polynomial Number} (h : ∀ m ∈ q.coefficients, P m.2) :
      ∀ m ∈ q.halveDegrees.coefficients, P m.2 :=
    forall_ofList (List.forall_mem_map.mpr h)
  cases parity with
  | odd =>
    refine ⟨(p.select (fun _ _ => true) (-1)).halveDegrees,
      fun P hzero h => coefficient_of_forall hzero (hall (forall_ofList ?_)), ?_⟩
    · exact List.forall_mem_map.mpr fun m hm => h m (List.mem_of_mem_filter hm)
    · exact if_pos (List.all_eq_true.mpr fun m hm => decide_eq_true (hdegrees m hm))
  | even =>
    exact ⟨p.halveDegrees, fun P hzero h => coefficient_of_forall hzero (hall h),
      if_pos (List.all_eq_true.mpr fun m hm => decide_eq_true (hdegrees m hm))⟩
  | none => exact absurd rfl hparity

/-- A scheme is codable when the coefficients are. -/
theorem codable_horner (hparity : parity ≠ .none)
    (hdegrees : ∀ m ∈ p.coefficients, parity.Admits m.1)
    (hcodings : ∀ m ∈ p.coefficients, (Expr.constant m.2).Codable nt)
    (he : p.horner name parity = .ok e) : e.Codable nt := by
  obtain ⟨inner, hinner, hscheme⟩ := exists_horner_eq hparity hdegrees name
  have hvar : (Expr.var name).Codable nt := (Expr.codable_operation rfl).mpr nofun
  have hproduct {a b : Expr} (ha : a.Codable nt) (hb : b.Codable nt) : (a * b).Codable nt :=
    (Expr.codable_operation rfl).mpr (by simpa using ⟨ha, hb⟩)
  have hconstant (d : Int) : (Expr.constant (inner.coefficient d)).Codable nt :=
    hinner (fun n => (Expr.constant n).Codable nt) (Expr.codable_zero nt) hcodings d
  have hchain : (inner.denseHorner (Expr.var name * Expr.var name)).Codable nt :=
    denseHorner_of_forall (Q := Expr.Codable nt) hconstant fun scheme d hscheme =>
      (Expr.codable_operation rfl).mpr (by simpa using ⟨hscheme, hproduct hvar hvar, hconstant d⟩)
  cases he.symm.trans hscheme
  cases parity with
  | odd => exact hproduct hvar hchain
  | even => exact hchain
  | none => exact absurd rfl hparity

end Polynomial

namespace SignSymmetric

variable {κ ν : Type} {A : Arithmetic ν} {number : κ → ν} {negate : κ → κ} {IsNumber : κ → Prop}
  {calls : Calls ν} {env : Bindings ν} {p : Polynomial Number} {parity : Parity} {name : String}
  {τ : Expr → Expr} {power e : Expr} {u x : κ}

/-- An expression gives one number **in every scope**. -/
def IsConstant (A : Arithmetic ν) (number : κ → ν) (IsNumber : κ → Prop) (e : Expr) : Prop :=
  ∀ calls, ∃ y, IsNumber y ∧ ∀ env, e.Gives A calls env (.number (number y))

/-- **A chain** gives a number that depends on the value of the power alone. -/
theorem exists_denseHorner (hA : SignSymmetric A number negate IsNumber) (hτ : ChangesConstants τ)
    (hconstant : ∀ d, IsConstant A number IsNumber (τ (.constant (p.coefficient d))))
    (hu : IsNumber u) (calls : Calls ν) (power : Expr) :
    ∃ y, IsNumber y ∧ ∀ env, (τ power).Gives A calls env (.number (number u)) →
      (τ (p.denseHorner power)).Gives A calls env (.number (number y)) := by
  refine Polynomial.denseHorner_of_forall (Q := fun scheme => ∃ y, IsNumber y ∧ ∀ env,
    (τ power).Gives A calls env (.number (number u)) →
      (τ scheme).Gives A calls env (.number (number y))) (fun d => ?_) ?_
  · obtain ⟨y, hy, hgives⟩ := hconstant d calls
    exact ⟨y, hy, fun env _ => hgives env⟩
  · rintro scheme d ⟨y, hy, hscheme⟩
    obtain ⟨c, hc, hcoefficient⟩ := hconstant d calls
    obtain ⟨z, hz, hstep⟩ := hA.mulAdd y u c hy hu hc
    refine ⟨z, hz, fun env hpower => ?_⟩
    rw [Expr.mulAdd, hτ _ _ rfl]
    exact .operation rfl (.cons (hscheme env hpower) (.cons hpower (.cons (hcoefficient env) .nil)))
      hstep

/-- **Schemes are mirrored** where products do not see signs. -/
theorem mirroredAt_horner (hA : SignSymmetric A number negate IsNumber) (hτ : ChangesConstants τ)
    (hparity : parity ≠ .none) (hdegrees : ∀ m ∈ p.coefficients, parity.Admits m.1)
    (hzero : IsConstant A number IsNumber (τ (.constant 0)))
    (hconstants : ∀ m ∈ p.coefficients, IsConstant A number IsNumber (τ (.constant m.2)))
    (he : p.horner name parity = .ok e) (hx : IsNumber x) :
    (τ e).MirroredAt A number negate parity name x := by
  intro calls env
  obtain ⟨inner, hinner, hscheme⟩ := Polynomial.exists_horner_eq hparity hdegrees name
  cases he.symm.trans hscheme
  obtain ⟨u, hu, hsquare, -⟩ := hA.mul x x hx hx
  obtain ⟨y, hy, hchain⟩ := hA.exists_denseHorner hτ
    (hinner (fun n => IsConstant A number IsNumber (τ (.constant n))) hzero hconstants) hu calls
    (Expr.var name * Expr.var name)
  have hvar (x : κ) : (τ (Expr.var name)).Gives A calls ((name, .number (number x)) :: env)
      (.number (number x)) := by
    rw [Expr.var, hτ _ _ rfl]
    exact .var List.lookup_cons_self
  -- the chain gives one value on both sides, where the square has one value
  have hvalue := hchain _ (hτ.gives_mul (hvar x) (hvar x) hsquare)
  have hopposite := hchain _
    (hτ.gives_mul (hvar (negate x)) (hvar (negate x)) ((hA.square x hx).trans hsquare))
  cases parity with
  | odd =>
    obtain ⟨z, -, hz, hnegated⟩ := hA.mul x y hx hy
    exact ⟨z, hτ.gives_mul (hvar x) hvalue hz, hτ.gives_mul (hvar (negate x)) hopposite hnegated⟩
  | even => exact ⟨y, hvalue, hopposite⟩
  | none => exact absurd rfl hparity

end SignSymmetric

/-! ### The two evaluators -/

namespace Reference

variable {ctx : Context} {calls : Calls Quantity} {nt : NumberType} {n : Number} {q : Rat} {c : Nat}

/-- A finite number of arbitrary precision. -/
def finite (d : Dyadic) : Quantity := .real (.finite d)

theorem operation_multiplication (d d' : Dyadic) :
    (arithmeticIn ctx).operation .multiplication [.number (finite d), .number (finite d')] =
      .ok (.number (finite (BigFloat.roundDyadic ctx.bits (d * d')))) := rfl

/-- **Products of the reference arithmetic** do not see signs. -/
theorem signSymmetric (ctx : Context) :
    SignSymmetric (arithmeticIn ctx) finite (fun d => -d) fun _ => True where
  mul d d' _ _ := by
    refine ⟨_, trivial, operation_multiplication d d', ?_⟩
    rw [operation_multiplication, Dyadic.neg_mul, BigFloat.roundDyadic_neg]
  square d _ := by
    have hproduct : -d * -d = d * d := by grind
    rw [operation_multiplication, operation_multiplication, hproduct]
  mulAdd _ _ _ _ _ _ := ⟨_, trivial, rfl⟩

theorem isConstant_number (h : n.toRat = .ok q) :
    SignSymmetric.IsConstant (arithmeticIn ctx) finite (fun _ => True) (.constant n) := by
  intro calls
  obtain ⟨d, hd⟩ := BigFloat.isFinite_ofRat ctx.bits q
  refine ⟨d, trivial, fun env => .operation rfl .nil ?_⟩
  show (do return Value.number (Quantity.real (.ofRat ctx.bits (← n.toRat)))) = _
  rw [h, ok_bind, hd]
  rfl

theorem isConstant_coded (h : nt.codingOutcome n = .ok c) :
    SignSymmetric.IsConstant (arithmeticIn ctx) finite (fun _ => True)
      ((Expr.constant n).coded nt) := by
  intro calls
  have hcoding := NumberType.coding?_of_codingOutcome h
  obtain ⟨q, -, hq⟩ := NumberType.coding?_eq_some_iff.mp hcoding
  obtain ⟨d, hd⟩ := BigFloat.isFinite_ofRat ctx.bits (nt.precision.format.round q)
  have hdecode : decode ctx c nt.formatAttribute = .ok (.number (finite d)) := by
    rw [NumberType.formatAttribute, decode, Format.decode?_of_encode? hq]
    dsimp only
    rw [hd]
    rfl
  exact ⟨d, trivial, fun env => gives_coded_constant h rfl hdecode rfl⟩

end Reference

namespace Emulation

variable {nt : NumberType} {p : Precision} {n : Number} {c : Nat} {x y z : Datum}

/-- **Products of the emulation** do not see signs. -/
theorem signSymmetric (p : Precision) :
    SignSymmetric (arithmetic p) (Scalar.binary p) Datum.neg (·.IsMember p.format) where
  mul x y hx hy := by
    refine ⟨_, hx.mul hy, operation_multiplication hx hy, ?_⟩
    rw [← Datum.neg_mul]
    exact operation_multiplication hx.neg hy
  square x hx := by
    rw [operation_multiplication hx hx, operation_multiplication hx.neg hx.neg,
      (Datum.opposite_neg x).mul_self]
  mulAdd _ _ _ hx hy hz := ⟨_, Datum.isMember_add, operation_mulAdd hx hy hz⟩

theorem isConstant_number (h : nt.codingOutcome n = .ok c) :
    SignSymmetric.IsConstant (arithmetic nt.precision) (Scalar.binary nt.precision)
      (·.IsMember nt.precision.format) (.constant n) := fun _ =>
  ⟨_, Datum.isMember_ofCoding _ c, fun _ =>
    evaluate_constant rfl (NumberType.coding?_of_codingOutcome h)⟩

theorem isConstant_coded (h : nt.codingOutcome n = .ok c) :
    SignSymmetric.IsConstant (arithmetic nt.precision) (Scalar.binary nt.precision)
      (·.IsMember nt.precision.format) ((Expr.constant n).coded nt) := by
  intro calls
  obtain ⟨q, hq, -⟩ := NumberType.coding?_eq_some_iff.mp (NumberType.coding?_of_codingOutcome h)
  obtain ⟨_, ⟨x, -, hx, rfl⟩, hgives⟩ := exists_coded_constant h hq
  exact ⟨x, hx, hgives calls⟩

end Emulation

/-! ### Evaluation in written numbers -/

namespace Number

variable {n c : Number} {bits digits : Nat} {q : Rat} {x : BigFloat} {u v d : Dyadic}

/-- A number with an exact value is a finite operand, if it is one. -/
theorem isFinite_alongside (h : n.toRat = .ok q) (hx : n.alongside bits = .ok x) : x.IsFinite := by
  cases n with
  | truth b => cases hx; exact ⟨_, rfl⟩
  | integer n => cases hx; exact ⟨_, rfl⟩
  | ratio q => cases hx; exact ⟨_, rfl⟩
  | double y =>
    cases y with
    | finite negative q => cases hx; exact ⟨_, rfl⟩
    | _ => cases h
  | big y digits =>
    cases y with
    | finite y => cases hx; exact ⟨y, rfl⟩
    | _ => cases h
  | _ => cases hx

/-- A coefficient **joined** to a value: the product is rounded, and then the sum. -/
def joined (bits : Nat) (v d u : Dyadic) : Dyadic :=
  BigFloat.roundDyadic bits (BigFloat.roundDyadic bits (v * d) + u)

theorem mul_add_big (hc : c.alongside (bitsOf digits) = .ok (.finite u)) :
    (do (← (big (.finite v) digits).mul (big (.finite d) digits)).add c) =
      .ok (big (.finite (joined (bitsOf digits) v d u)) digits) := by
  show (do
    let x ← c.alongside (bitsOf digits)
    return big (BigFloat.add (bitsOf digits)
      (.finite (BigFloat.roundDyadic (bitsOf digits) (v * d))) x) digits) = _
  rw [hc]
  rfl

/-- Opposite values at opposite numbers give one value with any coefficient. -/
theorem joined_neg_neg : joined bits (-v) (-d) u = joined bits v d u := by
  have hproduct : -v * -d = v * d := by grind
  rw [joined, hproduct, joined]

/-- One value at opposite numbers gives opposite ones where the coefficient is zero. -/
theorem joined_neg_zero : joined bits v (-d) 0 = -joined bits v d 0 := by
  have hproduct : v * -d = -(v * d) := by grind
  have hsum (a : Dyadic) : a + 0 = a := by grind
  rw [joined, joined, hproduct, BigFloat.roundDyadic_neg, hsum, hsum, BigFloat.roundDyadic_neg]

end Number

/-- A value after the coefficient of a degree, **on the other side**: the same if a parity admits
the degree, else the opposite. -/
def Parity.turned (parity : Parity) (k : Int) (v : Dyadic) : Dyadic :=
  if parity.Admits k then v else -v

/-- Every second degree is admitted. -/
theorem Parity.admits_succ {parity : Parity} (hparity : parity ≠ .none) (k : Int) :
    parity.Admits (k + 1) ↔ ¬ parity.Admits k := by
  cases parity with
  | odd => simp only [Admits]; omega
  | even => simp only [Admits]; omega
  | none => exact absurd rfl hparity

/-- **One step of the loop** over all degrees turns the value on the other side. -/
theorem Number.joined_turned {parity : Parity} (hparity : parity ≠ .none) {k : Int} {u : Dyadic}
    (hu : ¬ parity.Admits k → u = 0) (bits : Nat) (v d : Dyadic) :
    joined bits (parity.turned (k + 1) v) (-d) u = parity.turned k (joined bits v d u) := by
  by_cases hk : parity.Admits k
  · rw [Parity.turned, if_neg fun h => (Parity.admits_succ hparity k).mp h hk, Parity.turned,
      if_pos hk, joined_neg_neg]
  · rw [Parity.turned, if_pos ((Parity.admits_succ hparity k).mpr hk), Parity.turned, if_neg hk,
      hu hk, joined_neg_zero]

namespace Polynomial

variable {p : Polynomial Number} {parity : Parity} {name : String} {digits : Nat} {d : Dyadic}

/-- **The loop over all degrees** on both sides: before the degree `k` is dealt with and after the
last one, the value on the one side is the turned value on the other. -/
theorem exists_foldlM_mirrored (hparity : parity ≠ .none) {c : Int → Number}
    (hc : ∀ k, ∃ u, (c k).alongside (Number.bitsOf digits) = .ok (.finite u) ∧
      (¬ parity.Admits k → u = 0)) (d : Dyadic) (k : Nat) (v : Dyadic) :
    ∃ w, (downFrom (k - 1)).foldlM
        (fun value i => do (← Number.mul value (.big (.finite d) digits)).add (c i))
        (Number.big (.finite v) digits) = .ok (.big (.finite w) digits) ∧
      (downFrom (k - 1)).foldlM
        (fun value i => do (← Number.mul value (.big (.finite (-d)) digits)).add (c i))
        (Number.big (.finite (parity.turned k v)) digits) =
          .ok (.big (.finite (parity.turned 0 w)) digits) := by
  induction k generalizing v with
  | zero => exact ⟨v, rfl, rfl⟩
  | succ k ih =>
    have hnext : ((k + 1 : Nat) : Int) - 1 = k := by omega
    obtain ⟨u, hu, hzero⟩ := hc k
    rw [hnext, downFrom_natCast, List.foldlM_cons, List.foldlM_cons, Number.mul_add_big hu,
      Number.mul_add_big hu, ok_bind, ok_bind, Nat.cast_succ, Number.joined_turned hparity hzero]
    exact ih _

/-- **The evaluation in written numbers is mirrored** when the coefficients are finite operands. -/
theorem exists_evaluateAt_mirrored (hparity : parity ≠ .none)
    (hdegrees : ∀ m ∈ p.coefficients, parity.Admits m.1)
    (hfinite : ∀ m ∈ p.coefficients, ∃ u, m.2.alongside (Number.bitsOf digits) = .ok (.finite u))
    (d : Dyadic) :
    ∃ q, (p.evaluateAt (.big (.finite d) digits) >>= Number.toRat) = .ok q ∧
      (p.evaluateAt (.big (.finite (-d)) digits) >>= Number.toRat) =
        .ok (parity.mirror (fun q => -q) q) := by
  have hcoefficient (k : Int) : ∃ u, (p.coefficient k).alongside (Number.bitsOf digits) =
      .ok (.finite u) ∧ (¬ parity.Admits k → u = 0) := by
    rw [coefficient]
    cases hk : p.coefficients.lookup k with
    | none => exact ⟨0, rfl, fun _ => rfl⟩
    | some c =>
      have hm : (k, c) ∈ p.coefficients := mem_of_lookup_eq_some hk
      obtain ⟨u, hu⟩ := hfinite _ hm
      exact ⟨u, hu, fun h => absurd (hdegrees _ hm) h⟩
  rcases lt_or_ge p.degree 0 with hdegree | hdegree
  · -- no degree is dealt with
    have hnone : downFrom p.degree = [] := by
      have hlength : (p.degree + 1).toNat = 0 := by omega
      rw [downFrom, hlength]
      rfl
    refine ⟨0, ?_, ?_⟩
    · rw [evaluateAt, hornerM, hnone]
      rfl
    · rw [evaluateAt, hornerM, hnone]
      cases parity <;> rfl
  · obtain ⟨k, hk⟩ := Int.eq_ofNat_of_zero_le hdegree
    have htop : p.degree = ((k + 1 : Nat) : Int) - 1 := by omega
    have hstart : parity.turned (k + 1 : Nat) (0 : Dyadic) = 0 := by
      rw [Parity.turned]
      split <;> rfl
    obtain ⟨w, hw, hopposite⟩ := exists_foldlM_mirrored hparity hcoefficient d (k + 1) 0
    -- the integer zero counts as a number of arbitrary precision in the first product
    have hevaluate (x : Dyadic) : p.evaluateAt (.big (.finite x) digits) =
        (downFrom ((k + 1 : Nat) - 1)).foldlM
          (fun value i => do (← Number.mul value (.big (.finite x) digits)).add (p.coefficient i))
          (Number.big (.finite 0) digits) := by
      have hdegrees : downFrom (((k + 1 : Nat) : Int) - 1) = (k : Int) :: downFrom (k - 1) := by
        rw [← downFrom_natCast]
        congr 1
        omega
      rw [evaluateAt, hornerM, htop, hdegrees, List.foldlM_cons, List.foldlM_cons]
      rfl
    rw [hstart] at hopposite
    refine ⟨w.toRat, ?_, ?_⟩
    · rw [hevaluate, hw]
      rfl
    · rw [hevaluate, hopposite]
      cases parity with
      | odd => exact congrArg Except.ok (Dyadic.toRat_neg w)
      | even => rfl
      | none => exact absurd rfl hparity

/-- **Parity is exact in rounded arithmetic.** Take a polynomial with finite coefficients whose
degrees are all odd, or all even. Its scheme is mirrored at every finite number in the reference
arithmetic of every working precision. In every number type in which the coefficients have codings
the scheme is quantized, and both schemes are mirrored at every datum in the emulation of the
precision, the quantized one in the reference arithmetic as well. The evaluation in written numbers
of arbitrary precision is mirrored when the coefficients may be operands beside such numbers. -/
theorem horner_mirrored (hparity : parity ≠ .none)
    (hdegrees : ∀ m ∈ p.coefficients, parity.Admits m.1)
    (hfinite : ∀ m ∈ p.coefficients, ∃ q, m.2.toRat = .ok q) (name : String) :
    (∃ e, p.horner name parity = .ok e ∧
      (∀ ctx d, e.MirroredAt (Reference.arithmeticIn ctx) Reference.finite (fun d => -d) parity
        name d) ∧
      ∀ nt : NumberType, (∀ m ∈ p.coefficients, ∃ c, nt.codingOutcome m.2 = .ok c) →
        ∃ e', (e.quantize nt).outcome = .ok e' ∧
          (∀ ctx d, e'.MirroredAt (Reference.arithmeticIn ctx) Reference.finite (fun d => -d)
            parity name d) ∧
          ∀ x : Datum, x.IsMember nt.precision.format → ∀ scheme ∈ [e, e'],
            scheme.MirroredAt (Emulation.arithmetic nt.precision) (Scalar.binary nt.precision)
              Datum.neg parity name x) ∧
    ∀ (digits : Nat) (d : Dyadic),
      (∀ m ∈ p.coefficients, ∃ x, m.2.alongside (Number.bitsOf digits) = .ok x) →
        ∃ q, (p.evaluateAt (.big (.finite d) digits) >>= Number.toRat) = .ok q ∧
          (p.evaluateAt (.big (.finite (-d)) digits) >>= Number.toRat) =
            .ok (parity.mirror (fun q => -q) q) := by
  obtain ⟨inner, -, hscheme⟩ := exists_horner_eq hparity hdegrees name
  refine ⟨⟨_, hscheme, fun ctx d => ?_, fun nt hcodings => ?_⟩, fun digits d hoperands => ?_⟩
  · refine (Reference.signSymmetric ctx).mirroredAt_horner (τ := id) changesConstants_id hparity
      hdegrees (Reference.isConstant_number (n := 0) rfl) (fun m hm => ?_) hscheme trivial
    obtain ⟨q, hq⟩ := hfinite m hm
    exact Reference.isConstant_number hq
  · have hcodable (m) (hm : m ∈ p.coefficients) : (Expr.constant m.2).Codable nt :=
      Expr.codable_constant.mpr (hcodings m hm)
    refine ⟨_, Expr.quantize_outcome_eq_ok_iff.mpr
      ⟨codable_horner hparity hdegrees hcodable hscheme, rfl⟩, fun ctx d => ?_, fun x hx => ?_⟩
    · refine (Reference.signSymmetric ctx).mirroredAt_horner (changesConstants_coded nt) hparity
        hdegrees (Reference.isConstant_coded nt.codingOutcome_zero) (fun m hm => ?_) hscheme trivial
      obtain ⟨c, hc⟩ := hcodings m hm
      exact Reference.isConstant_coded hc
    · have hemulation := Emulation.signSymmetric nt.precision
      rw [List.forall_mem_cons, List.forall_mem_singleton]
      constructor
      · refine hemulation.mirroredAt_horner (τ := id) changesConstants_id hparity hdegrees
          (Emulation.isConstant_number nt.codingOutcome_zero) (fun m hm => ?_) hscheme hx
        obtain ⟨c, hc⟩ := hcodings m hm
        exact Emulation.isConstant_number hc
      · refine hemulation.mirroredAt_horner (changesConstants_coded nt) hparity hdegrees
          (Emulation.isConstant_coded nt.codingOutcome_zero) (fun m hm => ?_) hscheme hx
        obtain ⟨c, hc⟩ := hcodings m hm
        exact Emulation.isConstant_coded hc
  · refine exists_evaluateAt_mirrored hparity hdegrees (fun m hm => ?_) d
    obtain ⟨q, hq⟩ := hfinite m hm
    obtain ⟨x, hx⟩ := hoperands m hm
    obtain ⟨u, rfl⟩ := Number.isFinite_alongside hq hx
    exact ⟨u, hx⟩

/-- The schemes of an odd polynomial with gaps, quantized for vectors, at a number of single
precision; and its evaluation at a number of arbitrary precision. -/
theorem horner_mirrored_oddSample :
    (∃ e e', oddSample.horner "x" .odd = .ok e ∧ (e.quantize ⟨.single, true⟩).outcome = .ok e' ∧
      ∀ scheme ∈ [e, e'], scheme.MirroredAt (Emulation.arithmetic .single) (Scalar.binary .single)
        Datum.neg .odd "x" (.finite false (3 : Nat))) ∧
    ∃ q, (oddSample.evaluateAt (.big (.finite (Dyadic.ofInt 3)) 15) >>= Number.toRat) = .ok q ∧
      (oddSample.evaluateAt (.big (.finite (-Dyadic.ofInt 3)) 15) >>= Number.toRat) = .ok (-q) := by
  have hfinite : ∀ m ∈ oddSample.coefficients, ∃ q, m.2.toRat = .ok q := by
    have hrational : ∀ m ∈ oddSample.coefficients, m.2.rational? = some m.2.value := by
      decide +kernel
    exact fun m hm => ⟨_, Number.toRat_of_rational? (hrational m hm)⟩
  have hcodings : ∀ m ∈ oddSample.coefficients,
      ∃ c, NumberType.codingOutcome ⟨.single, true⟩ m.2 = .ok c := by
    have hmonomials : oddSample.coefficients = [(7, .integer (-2)), (3, .ratio (1 / 2))] := by
      decide +kernel
    have htwo : NumberType.codingOutcome ⟨.single, true⟩ (.integer (-2)) = .ok 0xc0000000 := by
      decide +kernel
    have hhalf : NumberType.codingOutcome ⟨.single, true⟩ (.ratio (1 / 2)) = .ok 0x3f000000 := by
      decide +kernel
    rw [hmonomials, List.forall_mem_cons, List.forall_mem_singleton]
    exact ⟨⟨_, htwo⟩, ⟨_, hhalf⟩⟩
  have hoperands : ∀ m ∈ oddSample.coefficients,
      ∃ x, m.2.alongside (Number.bitsOf 15) = .ok x := by
    intro m hm
    have hkind : m.2.rational?.isSome := by
      revert m
      decide +kernel
    cases hm : m.2 <;> rw [hm] at hkind <;> first | exact ⟨_, rfl⟩ | cases hkind
  have hmember : (Datum.finite false (3 : Nat)).IsMember Precision.single.format :=
    Datum.isMember_natCast (by decide)
  obtain ⟨⟨e, he, -, hquantize⟩, hevaluate⟩ :=
    @horner_mirrored oddSample .odd (by decide) (by decide) hfinite "x"
  obtain ⟨e', he', -, hmirrored⟩ := hquantize ⟨.single, true⟩ hcodings
  exact ⟨⟨e, e', he, he', hmirrored _ hmember⟩, hevaluate 15 (Dyadic.ofInt 3) hoperands⟩

end Polynomial

end Elementary
