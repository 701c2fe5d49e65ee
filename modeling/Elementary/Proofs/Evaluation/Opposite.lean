import Elementary.Proofs.Evaluation.Kind
import Elementary.Proofs.Expr.Numeral
import Elementary.Proofs.Format.Opposite

/-!
# Operations on opposite numbers

A body is run twice, the second time with the argument negated. A value may be the same in both
runs, or change its sign, zeros apart. No rounding disturbs such a symmetry, because rounding does
not see a sign: the operations of a precision take values that are mirrored to values that are.

## Main definitions

* `Scalar.Opposite`: scalars that are opposite as numbers.
* `Symmetry`, `Value.Mirrored`: the symmetries, and the pairs of values of each.

## Main results

* `Emulation.mirrored_product`, `mirrored_difference`, `mirrored_square`: opposite operands.
* `Emulation.operation_addition_swap`, `operation_subtraction_swap`: operands that change places.
* `Emulation.compare_less_zero`: what a comparison with zero says.
-/

namespace Elementary

/-! ### Scalars -/

theorem Precision.wider_comm (p q : Precision) : p.wider q = q.wider p := by
  cases p <;> cases q <;> rfl

namespace Scalar

variable {s t a b : Scalar} {p : Precision}

/-- Scalars that are **opposite as numbers**, and of one sort. -/
inductive Opposite : Scalar → Scalar → Prop
  | binary (p : Precision) {x y : Datum} (h : x.Opposite y) : Opposite (binary p x) (binary p y)
  | integer (n : Int) : Opposite (integer n) (integer (-n))
  | untyped {x y : Datum} (h : x.Opposite y) : Opposite (untyped x) (untyped y)

/-- Opposite scalars stay opposite in any precision. -/
theorem Opposite.inPrecision (h : s.Opposite t) :
    (s.inPrecision p).Opposite (t.inPrecision p) := by
  cases h with
  | binary q h => exact h.convert
  | integer n =>
    have hdouble : (ofInteger n).Opposite (ofInteger (-n)) := by
      simp only [ofInteger, Number.toDouble, Int.cast_neg]
      exact Datum.opposite_ofRat
    exact hdouble.convert
  | untyped h => exact h.convert

/-- Opposite scalars meet others in one precision. -/
theorem Opposite.meet_eq (h : s.Opposite t) (a : Scalar) : s.meet a = t.meet a := by
  cases h <;> rfl

/-- The differences of two integers are opposite. -/
theorem opposite_integer_sub (m n : Int) : (integer (m - n)).Opposite (integer (n - m)) :=
  Int.neg_sub m n ▸ .integer (m - n)

theorem meet_comm (a b : Scalar) : a.meet b = b.meet a := by
  cases a <;> cases b <;> first | rfl | exact Precision.wider_comm _ _

end Scalar

namespace Emulation

variable {p q r : Precision} {op : Op} {a b s t : Scalar} {x y z : Datum}

/-- An operation with a second operand of a precision rounds to a precision. -/
theorem arithmeticOperation_right (op : Op) (a : Scalar) (q : Precision) (z : Datum) :
    arithmeticOperation op a (.binary q z) =
      .ok (.binary (a.meet (.binary q z)) (datumOperation (a.meet (.binary q z)).format op
        (a.inPrecision (a.meet (.binary q z))) (z.convert (a.meet (.binary q z)).format))) := by
  cases a <;> rfl

/-- An operation with a first operand of a precision rounds to a precision. -/
theorem arithmeticOperation_left (op : Op) (q : Precision) (z : Datum) (a : Scalar) :
    arithmeticOperation op (.binary q z) a =
      .ok (.binary ((Scalar.binary q z).meet a)
        (datumOperation ((Scalar.binary q z).meet a).format op
          (z.convert ((Scalar.binary q z).meet a).format)
          (a.inPrecision ((Scalar.binary q z).meet a)))) := by
  cases a <;> rfl

/-- **The order of the terms** of a sum does not matter. -/
theorem arithmeticOperation_addition_comm (a b : Scalar) :
    arithmeticOperation .addition a b = arithmeticOperation .addition b a := by
  have hbinary : ∀ a q z, arithmeticOperation .addition a (.binary q z) =
      arithmeticOperation .addition (.binary q z) a := by
    intro a q z
    rw [arithmeticOperation_right, arithmeticOperation_left, Scalar.meet_comm a]
    simp only [datumOperation]
    rw [Datum.add_comm]
  cases b with
  | binary q z => exact hbinary a q z
  | _ =>
    cases a with
    | binary q z => exact (hbinary _ q z).symm
    | _ => first
      | exact congrArg (fun k => Except.ok (Scalar.integer k)) (Int.add_comm _ _)
      | exact congrArg (fun d => Except.ok (Scalar.untyped d)) (Datum.add_comm _ _)
      | exact congrArg (fun d => Except.ok (Scalar.binary .double d)) (Datum.add_comm _ _)
      | exact congrArg (fun b => Except.ok (Scalar.flag b)) (Bool.or_comm _ _)

/-- A difference in the **other order** is opposite. -/
theorem opposite_subtraction (hs : arithmeticOperation .subtraction a b = .ok s)
    (ht : arithmeticOperation .subtraction b a = .ok t) : s.Opposite t := by
  cases b with
  | binary q z =>
    rw [arithmeticOperation_right, Scalar.meet_comm a] at hs
    rw [arithmeticOperation_left] at ht
    cases hs
    cases ht
    exact .binary _ (Datum.opposite_sub_swap _ _)
  | _ =>
    cases a with
    | binary q z =>
      rw [arithmeticOperation_left] at hs
      rw [arithmeticOperation_right, Scalar.meet_comm _ (.binary q z)] at ht
      cases hs
      cases ht
      exact .binary _ (Datum.opposite_sub_swap _ _)
    | _ =>
      -- of two flags there is no difference
      cases hs <;> cases ht <;> first
        | exact Scalar.opposite_integer_sub _ _
        | exact .untyped (Datum.opposite_sub_swap _ _)
        | exact .binary .double (Datum.opposite_sub_swap _ _)

/-- **A factor of a precision** takes opposite scalars to opposite numbers of one precision. -/
theorem opposite_multiplication (h : s.Opposite t) (q : Precision) (z : Datum) :
    ∃ r x y, x.Opposite y ∧
      arithmeticOperation .multiplication s (.binary q z) = .ok (.binary r x) ∧
      arithmeticOperation .multiplication t (.binary q z) = .ok (.binary r y) := by
  rw [arithmeticOperation_right, arithmeticOperation_right, ← h.meet_eq]
  exact ⟨_, _, _, h.inPrecision.mul _, rfl, rfl⟩

/-- The operations on two numbers. -/
inductive IsBinary : Op → Prop
  | addition : IsBinary .addition
  | subtraction : IsBinary .subtraction
  | multiplication : IsBinary .multiplication
  | division : IsBinary .division

theorem IsBinary.isControl (h : IsBinary op) : op.isControl = false := by
  cases h <;> rfl

variable {u v w : Value Scalar}

/-- What an operation on two values takes from them. -/
theorem operation_binary (hop : IsBinary op) (h : operation p op [v, w] = .ok u) :
    ∃ a b s, Scalar.ofValue v = .ok a ∧ Scalar.ofValue w = .ok b ∧
      arithmeticOperation op a b = .ok s ∧ u = .number s := by
  have hscalars : (do scalarOperation p op (← [v, w].mapM Scalar.ofValue)) = .ok u := by
    cases hop <;> exact h
  obtain ⟨xs, hxs, hrest⟩ := bind_eq_ok.mp hscalars
  cases mapM_eq_ok.mp hxs with
  | @cons _ a _ _ ha htail =>
    cases htail with
    | @cons _ b _ _ hb hnil =>
      cases hnil
      have hnumber : (do return .number (← arithmeticOperation op a b)) =
          (.ok u : Except Failure (Value Scalar)) := by
        cases hop <;> exact hrest
      obtain ⟨s, hs, hlast⟩ := bind_eq_ok.mp hnumber
      cases hlast
      exact ⟨a, b, s, ha, hb, hs, rfl⟩

end Emulation

/-! ### Symmetries of values -/

/-- The **symmetries** of a value under a change of sign of the argument. -/
inductive Symmetry where
  /-- The same value, of whatever kind. -/
  | same
  /-- The same number of a precision. -/
  | even
  /-- Opposite scalars of whatever sort. -/
  | opposite
  /-- Opposite numbers of one precision. -/
  | odd
  /-- A finite number of the precision that is not zero, and that with the other sign. -/
  | signed
  deriving DecidableEq, Repr

namespace Value

variable {p : Precision} {v w : Value Scalar}

/-- A **number of some precision**. -/
def HasPrecision (v : Value Scalar) : Prop := ∃ q x, v = .number (.binary q x)

/-- The values in two runs, **mirrored** by a symmetry. -/
def Mirrored (p : Precision) : Symmetry → Value Scalar → Value Scalar → Prop
  | .same, v, w => v = w
  | .even, v, w => v = w ∧ v.HasPrecision
  | .opposite, v, w => ∃ s t, s.Opposite t ∧ v = .number s ∧ w = .number t
  | .odd, v, w => ∃ q x y, x.Opposite y ∧ v = .number (.binary q x) ∧ w = .number (.binary q y)
  | .signed, v, w => ∃ negative q, (Datum.finite negative q).IsMember p.format ∧ q ≠ 0 ∧
      v = .number (.binary p (.finite negative q)) ∧
      w = .number (.binary p (.finite (!negative) q))

end Value

/-! ### Operations on mirrored values -/

namespace Emulation

variable {p : Precision} {op : Op} {u u' v v' w w' : Value Scalar}

/-- An operation with a number of a precision gives one. -/
theorem hasPrecision_operation (hop : IsBinary op) (hnumber : v.HasPrecision ∨ w.HasPrecision)
    (h : operation p op [v, w] = .ok u) : u.HasPrecision := by
  obtain ⟨a, b, s, ha, hb, hs, rfl⟩ := operation_binary hop h
  rcases hnumber with ⟨q, x, rfl⟩ | ⟨q, x, rfl⟩
  · cases ha
    rw [arithmeticOperation_left] at hs
    cases hs
    exact ⟨_, _, rfl⟩
  · cases hb
    rw [arithmeticOperation_right] at hs
    cases hs
    exact ⟨_, _, rfl⟩

/-- A product to which a number of a precision is added is one. -/
theorem hasPrecision_fusedMultiplyAdd (hnumber : w.HasPrecision)
    (h : operation p .fusedMultiplyAdd [u, v, w] = .ok u') : u'.HasPrecision := by
  obtain ⟨q, z, rfl⟩ := hnumber
  obtain ⟨xs, hxs, hrest⟩ := bind_eq_ok.mp h
  cases mapM_eq_ok.mp hxs with
  | @cons _ a _ _ ha htail =>
    cases htail with
    | @cons _ b _ _ hb htail =>
      cases htail with
      | @cons _ c _ _ hc hnil =>
        cases hnil
        cases hc
        obtain ⟨product, -, hsum⟩ := bind_eq_ok.mp hrest
        rw [arithmeticOperation_right] at hsum
        cases hsum
        exact ⟨_, _, rfl⟩

/-- A power of two is a number of the precision. -/
theorem hasPrecision_exponentInsertion (h : operation p .exponentInsertion [v] = .ok u) :
    u.HasPrecision := by
  obtain ⟨xs, hxs, hrest⟩ := bind_eq_ok.mp h
  cases mapM_eq_ok.mp hxs with
  | cons ha hnil =>
    cases hnil
    obtain ⟨t, ht, hlast⟩ := bind_eq_ok.mp hrest
    obtain ⟨d, -, rfl⟩ := exists_powerOfTwo ht
    cases hlast
    exact ⟨_, _, rfl⟩

/-- **A sum in the other order.** -/
theorem operation_addition_swap (h : operation p .addition [v, w] = .ok u)
    (h' : operation p .addition [w, v] = .ok u') : u = u' := by
  obtain ⟨a, b, s, ha, hb, hs, rfl⟩ := operation_binary .addition h
  obtain ⟨b', a', s', hb', ha', hs', rfl⟩ := operation_binary .addition h'
  rw [ha] at ha'
  rw [hb] at hb'
  cases ha'
  cases hb'
  rw [arithmeticOperation_addition_comm, hs] at hs'
  cases hs'
  rfl

/-- **A difference in the other order.** -/
theorem operation_subtraction_swap (h : operation p .subtraction [v, w] = .ok u)
    (h' : operation p .subtraction [w, v] = .ok u') : Value.Mirrored p .opposite u u' := by
  obtain ⟨a, b, s, ha, hb, hs, rfl⟩ := operation_binary .subtraction h
  obtain ⟨b', a', s', hb', ha', hs', rfl⟩ := operation_binary .subtraction h'
  rw [ha] at ha'
  rw [hb] at hb'
  cases ha'
  cases hb'
  exact ⟨s, s', opposite_subtraction hs hs', rfl, rfl⟩

/-- **Opposite scalars times one number.** -/
theorem mirrored_product (hv : Value.Mirrored p .opposite v v')
    (hw : Value.Mirrored p .even w w') (h : operation p .multiplication [v, w] = .ok u)
    (h' : operation p .multiplication [v', w'] = .ok u') : Value.Mirrored p .odd u u' := by
  obtain ⟨s, t, hst, rfl, rfl⟩ := hv
  obtain ⟨rfl, q, z, rfl⟩ := hw
  obtain ⟨r, x, y, hxy, hs, ht⟩ := opposite_multiplication hst q z
  obtain ⟨_, _, s', ha, hb, hs', rfl⟩ := operation_binary .multiplication h
  obtain ⟨_, _, t', ha', hb', ht', rfl⟩ := operation_binary .multiplication h'
  cases ha
  cases hb
  cases ha'
  cases hb'
  rw [hs] at hs'
  rw [ht] at ht'
  cases hs'
  cases ht'
  exact ⟨r, x, y, hxy, rfl, rfl⟩

/-- **Opposite numbers subtracted from opposite numbers.** -/
theorem mirrored_difference (hv : Value.Mirrored p .odd v v') (hw : Value.Mirrored p .odd w w')
    (h : operation p .subtraction [v, w] = .ok u)
    (h' : operation p .subtraction [v', w'] = .ok u') : Value.Mirrored p .odd u u' := by
  obtain ⟨q, x, x', hx, rfl, rfl⟩ := hv
  obtain ⟨r, y, y', hy, rfl, rfl⟩ := hw
  cases h
  cases h'
  exact ⟨_, _, _, hx.convert.sub hy.convert, rfl, rfl⟩

/-- **The square** of opposite numbers. -/
theorem mirrored_square (hv : Value.Mirrored p .odd v v')
    (h : operation p .multiplication [v, v] = .ok u)
    (h' : operation p .multiplication [v', v'] = .ok u') : Value.Mirrored p .even u u' := by
  obtain ⟨q, x, x', hx, rfl, rfl⟩ := hv
  cases h
  cases h'
  refine ⟨?_, _, _, rfl⟩
  exact congrArg (fun d => Value.number (Scalar.binary _ d)) hx.convert.mul_self

/-- A constant is a number of the precision. -/
theorem hasPrecision_constant {n : Number} (h : operation p (.constant n) [] = .ok u) :
    u.HasPrecision := by
  have hround : (do return .number (← roundExact p (← n.toRat))) =
      (.ok u : Except Failure (Value Scalar)) := h
  obtain ⟨q, -, hrest⟩ := bind_eq_ok.mp hround
  obtain ⟨s, hs, hlast⟩ := bind_eq_ok.mp hrest
  cases hlast
  obtain ⟨coding, -, hcoding⟩ := bind_eq_ok.mp hs
  cases hcoding
  exact ⟨_, _, rfl⟩

/-- Zero is a constant of every precision. -/
theorem operation_zero (p : Precision) :
    operation p (.constant (.integer 0)) [] = .ok (.number (.binary p .zero)) := by
  have hcoding : p.format.encode? 0 = some 0 := by
    cases p <;> decide +kernel
  have hdatum : Datum.ofCoding p.format 0 = .zero := by
    cases p <;> decide +kernel
  show (do return Value.number (← roundExact p 0)) = _
  rw [roundExact, Precision.encode_eq_ok hcoding]
  exact congrArg (fun d => Except.ok (Value.number (Scalar.binary p d))) hdatum

/-- **Below zero** are the numbers with a negative sign, but for zero. -/
theorem compare_less_zero {negative : Bool} {q : Rat}
    (h : (Datum.finite negative q).IsMember p.format) (hq : q ≠ 0) :
    compare .less (.number (.binary p (.finite negative q))) (.number (.binary p .zero)) =
      .ok negative := by
  have hpos : 0 < q := h.1.lt_of_ne (Ne.symm hq)
  have hzero : (Scalar.binary p .zero).inPrecision p = Datum.finite false 0 :=
    inPrecision_binary Datum.isMember_zero
  have hmeet : (Scalar.binary p (.finite negative q)).meet (.binary p .zero) = p := p.wider_self
  show Except.ok _ = _
  simp only [hmeet, inPrecision_binary h, hzero, Datum.compare?, Datum.signed_zero]
  cases negative with
  | false => simp [Datum.signed, Relation.holds, hpos.le.not_gt, hpos.ne']
  | true => simp [Datum.signed, Relation.holds, hpos]

end Emulation

end Elementary
