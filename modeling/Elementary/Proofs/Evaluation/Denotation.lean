import Elementary.Evaluation.Emulation
import Elementary.Evaluation.Reference
import Elementary.Proofs.Evaluation.Opposite
import Elementary.Proofs.Format.Exact

/-!
# Exact operations

Some operations take a number of a precision to a number of it, without any rounding. Here the
reference arithmetic and the emulation of the precision are each compared with what such an
operation does to numbers, whatever stands for a number in the one and in the other. The reference
only has to work with as many bits as the mantissa of the precision has.

## Main definitions

* `Quantity.Denotes`, `Scalar.Denotes`: the number that stands for itself in an arithmetic.
* `Op.onNumber?`: what an exact operation does to a number.
* `Op.Accepts`: the numbers on which it is exact.

## Main results

* `Reference.operation_exact`, `Emulation.operation_exact`: an exact operation in both arithmetics.
* `Reference.order_exact`, `Emulation.order_exact`: the order of two numbers in both.
-/

namespace Elementary

/-- A quantity **denotes** a number: that of a finite number, or an integer. -/
inductive Quantity.Denotes : Quantity → Rat → Prop
  | real (x : Dyadic) : Denotes (.real (.finite x)) x.toRat
  | integer (n : Int) : Denotes (.integer n) n

/-- A scalar **denotes** a number: that of a datum of a precision or of a wider one, an integer, or
zero or one as a truth value. -/
inductive Scalar.Denotes (p : Precision) : Scalar → Rat → Prop
  | binary {r : Precision} {x : Datum} {q : Rat} (hr : p.wider r = r) (h : x.Denotes q) :
    Denotes p (.binary r x) q
  | integer (n : Int) : Denotes p (.integer n) n
  | truth (b : Bool) : Denotes p (.truth b) b.toInt
  | flag (b : Bool) : Denotes p (.flag b) b.toInt

/-! ### Operations on numbers -/

namespace Op

/-- What an **exact operation** does to a number. -/
def onNumber? : Op → Option (Rat → Rat)
  | .negation => some fun q => -q
  | .absolute => some fun q => q.abs
  | .nearestInteger => some fun q => roundHalfEven q
  | .floor => some fun q => q.floor
  | .exponentInsertion => some fun q => pow2 q.floor
  | .exponentExtraction => some fun q => floorLog2 q.abs
  | .mantissaExtraction => some fun q => q * pow2 (-floorLog2 q.abs)
  | _ => none

/-- The numbers that an operation **accepts** as its operand: an exponent and a mantissa are taken
of numbers other than zero, only an integer is even or odd, and a power of two has an integral
exponent in the range of the precision. -/
def Accepts (p : Precision) : Op → Rat → Prop
  | .exponentExtraction, q | .mantissaExtraction, q => q ≠ 0
  | .isOdd, q => ∃ n : Int, q = n
  | .exponentInsertion, q =>
    ∃ n : Int, q = n ∧ p.format.minSubnormalExponent ≤ n ∧ n ≤ p.format.maxExponent
  | _, _ => True

end Op

variable {p r : Precision} {ctx : Reference.Context} {op : Op} {f : Rat → Rat} {q q' : Rat}
  {a b : Quantity} {s t : Scalar}

/-- **An exact operation stays in the precision.** -/
theorem Precision.Has.onNumber (h : p.Has q) (hop : op.onNumber? = some f)
    (hq : op.Accepts p q) : p.Has (f q) := by
  cases op <;> cases hop
  case negation => exact h.neg
  case absolute => exact h.abs
  case nearestInteger => exact h.nearestInteger
  case floor => exact h.floor
  case exponentInsertion =>
    obtain ⟨n, rfl, hlow, hhigh⟩ := hq
    dsimp only
    rw [Rat.floor_intCast]
    exact has_pow2 hlow hhigh
  case exponentExtraction => exact h.exponent hq
  case mantissaExtraction => exact h.mantissa hq

/-- The relations **between two numbers**. -/
def Relation.between (r : Relation) (q s : Rat) : Bool :=
  match r with
  | less => decide (q < s)
  | lessOrEqual => decide (q ≤ s)
  | greater => decide (s < q)
  | greaterOrEqual => decide (s ≤ q)

/-- The order of two numbers tells the relations between them. -/
theorem Relation.holds_order (r : Relation) (q s : Rat) :
    r.holds (if q < s then .lt else if q = s then .eq else .gt) = r.between q s := by
  rcases lt_trichotomy q s with h | h | h
  · rw [if_pos h]
    cases r <;> simp [holds, between, h, h.le]
  · rw [if_neg h.not_lt, if_pos h]
    cases r <;> simp [holds, between, h]
  · rw [if_neg h.not_gt, if_neg h.ne']
    cases r <;> simp [holds, between, h, h.le]

/-- The order of two integers is that of their numbers. -/
theorem compare_intCast (m n : Int) : Ord.compare m n =
    if (m : Rat) < n then .lt else if (m : Rat) = n then .eq else .gt := by
  simp only [Int.cast_lt, Int.cast_inj]
  rfl

/-- Nothing is cut off from an integer. -/
theorem truncate_intCast (n : Int) : truncate n = n := by
  rw [truncate]
  split
  · rw [← Int.cast_neg, Rat.floor_intCast, neg_neg]
  · rw [Rat.floor_intCast]

/-! ### The reference arithmetic -/

namespace Quantity

theorem Denotes.toRat_eq (h : a.Denotes q) (digits : Nat) : a.toRat digits = .ok q := by
  cases h <;> rfl

/-- A quantity denotes **one number**. -/
theorem Denotes.unique (h : a.Denotes q) (h' : a.Denotes q') : q = q' :=
  Except.ok.inj ((h.toRat_eq 0).symm.trans (h'.toRat_eq 0))

theorem Denotes.exists_real (h : a.Denotes q) :
    ∃ x : Dyadic, a.real? = some (.finite x) ∧ x.toRat = q := by
  cases h with
  | real x => exact ⟨x, rfl, rfl⟩
  | integer n => exact ⟨_, rfl, Dyadic.toRat_intCast n⟩

theorem Denotes.toInt_eq {n : Int} (h : a.Denotes n) : a.toInt = .ok n := by
  generalize hn : (n : Rat) = q at h
  cases h with
  | real x =>
    show Except.ok (BigFloat.truncateDyadic x) = _
    rw [BigFloat.truncateDyadic_eq, ← hn, truncate_intCast]
  | integer m =>
    obtain rfl : n = m := by exact_mod_cast hn
    rfl

/-- A rounded number denotes what it is rounded from, if that fits. -/
theorem denotes_round {x : Dyadic} (h : Fits ctx.bits x.toRat) :
    (real (.round ctx.bits (.finite x))).Denotes x.toRat := by
  rw [BigFloat.round_finite h]
  exact .real x

theorem denotes_roundInt {n : Int} (h : Fits ctx.bits n) :
    (real (.round ctx.bits (.ofInt n))).Denotes n := by
  have hn : (Dyadic.ofInt n).toRat = n := Dyadic.toRat_intCast n
  have hfits : Fits ctx.bits (Dyadic.ofInt n).toRat := hn.symm ▸ h
  have hround := denotes_round hfits
  rwa [hn] at hround

theorem denotes_ofRat (h : Fits ctx.bits q) : (real (.ofRat ctx.bits q)).Denotes q := by
  obtain ⟨x, hx, rfl⟩ := BigFloat.exists_ofRat h
  rw [hx]
  exact .real x

end Quantity

namespace Reference

theorem denotes_negate (h : a.Denotes q) (hq : Fits ctx.bits (-q)) :
    (negate ctx.bits a).Denotes (-q) := by
  cases h with
  | real x =>
    rw [← Dyadic.toRat_neg] at hq ⊢
    exact Quantity.denotes_round hq
  | integer n =>
    rw [← Int.cast_neg]
    exact .integer (-n)

theorem denotes_magnitude (h : a.Denotes q) (hq : Fits ctx.bits q.abs) :
    (magnitude ctx.bits a).Denotes q.abs := by
  cases h with
  | real x =>
    obtain ⟨y, hy, hvalue⟩ := BigFloat.exists_magnitude x
    rw [← hvalue] at hq ⊢
    rw [magnitude, hy]
    exact Quantity.denotes_round hq
  | integer n =>
    rw [abs_intCast]
    exact .integer _

theorem denotes_floor (h : a.Denotes q) (hq : Fits ctx.bits (q.floor : Int)) :
    (floor ctx.bits a).Denotes (q.floor : Int) := by
  have hfloor {x : Dyadic} (hx : x.toRat = q) (ha : a.real? = some (.finite x)) :
      (Quantity.real ((a.real?.getD .nan).floor ctx.bits)).Denotes (q.floor : Int) := by
    rw [ha, Option.getD_some, BigFloat.floor, BigFloat.floorDyadic_eq, hx]
    exact Quantity.denotes_roundInt hq
  obtain ⟨x, hx, hvalue⟩ := h.exists_real
  cases h with
  | real => exact hfloor hvalue hx
  | integer => exact hfloor hvalue hx

/-- **An exact operation in the reference arithmetic.** -/
theorem operation_exact (hbits : p.format.mantissaSize ≤ ctx.bits) (h : p.Has q)
    (ha : a.Denotes q) (hop : op.onNumber? = some f) (hq : op.Accepts p q) :
    ∃ b : Quantity, quantityOperation ctx op [a] = .ok (.number b) ∧ b.Denotes (f q) := by
  have hfits : Fits ctx.bits (f q) := (h.onNumber hop hq).fits.mono hbits
  cases op <;> cases hop
  case negation => exact ⟨_, rfl, denotes_negate ha hfits⟩
  case absolute => exact ⟨_, rfl, denotes_magnitude ha hfits⟩
  case nearestInteger =>
    refine ⟨_, ?_, Quantity.denotes_roundInt hfits⟩
    rw [quantityOperation, ha.toRat_eq]
    rfl
  case floor => exact ⟨_, rfl, denotes_floor ha hfits⟩
  case exponentInsertion =>
    obtain ⟨n, rfl, -⟩ := hq
    refine ⟨.real (.scaled 1 n), ?_, ?_⟩
    · rw [quantityOperation, ha.toInt_eq]
      rfl
    · dsimp only
      rw [Rat.floor_intCast]
      have hvalue : (Dyadic.ofIntWithPrec 1 (-n)).toRat = pow2 n := by
        rw [Dyadic.toRat_ofIntWithPrec_eq_mul_two_pow, neg_neg, Int.cast_one, one_mul, pow2]
      rw [← hvalue]
      exact .real _
  case exponentExtraction =>
    refine ⟨_, ?_, Quantity.denotes_roundInt hfits⟩
    rw [quantityOperation, ha.toRat_eq]
    rfl
  case mantissaExtraction =>
    obtain ⟨x, hx, rfl⟩ := ha.exists_real
    obtain ⟨y, hy, hvalue⟩ := BigFloat.exists_scale x (-floorLog2 x.toRat.abs)
    refine ⟨.real (.finite y), ?_, ?_⟩
    · rw [quantityOperation, ha.toRat_eq, hx, ← hy]
      rfl
    · dsimp only
      rw [← hvalue]
      exact .real y

/-- Whether a number is **odd**, in the reference arithmetic. -/
theorem isOdd_exact {n : Int} (ha : a.Denotes n) :
    quantityOperation ctx .isOdd [a] = .ok (.truth (decide (n % 2 = 1))) := by
  rw [quantityOperation, ha.toInt_eq]
  rfl

/-- **The order of two numbers**, in the reference arithmetic. -/
theorem order_exact {v w : Value Quantity} (hv : Quantity.ofValue v = .ok a)
    (hw : Quantity.ofValue w = .ok b) (ha : a.Denotes q) (hb : b.Denotes q') :
    order v w = .ok (some (if q < q' then .lt else if q = q' then .eq else .gt)) := by
  obtain ⟨x, hx, rfl⟩ := ha.exists_real
  obtain ⟨y, hy, rfl⟩ := hb.exists_real
  simp only [order, hv, hw, bind, Except.bind, hx, hy, BigFloat.compare?_finite]
  rfl

/-- A number **counts as true** unless it is zero. -/
theorem isTrue_exact (ha : a.Denotes q) : isTrue a = decide (q ≠ 0) := by
  cases ha with
  | real x =>
    cases x with
    | zero => rfl
    | ofOdd n k h =>
      have hne : (Dyadic.ofOdd n k h).toRat ≠ 0 :=
        mt Dyadic.toRat_eq_zero_iff.mp Dyadic.of_ne_zero
      rw [decide_eq_true hne]
      rfl
  | integer n => simp [isTrue, bne, beq_eq_decide]

end Reference

/-! ### The emulation -/

namespace Scalar

theorem denotes_ofInteger {n : Int} (h : p.Has n) : (ofInteger n).Denotes n :=
  Datum.denotes_ofRat (h.wider (r := .double) (by cases p <;> rfl))

/-- A scalar **brought to a wider precision** denotes the same number. -/
theorem Denotes.inPrecision (h : s.Denotes p q) (hq : p.Has q) (hr : p.wider r = r) :
    (s.inPrecision r).Denotes q := by
  cases h with
  | binary _ h => exact h.convert (hq.wider hr)
  | integer n => exact (denotes_ofInteger hq).convert (hq.wider hr)
  | truth b => exact (denotes_ofInteger hq).convert (hq.wider hr)
  | flag b => exact (denotes_ofInteger hq).convert (hq.wider hr)

theorem wider_double (p : Precision) : p.wider .double = .double := by cases p <;> rfl

/-- The datum of a scalar denotes the same number. -/
theorem Denotes.typed (h : s.Denotes p q) (hq : p.Has q) :
    p.wider s.typed.1 = s.typed.1 ∧ s.typed.2.Denotes q := by
  cases h with
  | binary hr h => exact ⟨hr, h⟩
  | integer n => exact ⟨wider_double p, (Denotes.integer n).inPrecision hq (wider_double p)⟩
  | truth b => exact ⟨wider_double p, (Denotes.truth b).inPrecision hq (wider_double p)⟩
  | flag b => exact ⟨wider_double p, (Denotes.flag b).inPrecision hq (wider_double p)⟩

theorem Denotes.typedFrom (h : s.Denotes p q) (hq : p.Has q) :
    p.wider (s.typedFrom p).1 = (s.typedFrom p).1 ∧ (s.typedFrom p).2.Denotes q := by
  have hself := p.wider_self
  cases h with
  | binary hr h => exact ⟨hr, h⟩
  | integer n => exact (Denotes.integer n).typed hq
  | truth b => exact ⟨hself, (Denotes.truth b).inPrecision hq hself⟩
  | flag b => exact ⟨hself, (Denotes.truth b).inPrecision hq hself⟩

/-- Two scalars **meet** in a precision that is not narrower. -/
theorem Denotes.wider_meet (hs : s.Denotes p q) (ht : t.Denotes p q') :
    p.wider (s.meet t) = s.meet t := by
  cases hs with
  | @binary r _ _ hr _ =>
    cases ht with
    | @binary r' _ _ hr' _ =>
      show p.wider (r.wider r') = r.wider r'
      cases r <;> cases r' <;> first | exact hr | exact hr'
    | _ => exact hr
  | _ =>
    cases ht with
    | binary hr' _ => exact hr'
    | _ => exact wider_double p

end Scalar

namespace Emulation

theorem denotes_negate (hs : s.Denotes p q) (hflag : ∀ b, s ≠ .flag b) :
    ∃ t : Scalar, scalarOperation p .negation [s] = .ok (.number t) ∧ t.Denotes p (-q) := by
  cases hs with
  | binary hr h => exact ⟨_, rfl, .binary hr h.neg⟩
  | integer n => exact ⟨_, rfl, Int.cast_neg (R := Rat) n ▸ .integer (-n)⟩
  | truth b => exact ⟨_, rfl, Int.cast_neg (R := Rat) b.toInt ▸ .integer (-b.toInt)⟩
  | flag b => exact absurd rfl (hflag b)

theorem denotes_absolute (hs : s.Denotes p q) :
    ∃ t : Scalar, scalarOperation p .absolute [s] = .ok (.number t) ∧ t.Denotes p q.abs := by
  cases hs with
  | binary hr h => exact ⟨_, rfl, .binary hr h.abs⟩
  | integer n => exact ⟨_, rfl, abs_intCast n ▸ .integer _⟩
  | truth b => exact ⟨.flag b, rfl, by cases b <;> exact .flag _⟩
  | flag b => exact ⟨.flag b, rfl, by cases b <;> exact .flag _⟩

theorem denotes_floor (hs : s.Denotes p q) (hq : p.Has q) :
    ∃ t : Scalar, scalarOperation p .floor [s] = .ok (.number t) ∧
      t.Denotes p (q.floor : Int) := by
  cases hs with
  | binary hr h => exact ⟨_, rfl, .binary hr h.floor⟩
  | integer n => exact ⟨_, rfl, by rw [Rat.floor_intCast]; exact .integer n⟩
  | truth b => exact ⟨_, rfl, by rw [Rat.floor_intCast]; exact .flag b⟩
  | flag b => exact ⟨_, rfl, by rw [Rat.floor_intCast]; exact .flag b⟩

theorem toInt_eq {n : Int} (hs : s.Denotes p n) (h : p.Has n) : s.toInt = .ok n := by
  have hvalue : s.typed.2.toRat? = some (n : Rat) := (hs.typed h).2.toRat?_eq
  generalize hn : (n : Rat) = q at hs
  cases hs with
  | integer m =>
    obtain rfl : n = m := by exact_mod_cast hn
    rfl
  | _ =>
    simp only [Scalar.toInt, hvalue, truncate_intCast]

/-- **A power of two** in the range of the exponents is not rounded. -/
theorem powerOfTwo_eq {n : Int} (h : p.Has n) (hs : s.Denotes p n)
    (hlow : p.format.minSubnormalExponent ≤ n) (hhigh : n ≤ p.format.maxExponent) :
    powerOfTwo p s = .ok (.binary p (.finite false (pow2 n))) := by
  have hword : isWord n = true := by
    have hroom : -(Nat.pow 2 63 : Int) ≤ p.format.minSubnormalExponent ∧
        p.format.maxExponent < Nat.pow 2 63 := by cases p <;> decide
    rw [isWord, Bool.and_eq_true, decide_eq_true_eq, decide_eq_true_eq]
    exact ⟨hroom.1.trans hlow, hhigh.trans_lt hroom.2⟩
  have hclamp : max (p.format.minSubnormalExponent - 8) (min n (p.format.maxExponent + 8)) = n := by
    omega
  have hdatum : Datum.powerOfTwo p.format n = .finite false (pow2 n) := by
    rw [Datum.powerOfTwo, hclamp]
    exact Datum.ofMagnitude_eq ((Datum.Denotes.finite false (pow2_pos n).le).isMember_of_has
      (Precision.has_pow2 hlow hhigh))
  rw [powerOfTwo, toInt_eq hs h, ← hdatum]
  show (if isWord n then _ else _) = _
  rw [if_pos hword]
  rfl

theorem denotes_powerOfTwo {n : Int} (h : p.Has n) (hs : s.Denotes p n)
    (hlow : p.format.minSubnormalExponent ≤ n) (hhigh : n ≤ p.format.maxExponent) :
    ∃ t : Scalar, scalarOperation p .exponentInsertion [s] = .ok (.number t) ∧
      t.Denotes p (pow2 (n : Rat).floor) := by
  refine ⟨.binary p (.finite false (pow2 n)), ?_, .binary p.wider_self ?_⟩
  · rw [scalarOperation, powerOfTwo_eq h hs hlow hhigh]
    rfl
  · rw [Rat.floor_intCast]
    exact .finite false (pow2_pos n).le

/-- **An exact operation in the emulation.** -/
theorem operation_exact (h : p.Has q) (hs : s.Denotes p q) (hop : op.onNumber? = some f)
    (hq : op.Accepts p q) (hflag : op = .negation → ∀ b, s ≠ .flag b) :
    ∃ t : Scalar, scalarOperation p op [s] = .ok (.number t) ∧ t.Denotes p (f q) := by
  obtain ⟨hr, hx⟩ := hs.typed h
  obtain ⟨hrFrom, hxFrom⟩ := hs.typedFrom h
  cases op <;> cases hop
  case negation => exact denotes_negate hs (hflag rfl)
  case absolute => exact denotes_absolute hs
  case nearestInteger => exact ⟨_, rfl, .binary hrFrom hxFrom.nearestInteger⟩
  case floor => exact denotes_floor hs h
  case exponentInsertion =>
    obtain ⟨n, rfl, hlow, hhigh⟩ := hq
    exact denotes_powerOfTwo h hs hlow hhigh
  case exponentExtraction =>
    have hexponent := (Scalar.Denotes.integer (p := p) (floorLog2 q.abs)).inPrecision
      (h.exponent hq) p.wider_self
    refine ⟨_, rfl, .binary p.wider_self ?_⟩
    rw [hx.exponent_eq hq]
    exact hexponent
  case mantissaExtraction =>
    refine ⟨_, rfl, .binary ?_ (hxFrom.mantissa hq)⟩
    rw [Precision.wider_comm _ p, hrFrom, hrFrom]

/-- Whether a number is **odd**, in the emulation. -/
theorem isOdd_exact {n : Int} (h : p.Has n) (hs : s.Denotes p n) :
    scalarOperation p .isOdd [s] = .ok (.truth (decide (n % 2 = 1))) := by
  have hx := (hs.typed h).2
  have hodd : s.typed.2.isOdd = decide (n % 2 = 1) := hx.isOdd_eq
  generalize hn : (n : Rat) = q at hs
  cases hs with
  | integer m =>
    obtain rfl : n = m := by exact_mod_cast hn
    have hparity : n % 2 ≠ 0 ↔ n % 2 = 1 := by omega
    simp only [scalarOperation, hparity]
  | _ => exact congrArg (fun b => Except.ok (Value.truth b)) hodd

/-- **The order of two numbers**, in the emulation. -/
theorem order_exact {v w : Value Scalar} (hv : Scalar.ofValue v = .ok s)
    (hw : Scalar.ofValue w = .ok t) (h : p.Has q) (h' : p.Has q') (hs : s.Denotes p q)
    (ht : t.Denotes p q') :
    order v w = .ok (some (if q < q' then .lt else if q = q' then .eq else .gt)) := by
  have hmeet := hs.wider_meet ht
  have hcompare := (hs.inPrecision h hmeet).compare?_eq (ht.inPrecision h' hmeet)
  rw [order, hv, hw]
  cases hs with
  | integer m =>
    cases ht with
    | integer n =>
      show Except.ok (some (Ord.compare m n)) = _
      rw [compare_intCast m n]
    | _ => exact congrArg Except.ok hcompare
  | _ => exact congrArg Except.ok hcompare

/-- A number **counts as true** unless it is zero. -/
theorem isTrue_exact (hs : s.Denotes p q) : isTrue s = decide (q ≠ 0) := by
  cases hs with
  | binary _ h =>
    rw [isTrue, h.isZero_eq]
    simp
  | integer n => simp [isTrue, bne, beq_eq_decide]
  | truth b | flag b => cases b <;> rfl

end Emulation

end Elementary
