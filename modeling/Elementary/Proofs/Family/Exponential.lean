import Elementary.Proofs.Evaluation.Numbers
import Elementary.Proofs.Family.Generation
import Elementary.Proofs.Format.Difference

/-!
# Multiples of the logarithm of two

The natural exponential measures its argument in logarithms of two, and takes the nearest multiple
off in two steps: first that of a head, which has so few bits that the multiple is exact, then that
of a tail. The head is a little below the logarithm, and the integer was rounded from a product with
the reciprocal, so a multiple that is not zero is at least half of the argument and at most twice as
large. Hence the first step has no error, however small the integer is.

## Main definitions

* `ExactConstant.quantized`: the number to which a named constant is quantized.
* `Exponential.head`, `Exponential.measured`: the head of the logarithm of two, and what is rounded
  to the integer.
* `Exponential.TakesOff`: a multiple of the head that is taken off without any error.
* `Exponential.TakesHeadOff`: what comes about when a natural exponential does so.

## Main results

* `Precision.has_multiple_iff`: multiples of leading bits are numbers of a precision.
* `Exponential.head_exact`: the first step of the natural exponential has no error.
-/

namespace Elementary

open Expr (Assigns)
open Setting (variableIn)

variable {p : Precision} {nt : NumberType} {env : Bindings Scalar} {s : Setting}
  {f : GeneratedFunction}

/-! ### Named constants -/

/-- The number to which **a named constant is quantized**. -/
def ExactConstant.quantized (p : Precision) (name : String) : Rat :=
  p.format.round ((((BigFloat.constant? bits name).getD .zero).toRat?).getD 0)

/-- A named constant denotes the number to which it is quantized. -/
theorem Expr.Denotes.named {name : String} (h : (ExactConstant.named name).Codable nt) :
    (ExactConstant.named name).Denotes nt env (ExactConstant.quantized nt.precision name) := by
  obtain ⟨c, hc⟩ := codable_constant.mp h
  obtain ⟨q, hq, -⟩ :=
    NumberType.coding?_eq_some_iff.mp (NumberType.coding?_of_codingOutcome hc)
  rw [ExactConstant.quantized, Emulation.toRat_big_eq_ok hq]
  exact .constant h hq

/-! ### Multiples of leading bits -/

/-- **A multiple of the leading bits** of a number that are left in the normal range has room in a
significand. It is a number of the precision, unless it is too large for a finite one. -/
theorem Precision.has_multiple_iff {v : Rat} {k : Int} (hv : 0 < v)
    (hnormal : pow2 p.format.minNormalExponent ≤
      truncateToBits v (p.format.mantissaSize - Exponential.quotientBits))
    (hk : |(k : Rat)| ≤ pow2 Exponential.quotientBits) :
    p.format.IsNumber
        (k * truncateToBits v (p.format.mantissaSize - Exponential.quotientBits)) ∧
      (p.Has (k * truncateToBits v (p.format.mantissaSize - Exponential.quotientBits)) ↔
        |k * truncateToBits v (p.format.mantissaSize - Exponential.quotientBits)| ≤
          p.format.maxValue) := by
  obtain ⟨kept, hkept, hone, hroom⟩ : ∃ kept : Nat,
      (p.format.mantissaSize : Int) - Exponential.quotientBits = kept ∧ 1 ≤ kept ∧
        kept + 11 ≤ p.format.fieldSize + 1 := by
    cases p
    · exact ⟨13, by decide⟩
    · exact ⟨42, by decide⟩
  have hcount : k.natAbs ≤ 2 ^ 11 := by
    have hbits : pow2 Exponential.quotientBits = (2 ^ 11 : Nat) := pow2_natCast 11
    rw [hbits] at hk
    exact natAbs_le_of_abs_lt (by linarith)
  rw [hkept] at hnormal ⊢
  rw [pow2_le_truncateToBits_iff hv hone] at hnormal
  exact ⟨Format.isNumber_mul_truncateToBits hv hone hroom hcount hnormal,
    has_mul_truncateToBits_iff hv hone hroom hcount hnormal⟩

namespace Exponential

/-- **The head of the logarithm of two** for a precision. -/
def head (p : Precision) : Rat :=
  truncateToBits ((ExactConstant.ln2.toRat?).getD 0) (p.format.mantissaSize - quotientBits)

/-- The logarithm of two and its head are normal numbers of the precision, and the head is nearly
the reciprocal of the quantized constant. -/
theorem head_facts (p : Precision) :
    0 < (ExactConstant.ln2.toRat?).getD 0 ∧ pow2 p.format.minNormalExponent ≤ head p ∧
      head p ≤ 1 ∧ 0 < ExactConstant.quantized p "log2e" ∧
      7 / 8 ≤ head p * ExactConstant.quantized p "log2e" ∧
      head p * ExactConstant.quantized p "log2e" ≤ 1 := by
  cases p <;> decide +kernel

/-- The head has a coding. -/
theorem codable_head (nt : NumberType) :
    (Expr.constant (.ratio (head nt.precision))).Codable nt := by
  obtain ⟨p, v⟩ := nt
  cases p <;> cases v <;> exact Expr.isCodable_iff.mp (by decide +kernel)

/-- **The multiples of the head** that are taken off are numbers of the precision. -/
theorem has_mul_head {n : Int} (hn : |(n : Rat)| ≤ pow2 quotientBits) : p.Has (n * head p) := by
  obtain ⟨hln2, hnormal, hone, -⟩ := head_facts p
  refine (Precision.has_multiple_iff hln2 hnormal hn).2.mpr ?_
  have hpos : 0 < head p := (pow2_pos _).trans_le hnormal
  calc |n * head p| = |(n : Rat)| * head p := by rw [abs_mul, abs_of_pos hpos]
    _ ≤ pow2 quotientBits * 1 := mul_le_mul hn hone hpos.le (pow2_pos _).le
    _ = pow2 quotientBits := mul_one _
    _ ≤ pow2 p.format.maxExponent := pow2_le_pow2.mpr (by cases p <;> decide)
    _ ≤ p.format.maxValue := Format.pow2_maxExponent_le_maxValue

/-- The head itself is one of them. -/
theorem has_head : p.Has (head p) := by
  have hone : |((1 : Int) : Rat)| ≤ pow2 quotientBits := by decide +kernel
  have hhead : p.Has ((1 : Int) * head p) := has_mul_head hone
  rwa [Int.cast_one, one_mul] at hhead

/-- **The measured argument**: its rounded product with the quantized constant. -/
def measured (p : Precision) (a : Rat) : Rat :=
  p.format.round (a * ExactConstant.quantized p "log2e")

/-- **Taking off the multiple** that an argument was measured to have is exact. -/
theorem has_sub_mul_head {a : Rat} (ha : p.Has a)
    (hn : |(roundHalfEven (measured p a) : Rat)| ≤ pow2 quotientBits) :
    p.Has (a - roundHalfEven (measured p a) * head p) := by
  obtain ⟨-, -, -, hpos, hlow, hhigh⟩ := head_facts p
  refine ha.sub_multiple (has_mul_head hn) hpos hlow hhigh ?_ rfl
  have hbits : pow2 quotientBits = (2 ^ 11 : Nat) := pow2_natCast 11
  have hroom : 7 * 2 ^ 11 ≤ 2 ^ (p.format.fieldSize + 1) := by cases p <;> decide
  rw [hbits] at hn
  have hcount := natAbs_le_of_abs_lt (hn.trans_lt (lt_add_one _))
  omega

/-! ### The function -/

/-- A multiple of the head **is taken off without any error**: the head is quantized exactly, and
neither its product with `k` nor the difference of the argument and the product is rounded. -/
structure TakesOff (nt : NumberType) (env : Bindings Scalar) (a : Rat) (n : Int) : Prop where
  quantized : (Expr.constant (.ratio (head nt.precision))).Denotes nt env (head nt.precision)
  product : (variableIn nt "k" * .constant (.ratio (head nt.precision))).Denotes nt env
    (n * head nt.precision)
  difference : (variableIn nt "arg" - variableIn nt "k" * .constant (.ratio (head nt.precision))
    ).Denotes nt env (a - n * head nt.precision)

/-- What comes about when a natural exponential **takes a multiple of the head off** an argument.
The first assignment binds `k` to the nearest integer to the measured argument, unless measuring
overflows. Whenever this is a number of no more bits than are set apart, the multiple is taken off
without any error. -/
structure TakesHeadOff (s : Setting) (f : GeneratedFunction) (x : Datum) (a : Rat)
    (k : Value Scalar) : Prop where
  statements : ∃ tail scheme, f.statements =
    (naturalBody s.numberType (head s.numberType.precision) tail scheme).map
      (Expr.coded s.numberType)
  assigns : ∀ calls, Assigns (Emulation.arithmetic s.numberType.precision) calls
    (f.statements.take 1) [("arg", .number (.binary s.numberType.precision x))]
    [("k", k), ("arg", .number (.binary s.numberType.precision x))]
  measured : |measured s.numberType.precision a| ≤ s.numberType.precision.format.maxValue →
    k.Denotes s.numberType.precision (roundHalfEven (measured s.numberType.precision a) : Int)
  exact : ∀ q, k.Denotes s.numberType.precision q → |q| ≤ pow2 quotientBits →
    ∃ n : Int, q = n ∧ TakesOff s.numberType
      [("k", k), ("arg", .number (.binary s.numberType.precision x))] a n

/-- A multiple is taken off **under bindings** of the integer that was measured. -/
theorem takesOff {arg k : Value Scalar} {a : Rat} (harg : arg.Denotes nt.precision a)
    (hk : k.Denotes nt.precision (roundHalfEven (measured nt.precision a) : Int))
    (hsmall : |(roundHalfEven (measured nt.precision a) : Rat)| ≤ pow2 quotientBits) :
    TakesOff nt [("k", k), ("arg", arg)] a (roundHalfEven (measured nt.precision a)) := by
  have hhead : (Expr.constant (.ratio (head nt.precision))).Denotes nt
      [("k", k), ("arg", arg)] (head nt.precision) :=
    .exact_constant ⟨_, rfl, rfl, codable_head nt, has_head⟩
  have hvariable : (variableIn nt "k").Denotes nt [("k", k), ("arg", arg)]
      (roundHalfEven (measured nt.precision a) : Int) := .var hk rfl
  have hargument : (variableIn nt "arg").Denotes nt [("k", k), ("arg", arg)] a := .var harg rfl
  have hproduct := hvariable.exact .multiplication hhead rfl (has_mul_head hsmall)
  exact ⟨hhead, hproduct,
    hargument.exact .subtraction hproduct rfl (has_sub_mul_head harg.has hsmall)⟩

/-- **Every natural exponential** takes multiples of the head off. -/
theorem exists_takesHeadOff (h : LibraryFunction.exponential.BuildsFrom s 0 f) {x : Datum} {a : Rat}
    (hx : x.Denotes a) (hmember : x.IsMember s.numberType.precision.format) :
    ∃ k, TakesHeadOff s f x a k := by
  obtain ⟨fit, scheme, -, -, hquantize⟩ := h
  obtain ⟨-, rfl⟩ := GeneratedFunction.quantizeFor_eq_ok_iff.mp hquantize
  have hτ := changesConstants_coded s.numberType
  have hcodable : (ExactConstant.named "log2e").Codable s.numberType :=
    Expr.codable_of_all (by decide +kernel) _
  have hnamed : (ExactConstant.named "log2e").Denotes s.numberType
      [("arg", .number (.binary s.numberType.precision x))] _ := .named hcodable
  obtain ⟨v, ⟨y, hy, hymember, rfl⟩, hconstant⟩ := hnamed
  have hmeasured (hroom : |measured s.numberType.precision a| ≤
      s.numberType.precision.format.maxValue) : (Value.number (.binary s.numberType.precision
        (x.mul s.numberType.precision.format y).nearestInteger)).Denotes s.numberType.precision
          (roundHalfEven (measured s.numberType.precision a) : Int) :=
    ⟨_, (hx.mul hy hroom).nearestInteger, (hmember.mul hymember).nearestInteger, rfl⟩
  refine ⟨_, ⟨_, scheme, rfl⟩, fun calls => ?_, hmeasured, fun q hq hsmall => ?_⟩
  · show Assigns _ calls ((List.map (Expr.coded s.numberType)
      (naturalBody s.numberType (head s.numberType.precision) _ scheme)).take 1) _ _
    rw [← List.map_take]
    have hproduct := Emulation.operation_multiplication hmember hymember
    have hnearest (z : Datum) : (Emulation.arithmetic s.numberType.precision).operation
        .nearestInteger [.number (.binary s.numberType.precision z)] =
          .ok (.number (.binary s.numberType.precision z.nearestInteger)) := rfl
    exact hτ.assigns_cons (hτ.gives_nearestInteger (hτ.gives_mul (hτ.gives_var rfl)
      (hconstant calls) hproduct) (hnearest _)) .nil
  · by_cases hroom : |measured s.numberType.precision a| ≤ s.numberType.precision.format.maxValue
    · have hk := hmeasured hroom
      obtain rfl := hq.unique hk
      exact ⟨_, rfl, takesOff ⟨x, hx, hmember, rfl⟩ hk hsmall⟩
    · -- measuring overflows, and an infinity denotes no number
      obtain ⟨negative, hoverflow⟩ := hx.mul_overflow hy hroom
      obtain ⟨z, hz, -, heq⟩ := hq
      rw [hoverflow] at heq
      cases heq
      cases hz

/-- **The first step of the natural exponential has no error.** The generator builds natural
exponentials with the head of the logarithm of two that belongs to the precision, and every one that
is built so takes the multiple of the head off every finite argument exactly, as long as the integer
has no more bits than are set apart. More generally, the product of such an integer and of leading
bits that are normal is a number of the format, and it is one of the precision unless it is larger
than the largest finite number. -/
theorem head_exact (s : Setting) :
    ((s.numberType.precision.format.bitSize : Int) = s.width → ∀ f,
      (natural s (s.counted .exponential)).outcome = .ok f →
        LibraryFunction.exponential.BuildsFrom s 0 f) ∧
    (∀ f, LibraryFunction.exponential.BuildsFrom s 0 f → ∀ (x : Datum) (a : Rat), x.Denotes a →
      x.IsMember s.numberType.precision.format → ∃ k, TakesHeadOff s f x a k) ∧
    ∀ (p : Precision) (v : Rat) (k : Int), 0 < v →
      pow2 p.format.minNormalExponent ≤
        truncateToBits v (p.format.mantissaSize - quotientBits) →
      |(k : Rat)| ≤ pow2 quotientBits →
        p.format.IsNumber (k * truncateToBits v (p.format.mantissaSize - quotientBits)) ∧
        (p.Has (k * truncateToBits v (p.format.mantissaSize - quotientBits)) ↔
          |k * truncateToBits v (p.format.mantissaSize - quotientBits)| ≤ p.format.maxValue) := by
  refine ⟨fun hwidth f h => ?_, fun f h x a hx hmember => exists_takesHeadOff h hx hmember,
    fun p v k hv hnormal hk => Precision.has_multiple_iff hv hnormal hk⟩
  rw [Traced.outcome_eq] at h
  have hends := exponential_buildsFrom_ends (E := True) hwidth (fun _ _ => .inl trivial) #[]
  exact hends.ok (Prod.ext h rfl)

/-- In single precision one multiple is taken off the number one, and three times the leading bits
of one third are a number of the precision. -/
theorem head_exact_one :
    ∃ f k, LibraryFunction.exponential.BuildsFrom ⟨⟨.single, false⟩, 32, .standard⟩ 0 f ∧
      TakesOff ⟨.single, false⟩ [("k", k), ("arg", .number (.binary .single (.finite false 1)))]
        1 1 ∧
      Precision.single.Has ((3 : Int) * truncateToBits (1 / 3)
        (Precision.single.format.mantissaSize - quotientBits)) := by
  obtain ⟨f, hf⟩ := Library.exists_buildsFrom (s := ⟨⟨.single, false⟩, 32, .standard⟩)
    (F := .exponential) rfl 0
  have hx : (Datum.finite false 1).Denotes 1 := .finite false one_pos.le
  have hmember : (Datum.finite false 1).IsMember Precision.single.format :=
    Datum.isMember_finite.mpr ⟨by norm_num, by decide +kernel, by decide +kernel⟩
  obtain ⟨-, hruns, hmultiple⟩ := head_exact ⟨⟨.single, false⟩, 32, .standard⟩
  obtain ⟨k, hk⟩ := hruns f hf _ 1 hx hmember
  have hone : roundHalfEven (measured .single 1) = 1 := by decide +kernel
  have hdenotes := hk.measured (by decide +kernel)
  rw [hone] at hdenotes
  obtain ⟨n, hn, htakes⟩ := hk.exact _ hdenotes (by decide +kernel)
  obtain rfl : 1 = n := by exact_mod_cast hn
  exact ⟨f, k, hf, htakes, (hmultiple .single (1 / 3) 3 (by norm_num) (by decide +kernel)
    (by decide +kernel)).2.mpr (by decide +kernel)⟩

/-- **Multiples may be too large**: twice the leading bits of the largest power of two are no number
of single precision, although they are normal and two has few bits. -/
theorem not_has_double_pow2 :
    0 < pow2 127 ∧
      pow2 Precision.single.format.minNormalExponent ≤ truncateToBits (pow2 127)
        (Precision.single.format.mantissaSize - quotientBits) ∧
      truncateToBits (pow2 127) (Precision.single.format.mantissaSize - quotientBits) ≤
        Precision.single.format.maxValue ∧
      |((2 : Int) : Rat)| ≤ pow2 quotientBits ∧
      ¬ Precision.single.Has ((2 : Int) * truncateToBits (pow2 127)
        (Precision.single.format.mantissaSize - quotientBits)) := by
  refine ⟨pow2_pos _, by decide +kernel, by decide +kernel, by decide +kernel, fun h => ?_⟩
  exact absurd h.abs_le_maxValue (by decide +kernel)

end Exponential

end Elementary
