import Elementary.Proofs.Family.Generation
import Elementary.Proofs.Family.Reduction
import Elementary.Proofs.Format.Difference
import Elementary.Proofs.Format.Overflow

/-!
# The scaling of the binary exponential

The binary exponential multiplies the value of its polynomial by a power of two that is built on its
own. The power overflows as soon as the nearest integer to the argument passes the largest exponent,
that is from half a unit above this exponent on, the half included, although the product with a
polynomial value below one would still be finite. Before that, from the smallest normal exponent on,
the product of a polynomial value between `0.7` and `1.42` neither overflows nor vanishes.

## Main definitions

* `Fit.Result.StaysIn`, `Fit.Result.HasValueAt`: bounds of the values that a fit gives in the
  emulation of a precision, and these values.

## Main results

* `Precision.lt_roundHalfEven_iff`: where the nearest integer passes the largest exponent.
* `Emulation.powerOfTwo_overflow`: the power of two that is an infinity.
* `Exponential.scaled_spec`: the product before the power overflows.
* `Exponential.binary_scaling`: where the binary exponential is finite and positive, and where it is
  an infinity.
* `Exponential.binary_overflow`: an infinity for a power of two well inside the range.
-/

namespace Elementary

open Expr (Assigns)
open Setting (variableIn)

/-- A fit **stays between two bounds** in a number type: wherever in its domain the quantized scheme
has a value, this denotes a number between them. -/
def Fit.Result.StaysIn (nt : NumberType) (fit : Fit.Result) (low high : Rat) : Prop :=
  ∀ scheme env q calls v, fit.expression = .ok scheme → fit.request.Contains q →
    BindsNumber nt.precision env fit.request.argument q →
    (scheme.coded nt).Gives (Emulation.arithmetic nt.precision) calls env v →
      ∃ y, v.Denotes nt.precision y ∧ low ≤ y ∧ y ≤ high

/-- A fit **has a value at a number** in a number type: the quantized scheme denotes it where its
variable is bound to that number. -/
def Fit.Result.HasValueAt (nt : NumberType) (fit : Fit.Result) (q y : Rat) : Prop :=
  ∃ scheme env, fit.expression = .ok scheme ∧ BindsNumber nt.precision env fit.request.argument q ∧
    scheme.Denotes nt env y

/-! ### Powers of two -/

variable {p : Precision} {a y : Rat} {n : Int}

/-- The nearest integer **passes the largest exponent** from half a unit above it on. -/
theorem Precision.lt_roundHalfEven_iff (p : Precision) (a : Rat) :
    p.format.maxExponent < roundHalfEven a ↔ (p.format.maxExponent : Rat) + 1 / 2 ≤ a := by
  have heven : (p.format.maxExponent + 1) % 2 = 0 := by cases p <;> decide
  rw [← Int.add_one_le_iff, le_roundHalfEven_iff heven]
  push_cast
  constructor <;> intro h <;> linarith

/-- A power of two above the largest exponent **is an infinity**. -/
theorem Datum.powerOfTwo_overflow (hn : p.format.maxExponent < n) :
    Datum.powerOfTwo p.format n = .infinite false := by
  have hsubnormal : p.format.minSubnormalExponent < p.format.maxExponent := by cases p <;> decide
  rw [Datum.powerOfTwo]
  generalize hclamp : max (p.format.minSubnormalExponent - 8)
    (min n (p.format.maxExponent + 8)) = k
  have hk : p.format.maxExponent + 1 ≤ k := by omega
  have hlarge : p.format.maxValue < p.format.round (pow2 k) :=
    calc p.format.maxValue < 2 * pow2 p.format.maxExponent := p.maxValue_lt
      _ = pow2 (p.format.maxExponent + 1) := (pow2_add_one _).symm
      _ ≤ pow2 k := pow2_le_pow2.mpr hk
      _ = p.format.round (pow2 k) := (Format.isNumber_pow2 (by omega)).round_eq_self.symm
  rw [Datum.ofMagnitude]
  exact if_pos hlarge

/-- **The power of two that overflows** in the emulation. -/
theorem Emulation.powerOfTwo_overflow {s : Scalar} (hs : s.Denotes p n) (h : p.Has n)
    (hn : n = p.format.maxExponent + 1) :
    powerOfTwo p s = .ok (.binary p (.infinite false)) := by
  have hword : isWord n = true := by
    subst hn
    cases p <;> decide
  rw [powerOfTwo, toInt_eq hs h, ← Datum.powerOfTwo_overflow (p := p) (n := n) (by omega)]
  show (if isWord n then _ else _) = _
  rw [if_pos hword]
  rfl

/-! ### Products -/

/-- **A product before the power overflows** is finite, and it does not vanish. -/
theorem Exponential.scaled_spec (hlow : 7 / 10 ≤ y) (hhigh : y ≤ 71 / 50)
    (hmin : p.format.minNormalExponent ≤ n) (hmax : n ≤ p.format.maxExponent) :
    0 < p.format.round (y * pow2 n) ∧ |p.format.round (y * pow2 n)| ≤ p.format.maxValue := by
  have hsubnormal : p.format.minSubnormalExponent ≤ p.format.minNormalExponent - 1 := by
    cases p <;> decide
  have hhalf (k : Int) : pow2 (k - 1) = 1 / 2 * pow2 k := by
    have hdouble := pow2_add_one (k - 1)
    rw [sub_add_cancel] at hdouble
    linarith
  have hbelow : p.Has (pow2 (n - 1)) := Precision.has_pow2 (by omega) (by omega)
  have hpositive : 0 < p.format.round (y * pow2 n) := by
    refine (pow2_pos (n - 1)).trans_le (hbelow.le_round ?_)
    rw [hhalf]
    exact mul_le_mul_of_nonneg_right (by linarith) (pow2_pos n).le
  have habove : p.Has ((3 : Int) * pow2 (p.format.maxExponent - 1)) := by
    refine Precision.has_iff.mpr ⟨Format.isNumber_intCast_mul ?_ ?_, ?_⟩ <;>
      cases p <;> decide +kernel
  have hroom : y * pow2 n ≤ (3 : Int) * pow2 (p.format.maxExponent - 1) :=
    calc y * pow2 n ≤ 3 / 2 * pow2 p.format.maxExponent :=
          mul_le_mul (by linarith) (pow2_le_pow2.mpr hmax) (pow2_pos n).le (by norm_num)
      _ = (3 : Int) * pow2 (p.format.maxExponent - 1) := by
          rw [hhalf]
          push_cast
          ring
  refine ⟨hpositive, ?_⟩
  rw [abs_of_pos hpositive]
  exact (habove.round_le hroom).trans ((le_abs_self _).trans habove.abs_le_maxValue)

/-- A positive number multiplied by a power of two that overflowed is **an infinity**. -/
theorem Datum.mul_infinite {x : Datum} (fmt : Format) (hx : x.Denotes y) (hy : 0 < y) :
    x.mul fmt (.infinite false) = .infinite false := by
  cases hx with
  | @finite negative m hm =>
    cases negative with
    | false =>
      have hm0 : m ≠ 0 := hy.ne'
      rw [Datum.mul, if_neg hm0]
      rfl
    | true => exact absurd hy (neg_nonpos.mpr hm).not_gt

/-! ### The function -/

namespace Exponential

variable {nt : NumberType} {env : Bindings Scalar} {w k : Value Scalar} {s : Setting}
  {f : GeneratedFunction} {x : Datum}

/-- The **result of a binary exponential**, under bindings of the value of the polynomial and of the
integer. -/
abbrev scaled (nt : NumberType) : Expr :=
  variableIn nt "p" * Expr.exponentInsertion (variableIn nt "k")

/-- **Before the power overflows** the result is the product, rounded once. -/
theorem denotes_scaled (hw : w.Denotes nt.precision y) (hk : k.Denotes nt.precision n)
    (hp : env.lookup "p" = some w) (hkey : env.lookup "k" = some k) (hlow : 7 / 10 ≤ y)
    (hhigh : y ≤ 71 / 50) (hmin : nt.precision.format.minNormalExponent ≤ n)
    (hmax : n ≤ nt.precision.format.maxExponent) :
    (scaled nt).Denotes nt env (nt.precision.format.round (y * pow2 n)) := by
  have hsubnormal : nt.precision.format.minSubnormalExponent ≤
      nt.precision.format.minNormalExponent := by
    cases nt.precision <;> decide
  have hpower : (Expr.exponentInsertion (variableIn nt "k")).Denotes nt env (pow2 n) :=
    (Expr.Denotes.var hk hkey).powerOfTwo (hsubnormal.trans hmin) hmax
  exact (Expr.Denotes.var hw hp).binary .multiplication hpower rfl
    (scaled_spec hlow hhigh hmin hmax).2

/-- **When the power overflows** the result is an infinity. -/
theorem gives_scaled_overflow (hw : w.Denotes nt.precision y) (hk : k.Denotes nt.precision n)
    (hp : env.lookup "p" = some w) (hkey : env.lookup "k" = some k) (hpos : 0 < y)
    (hn : n = nt.precision.format.maxExponent + 1) (calls : Calls Scalar) :
    ((scaled nt).coded nt).Gives (Emulation.arithmetic nt.precision) calls env
      (.number (.binary nt.precision (.infinite false))) := by
  have hτ := changesConstants_coded nt
  obtain ⟨d, hd, hmember, rfl⟩ := hw
  obtain ⟨e, he, hinteger, rfl⟩ := hk
  have hpower : (Emulation.arithmetic nt.precision).operation .exponentInsertion
      [.number (.binary nt.precision e)] =
        .ok (.number (.binary nt.precision (.infinite false))) := by
    show (do return Value.number (← Emulation.powerOfTwo _ (.binary nt.precision e))) = _
    rw [Emulation.powerOfTwo_overflow (.binary nt.precision.wider_self he) ⟨e, he, hinteger⟩ hn]
    rfl
  have hinfinite : (Datum.infinite false).IsMember nt.precision.format := Datum.isMember_infinite
  have hproduct := Emulation.operation_multiplication hmember hinfinite
  rw [Datum.mul_infinite _ hd hpos] at hproduct
  exact hτ.gives_mul (hτ.gives_var hp) (hτ.gives_unary rfl rfl (hτ.gives_var hkey) hpower) hproduct

/-- **What a binary exponential computes** before it scales: the nearest integer to the argument,
and the value of the fit at what is left. -/
theorem exists_scaled (h : LibraryFunction.binaryExponential.Builds s f) {low high a : Rat}
    (hfits : ∀ fit ∈ f.fits, fit.StaysIn s.numberType low high) (hx : x.Denotes a)
    (hmember : x.IsMember s.numberType.precision.format) :
    ∃ y w k env, low ≤ y ∧ y ≤ high ∧
      (∃ fit ∈ f.fits, fit.HasValueAt s.numberType (remainder a) y) ∧
      w.Denotes s.numberType.precision y ∧
      k.Denotes s.numberType.precision (roundHalfEven a : Int) ∧
      List.lookup "p" env = some w ∧ List.lookup "k" env = some k ∧
      ∀ v, (∀ calls, ((scaled s.numberType).coded s.numberType).Gives
          (Emulation.arithmetic s.numberType.precision) calls env v) →
        ∀ find depth, (Emulation.arithmetic s.numberType.precision).call find (depth + 1) f
          [.number (.binary s.numberType.precision x)] = .ok v := by
  have hτ := changesConstants_coded s.numberType
  obtain ⟨run, hreduces, hnumber, k, hkey, hk⟩ :=
    LibraryFunction.binaryExponential_reduces hx hmember h
  have hfit : run.fit ∈ f.fits := hreduces.fits ▸ List.mem_singleton_self _
  have hleft := hreduces.lands.isBound
  obtain ⟨y, hw, hlow, hhigh⟩ := hfits run.fit hfit _ _ _ (fun _ => none) _ hreduces.expression
    hreduces.lands.contains hleft (hreduces.gives _)
  rw [hnumber] at hleft
  have hvalue : run.fit.HasValueAt s.numberType (remainder a) y :=
    ⟨run.scheme, run.bindings, hreduces.expression, hleft, run.value, hw, hreduces.gives⟩
  refine ⟨y, run.value, k, ("p", run.value) :: run.bindings, hlow, hhigh, ⟨run.fit, hfit, hvalue⟩,
    hw, hk, rfl, hkey, ?_⟩
  intro v hv find depth
  have hbound := Arithmetic.bindArguments_singleton (Emulation.argument_binary hmember) "arg"
  have hargs : f.arguments = ["arg"] := h.isBuilt.arguments
  rw [← hargs] at hbound
  have hrun (calls : Calls Scalar) : Expr.evaluateSequence
      (Emulation.arithmetic s.numberType.precision) calls f.statements
        [("arg", .number (.binary s.numberType.precision x))] =
          .ok (v, ("p", run.value) :: run.bindings) := by
    rw [hreduces.statements]
    refine hτ.evaluateSequence_body ?_ rfl (hv calls)
    exact (hreduces.assigns calls).append (hτ.assigns_cons (hreduces.gives calls) .nil)
  exact Arithmetic.call_eq hbound (hrun _)

/-- **The binary exponential is finite and positive** for the arguments below the largest exponent
and half a unit, and an infinity from there on. The generator builds binary exponentials, and of
every one that is built, whatever its fit is, as long as the values of the fit lie between `0.7` and
`1.42`: from the smallest normal exponent on, the result is the product of the value of the fit at
what is left of the argument and the power of two for the nearest integer, rounded once, which is
positive. But from half a unit above the largest exponent on the power itself overflows, although
two to the argument is still in range. -/
theorem binary_scaling (s : Setting) :
    (∀ f, (binary s (s.counted .exponential)).outcome = .ok f →
      LibraryFunction.binaryExponential.Builds s f) ∧
    ∀ f, LibraryFunction.binaryExponential.Builds s f →
      (∀ fit ∈ f.fits, fit.StaysIn s.numberType (7 / 10) (71 / 50)) →
      ∀ (x : Datum) (a : Rat), x.Denotes a → x.IsMember s.numberType.precision.format →
        (s.numberType.precision.format.minNormalExponent : Rat) ≤ a →
        a ≤ s.numberType.precision.format.maxExponent + 3 / 4 →
        ∃ (y : Rat) (z : Datum), 7 / 10 ≤ y ∧ y ≤ 71 / 50 ∧
          (∃ fit ∈ f.fits, fit.HasValueAt s.numberType (remainder a) y) ∧
          (∀ find depth, (Emulation.arithmetic s.numberType.precision).call find (depth + 1) f
            [.number (.binary s.numberType.precision x)] =
              .ok (.number (.binary s.numberType.precision z))) ∧
          (a < s.numberType.precision.format.maxExponent + 1 / 2 →
            0 < s.numberType.precision.format.round (y * pow2 (roundHalfEven a)) ∧
              z.Denotes (s.numberType.precision.format.round (y * pow2 (roundHalfEven a)))) ∧
          (s.numberType.precision.format.maxExponent + 1 / 2 ≤ a → z = .infinite false) := by
  refine ⟨fun f h => ?_, fun f h hfits x a hx hmember hmin hmax => ?_⟩
  · rw [Traced.outcome_eq] at h
    have hends := isGenerated_binaryExponential (s := s) (E := True) (fun _ _ => .inl trivial) #[]
    exact hends.ok (Prod.ext h rfl)
  · obtain ⟨y, w, k, env, hlow, hhigh, hvalue, hw, hk, hp, hkey, hcall⟩ :=
      exists_scaled h hfits hx hmember
    have hpasses := s.numberType.precision.lt_roundHalfEven_iff a
    rcases lt_or_ge a (s.numberType.precision.format.maxExponent + 1 / 2) with hbelow | habove
    · have hexponent := not_lt.mp (mt hpasses.mp hbelow.not_ge)
      have hnormal := le_roundHalfEven hmin
      obtain ⟨_, ⟨z, hz, -, rfl⟩, hgives⟩ :=
        denotes_scaled hw hk hp hkey hlow hhigh hnormal hexponent
      exact ⟨y, z, hlow, hhigh, hvalue, hcall _ hgives, fun _ =>
        ⟨(scaled_spec hlow hhigh hnormal hexponent).1, hz⟩, fun habove => absurd hbelow habove.not_gt⟩
    · have hexponent := hpasses.mpr habove
      have hnext : roundHalfEven a ≤ s.numberType.precision.format.maxExponent + 1 :=
        roundHalfEven_le (by push_cast; linarith)
      have hpos : 0 < y := by linarith
      exact ⟨y, .infinite false, hlow, hhigh, hvalue,
        hcall _ (gives_scaled_overflow hw hk hp hkey hpos (by omega)),
        fun hbelow => absurd habove hbelow.not_ge, fun _ => rfl⟩

/-! ### A linear fit -/

/-- A fit of the powers of two by `1 + r / 2`. -/
def linearFit : Fit.Result where
  request := ⟨.expr (.mathFunction "exp2" [.var "r"]), "r", 2, .literal "-0.5", .literal "0.5",
    .none, 32⟩
  polynomial := .ofList [(0, .ratio 1), (1, .ratio (1 / 2))]
  error := .ratio (1 / 6)
  levelled := .ratio (1 / 6)
  iterations := 1

/-- Its scheme. -/
def linearScheme : Expr :=
  .mulAdd (.constant (.ratio (1 / 2))) (.var "r") (.constant (.ratio 1))

theorem expression_linearFit : linearFit.expression = .ok linearScheme := rfl

/-- The coefficients are exact. -/
theorem isExactConstant_linear (nt : NumberType) :
    Expr.IsExactConstant nt (.constant (.ratio (1 / 2))) (1 / 2) ∧
      Expr.IsExactConstant nt (.constant (.ratio 1)) 1 :=
  ⟨⟨_, rfl, rfl, Expr.codable_of_all (by decide +kernel) _, Precision.has_half⟩,
    ⟨_, rfl, rfl, Expr.codable_of_all (by decide +kernel) _, Precision.has_one⟩⟩

/-- The rounded values of `1 + r / 2` lie **between three and five quarters**: no rounding passes
these. -/
theorem round_linear_between (p : Precision) {q : Rat} (hq : |q| ≤ 1 / 2) :
    |p.format.round (1 / 2 * q)| ≤ 1 / 4 ∧
      3 / 4 ≤ p.format.round (p.format.round (1 / 2 * q) + 1) ∧
      p.format.round (p.format.round (1 / 2 * q) + 1) ≤ 5 / 4 := by
  have hproduct : |p.format.round (1 / 2 * q)| ≤ 1 / 4 := by
    refine Precision.abs_round_le Precision.has_quarter ?_
    rw [abs_mul, abs_of_pos one_half_pos]
    linarith
  obtain ⟨hfrom, hto⟩ := abs_le.mp hproduct
  have hquarters {n : Int} (hn : n.natAbs ≤ 5) : p.Has ((n : Rat) / 4) :=
    Precision.has_quarters (hn.trans (by cases p <;> decide))
  have hthree : p.Has (3 / 4) := by simpa using hquarters (n := 3) (by decide)
  have hfive : p.Has (5 / 4) := by simpa using hquarters (n := 5) (by decide)
  exact ⟨hproduct, hthree.le_round (by linarith), hfive.round_le (by linarith)⟩

/-- The fit **stays** between `0.7` and `1.42`. -/
theorem staysIn_linearFit (nt : NumberType) : linearFit.StaysIn nt (7 / 10) (71 / 50) := by
  intro scheme env q calls v hscheme hdomain hbound hgives
  obtain rfl : linearScheme = scheme := Except.ok.inj hscheme
  obtain ⟨arg, hlookup, harg⟩ := hbound
  have hq : |q| ≤ 1 / 2 := by
    obtain ⟨low, high, hlow, hhigh, hfrom, hto⟩ := hdomain
    obtain rfl : -(1 / 2) = low := Except.ok.inj (Eq.trans (by decide +kernel) hlow)
    obtain rfl : 1 / 2 = high := Except.ok.inj (Eq.trans (by decide +kernel) hhigh)
    exact abs_le.mpr ⟨hfrom, hto⟩
  obtain ⟨hproduct, hfrom, hto⟩ := round_linear_between nt.precision hq
  have hroom : (5 : Rat) / 4 ≤ nt.precision.format.maxValue := by
    cases nt.precision <;> decide +kernel
  obtain ⟨hslope, hconstant⟩ := isExactConstant_linear nt
  have hfactor : (Expr.constant (.ratio (1 / 2))).Denotes nt env (1 / 2) := .exact_constant hslope
  obtain ⟨u, hu, hvalue⟩ := hfactor.mulAdd (.var harg hlookup) (.exact_constant hconstant)
    (hproduct.trans (by linarith)) (abs_le.mpr ⟨by linarith, by linarith⟩)
  obtain rfl : u = v := congrArg Prod.fst (Except.ok.inj ((hvalue calls).symm.trans hgives))
  exact ⟨_, hu, by linarith, by linarith⟩

/-- Single precision, where the exponentials have two terms. -/
def linearSetting : Setting :=
  ⟨⟨.single, false⟩, 32, TermTables.standard.set .exponential 32 (some 2)⟩

/-- A binary exponential **can be built** from that fit. -/
theorem exists_linearExponential :
    ∃ f, LibraryFunction.binaryExponential.Builds linearSetting f ∧
      ∀ fit ∈ f.fits, fit.StaysIn linearSetting.numberType (7 / 10) (71 / 50) := by
  have hcodable : linearScheme.Codable linearSetting.numberType :=
    Expr.codable_of_all (by decide +kernel) _
  have hrequests : LibraryFunction.binaryExponential.requests linearSetting =
      [linearFit.request] := rfl
  obtain ⟨f, hf, hfits⟩ :=
    Library.exists_buildsFrom_of_fit hrequests expression_linearFit hcodable 0
  exact ⟨f, hf.builds, hfits ▸ List.forall_mem_singleton.mpr (staysIn_linearFit _)⟩

/-- At `3` the linear binary exponential is a positive number, and at `127.75` an infinity. -/
theorem binary_scaling_linear :
    ∃ f, LibraryFunction.binaryExponential.Builds linearSetting f ∧
      (∃ z q, 0 < q ∧ Datum.Denotes z q ∧
        (Emulation.arithmetic .single).call (fun _ => none) 1 f
          [.number (.binary .single (.finite false 3))] = .ok (.number (.binary .single z))) ∧
      (Emulation.arithmetic .single).call (fun _ => none) 1 f
        [.number (.binary .single (.finite false (511 / 4)))] =
          .ok (.number (.binary .single (.infinite false))) := by
  obtain ⟨f, hbuilds, hfits⟩ := exists_linearExponential
  have hscales := (binary_scaling linearSetting).2 f hbuilds hfits
  have hmember (m : Rat) (h : 0 ≤ m ∧ Precision.single.format.round m = m ∧
      m ≤ Precision.single.format.maxValue) :
      (Datum.finite false m).IsMember linearSetting.numberType.precision.format :=
    Datum.isMember_finite.mpr h
  obtain ⟨y, z, -, -, -, hcall, hfinite, -⟩ := hscales (.finite false 3) 3
    (.finite false (by norm_num)) (hmember 3 (by decide +kernel)) (by decide +kernel)
    (by decide +kernel)
  obtain ⟨y', z', -, -, -, hcall', -, hinfinite⟩ := hscales (.finite false (511 / 4)) (511 / 4)
    (.finite false (by norm_num)) (hmember (511 / 4) (by decide +kernel)) (by decide +kernel)
    (by decide +kernel)
  obtain ⟨hpos, hz⟩ := hfinite (by decide +kernel)
  obtain rfl := hinfinite (by decide +kernel)
  exact ⟨f, hbuilds, ⟨z, _, hpos, hz, hcall _ 0⟩, hcall' _ 0⟩

/-- **The power overflows early**: at `127.5`, half a unit above the largest exponent, the linear
binary exponential is an infinity. -/
theorem binary_overflow :
    ∃ f, LibraryFunction.binaryExponential.Builds linearSetting f ∧
      (∀ fit ∈ f.fits, fit.StaysIn ⟨.single, false⟩ (7 / 10) (71 / 50)) ∧
      (Precision.single.format.minNormalExponent : Rat) ≤ 255 / 2 ∧
      (255 / 2 : Rat) ≤ Precision.single.format.maxExponent + 3 / 4 ∧
      ∀ find depth, (Emulation.arithmetic .single).call find (depth + 1) f
        [.number (.binary .single (.finite false (255 / 2)))] =
          .ok (.number (.binary .single (.infinite false))) := by
  obtain ⟨f, hbuilds, hfits⟩ := exists_linearExponential
  have hmember : (Datum.finite false (255 / 2)).IsMember Precision.single.format :=
    Datum.isMember_finite.mpr (by decide +kernel)
  have hx : (Datum.finite false (255 / 2)).Denotes (255 / 2) := .finite false (by norm_num)
  obtain ⟨y, w, k, env, hlow, -, -, hw, hk, hp, hkey, hcall⟩ :=
    exists_scaled hbuilds hfits hx hmember
  have hpos : 0 < y := by linarith
  have hexponent : roundHalfEven (255 / 2) = Precision.single.format.maxExponent + 1 := by
    decide +kernel
  exact ⟨f, hbuilds, hfits, by decide +kernel, by decide +kernel,
    hcall _ (gives_scaled_overflow hw hk hp hkey hpos hexponent)⟩

end Exponential

end Elementary
