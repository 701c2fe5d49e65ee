import Mathlib.Order.Interval.Set.UnorderedInterval
import Elementary.Proofs.BigFloat.SquareRoot
import Elementary.Proofs.Fit.Convergence

/-!
# Probes of a search

A golden-section search sets its probes at a part of its interval from one of the ends. The part is
at most three quarters, so that the roundings at the working precision do not carry a probe out of
the interval. So a search stays between the grid points where it begins, whatever the error is.

## Main definitions

* `BigFloat.IsRounded`: the numbers of a working precision.
* `Fit.ProbesBetween`: searches whose probes stay between the ends of their intervals.

## Main results

* `Fit.hasValues_isRounded`: operations at a working precision give numbers of it.
* `Fit.Problem.goldenRatio_mem`: the inverse of the golden ratio at the working precision.
* `Fit.probesBetween_of_le`: the probes of a part of at most three quarters.
-/

namespace Elementary

open BigFloat

variable {bits : Nat} {x y : BigFloat}

/-- The **numbers of a working precision**. -/
def BigFloat.IsRounded (bits : Nat) (x : BigFloat) : Prop :=
  ∃ d : Dyadic, x = .finite d ∧ Fits bits d.toRat

theorem BigFloat.IsRounded.isFinite (hx : x.IsRounded bits) : x.IsFinite := by
  obtain ⟨d, rfl, -⟩ := hx
  exact ⟨d, rfl⟩

theorem BigFloat.IsRounded.fits (hx : x.IsRounded bits) : Fits bits x.value := by
  obtain ⟨d, rfl, h⟩ := hx
  exact h

/-- What is rounded is a number of the working precision. -/
theorem BigFloat.isRounded_roundDyadic (hbits : 0 < bits) (d : Dyadic) :
    IsRounded bits (.finite (roundDyadic bits d)) :=
  ⟨_, rfl, fits_roundDyadic hbits d⟩

namespace Fit

/-- **Operations at a working precision** give numbers of it, from any finite numbers. -/
theorem isRounded_sub (hbits : 0 < bits) (hx : x.IsFinite) (hy : y.IsFinite) :
    IsRounded bits ((bigScalars bits).sub x y) := by
  obtain ⟨d, rfl⟩ := hx
  obtain ⟨d', rfl⟩ := hy
  exact isRounded_roundDyadic hbits _

/-- The numbers of a working precision are **an arithmetic of numbers with values**. -/
theorem hasValues_isRounded (hbits : 0 < bits) :
    (bigScalars bits).HasValues (IsRounded bits) BigFloat.value where
  ofInt n := isRounded_roundDyadic hbits _
  add := by
    rintro _ _ ⟨d, rfl, -⟩ ⟨d', rfl, -⟩
    exact isRounded_roundDyadic hbits _
  sub hx hy := isRounded_sub hbits hx.isFinite hy.isFinite
  mul := by
    rintro _ _ ⟨d, rfl, -⟩ ⟨d', rfl, -⟩
    exact isRounded_roundDyadic hbits _
  div := by
    rintro _ _ ⟨d, rfl, -⟩ ⟨d', rfl, -⟩
    exact ⟨_, rfl, BinaryScale.fits_round hbits _ _⟩
  neg := by
    rintro _ ⟨d, rfl, -⟩
    exact isRounded_roundDyadic hbits _
  pow := by
    rintro _ n ⟨d, rfl, -⟩
    exact ⟨_, rfl, BinaryScale.fits_round hbits _ _⟩
  sum := by
    intro xs hxs
    obtain ⟨ds, rfl⟩ := exists_map_finite fun x hx => (hxs x hx).isFinite
    exact ⟨_, sum_finite bits ds, fits_roundDyadic hbits _⟩
  lt_iff hx hy := lt_iff hx.isFinite hy.isFinite
  value_zero := rfl

/-- Negations at a working precision are exact on its numbers. -/
theorem neg_bigScalars {d : Dyadic} (h : Fits bits d.toRat) :
    (bigScalars bits).neg (.finite d) = .finite (-d) :=
  round_finite (by rw [Dyadic.toRat_neg]; exact h.neg)

/-- A number that is **negated twice** is the same. -/
theorem neg_neg_bigScalars (hx : x.IsRounded bits) :
    (bigScalars bits).neg ((bigScalars bits).neg x) = x := by
  obtain ⟨d, rfl, h⟩ := hx
  rw [neg_bigScalars h, neg_bigScalars (by rw [Dyadic.toRat_neg]; exact h.neg)]
  exact congrArg BigFloat.finite (Dyadic.toRat_inj.mp (by simp only [Dyadic.toRat_neg, neg_neg]))

/-! ### Roundings of sums and products -/

theorem exists_add (bits : Nat) (hx : x.IsFinite) (hy : y.IsFinite) : ∃ d : Dyadic,
    (bigScalars bits).add x y = .finite (roundDyadic bits d) ∧ d.toRat = x.value + y.value := by
  obtain ⟨d, rfl⟩ := hx
  obtain ⟨d', rfl⟩ := hy
  exact ⟨d + d', rfl, Dyadic.toRat_add d d'⟩

theorem exists_sub (bits : Nat) (hx : x.IsFinite) (hy : y.IsFinite) : ∃ d : Dyadic,
    (bigScalars bits).sub x y = .finite (roundDyadic bits d) ∧ d.toRat = x.value - y.value := by
  obtain ⟨d, rfl⟩ := hx
  obtain ⟨d', rfl⟩ := hy
  exact ⟨d + -d', rfl, by rw [Dyadic.toRat_add, Dyadic.toRat_neg, ← sub_eq_add_neg]; rfl⟩

theorem exists_mul (bits : Nat) (hx : x.IsFinite) (hy : y.IsFinite) : ∃ d : Dyadic,
    (bigScalars bits).mul x y = .finite (roundDyadic bits d) ∧ d.toRat = x.value * y.value := by
  obtain ⟨d, rfl⟩ := hx
  obtain ⟨d', rfl⟩ := hy
  exact ⟨d * d', rfl, Dyadic.toRat_mul d d'⟩

/-- **Halving** is exact. -/
theorem value_div_two (hbits : 0 < bits) (hx : x.IsRounded bits) :
    ((bigScalars bits).div x ((bigScalars bits).ofInt 2)).value = x.value / 2 := by
  obtain ⟨d, rfl, hd⟩ := hx
  have htwo : (bigScalars bits).ofInt 2 = .finite (.ofOdd 1 (-1) rfl) := by
    have hfits : Fits bits (Dyadic.ofInt 2).toRat :=
      ⟨1, 1, Nat.one_lt_two_pow hbits.ne', by
        rw [pow2_one, Int.cast_one, one_mul]
        exact Dyadic.toRat_intCast 2⟩
    refine (round_finite hfits).trans (congrArg BigFloat.finite ?_)
    exact ofInt_two_pow 1
  have hdiv : (bigScalars bits).div (.finite d) (.finite (.ofOdd 1 (-1) rfl)) =
      .finite (roundQuotient bits (parts d).1 1 ((parts d).2 - 1)) := by
    simp [bigScalars, div, parts]
  have hhalf : (((parts d).1 : Rat)) * pow2 ((parts d).2 - 1) = d.toRat / 2 := by
    rw [toRat_eq_parts, sub_eq_add_neg, pow2_add, pow2_neg_one]
    ring
  have hfits : Fits bits (d.toRat / 2) := by
    have := hd.mul_pow2 (-1)
    rwa [pow2_neg_one, mul_one_div] at this
  rw [htwo, hdiv, value_finite, value_finite, toRat_roundQuotient_one (hhalf ▸ hfits), hhalf]

/-! ### The golden ratio -/

/-- The working precision of a request that is not refused has **at least three bits**. -/
theorem Request.three_le_bits {r : Request} (h : 0 ≤ r.digits) : 3 ≤ r.bits := by
  have hbound : ((3 : Int) : Rat) ≤ ((r.workingDigits + 1 : Int) : Rat) *
      mkRat 33219280948873626 10000000000000000 := by
    have hdigits : (21 : Rat) ≤ ((r.workingDigits + 1 : Int) : Rat) := by
      have : 21 ≤ r.workingDigits + 1 := by
        rw [workingDigits, guardDigits]
        omega
      exact_mod_cast this
    have hfactor : (1 : Rat) ≤ mkRat 33219280948873626 10000000000000000 := by decide +kernel
    calc ((3 : Int) : Rat) ≤ 21 * 1 := by norm_num
      _ ≤ _ := mul_le_mul hdigits hfactor zero_le_one (by linarith)
  have hround := le_roundHalfEven hbound
  rw [bits, workingBits]
  omega

/-- Counts of few halves are numbers of a precision of some bits. -/
theorem fits_halves {bits : Nat} (hbits : 3 ≤ bits) {n : Int} (hn : n.natAbs < 8) :
    Fits bits ((n : Rat) / 2) := by
  rw [← mul_one_div, ← pow2_neg_one]
  exact ⟨n, -1, hn.trans_le (Nat.pow_le_pow_right two_pos hbits), rfl⟩

/-- **The root of five** lies between one and five halves. -/
theorem sqrt_five_spec {bits : Nat} (hbits : 3 ≤ bits) :
    (BigFloat.sqrt bits (.ofInt 5)).IsRounded bits ∧ 1 ≤ (BigFloat.sqrt bits (.ofInt 5)).value ∧
      (BigFloat.sqrt bits (.ofInt 5)).value ≤ 5 / 2 := by
  have hpos : 0 < bits := by omega
  have hfive : (Dyadic.ofInt 5).toRat = 5 := Dyadic.toRat_intCast 5
  have hpositive : 0 < (Dyadic.ofInt 5).toRat := by
    rw [hfive]
    norm_num
  have hone : Fits bits 1 := by simpa using fits_halves hbits (n := 2) (by decide)
  have hhigh : Fits bits (5 / 2) := by simpa using fits_halves hbits (n := 5) (by decide)
  obtain ⟨radicand, f, -, -, hsqrt⟩ := exists_sqrt bits hpositive
  refine ⟨⟨_, hsqrt, BinaryScale.fits_round hpos _ _⟩, ?_, ?_⟩
  · exact le_sqrt hpos hone zero_le_one hpositive (by rw [hfive]; norm_num)
  · exact sqrt_le hpos hhigh (by norm_num) hpositive (by rw [hfive]; norm_num)

/-- **The inverse of the golden ratio** at the working precision is a number of that precision, and
at most three quarters. -/
theorem Problem.goldenRatio_spec (p : Problem) (hbits : 3 ≤ p.request.bits) :
    p.goldenRatio.IsRounded p.request.bits ∧ 0 ≤ p.goldenRatio.value ∧
      p.goldenRatio.value ≤ 3 / 4 := by
  have hpos : 0 < p.request.bits := by omega
  have hhalves {n : Int} (hn : n.natAbs < 8) : Fits p.request.bits ((n : Rat) / 2) :=
    fits_halves hbits hn
  obtain ⟨hroot, hlow, hhigh⟩ := sqrt_five_spec hbits
  have hone : p.request.scalars.ofInt 1 = .ofInt 1 :=
    round_finite (Dyadic.toRat_intCast 1 ▸ by simpa using hhalves (n := 2) (by decide))
  -- one less lies between zero and three halves
  obtain ⟨d, hsub, hd⟩ := exists_sub p.request.bits hroot.isFinite (isFinite_ofInt 1)
  have hvalue : d.toRat = (BigFloat.sqrt p.request.bits (.ofInt 5)).value - 1 :=
    hd.trans (congrArg (_ - ·) (Dyadic.toRat_intCast 1))
  have hrounded := isRounded_roundDyadic hpos d
  have hzero : 0 ≤ (roundDyadic p.request.bits d).toRat :=
    le_roundDyadic hpos (by simpa using hhalves (n := 0) (by decide)) (by rw [hvalue]; linarith)
  have hthree : (roundDyadic p.request.bits d).toRat ≤ 3 / 2 :=
    roundDyadic_le hpos (by simpa using hhalves (n := 3) (by decide)) (by rw [hvalue]; linarith)
  have hratio : p.goldenRatio = (bigScalars p.request.bits).div
      (.finite (roundDyadic p.request.bits d)) ((bigScalars p.request.bits).ofInt 2) := by
    rw [goldenRatio, hone, ← hsub]
    rfl
  rw [hratio, value_div_two hpos hrounded, value_finite]
  refine ⟨(hasValues_isRounded hpos).div hrounded ((hasValues_isRounded hpos).ofInt 2), ?_, ?_⟩
  · linarith
  · linarith

/-! ### Probes -/

/-- A search whose **probes stay between** the ends of its intervals. -/
def ProbesBetween {κ : Type} (S : Scalars κ) (IsNumber : κ → Prop) (value : κ → Rat) (ratio : κ) :
    Prop :=
  ∀ low high, IsNumber low → IsNumber high →
    value (Bracket.lowProbe S ratio low high) ∈ Set.uIcc (value low) (value high) ∧
      value (Bracket.highProbe S ratio low high) ∈ Set.uIcc (value low) (value high)

/-- Rounding to at least three bits moves a number by no more than **an eighth** of it, and keeps its
sign. -/
theorem roundDyadic_mem (hbits : 3 ≤ bits) (d : Dyadic) :
    (0 ≤ d.toRat → 0 ≤ (roundDyadic bits d).toRat ∧
      (roundDyadic bits d).toRat ≤ 9 / 8 * d.toRat) ∧
    (d.toRat ≤ 0 → 9 / 8 * d.toRat ≤ (roundDyadic bits d).toRat ∧
      (roundDyadic bits d).toRat ≤ 0) := by
  have hpos : 0 < bits := by omega
  have hzero : Fits bits 0 := ⟨0, 0, Nat.two_pow_pos bits, by simp⟩
  have heighth : pow2 (-bits) ≤ 1 / 8 := by
    rw [show (1 : Rat) / 8 = pow2 (-3) by norm_num [pow2]]
    exact pow2_le_pow2.mpr (by omega)
  have hmoved := (abs_roundDyadic_sub_le hpos d).trans
    (mul_le_mul_of_nonneg_left heighth (abs_nonneg _))
  rw [abs_le] at hmoved
  constructor
  · intro hd
    rw [abs_of_nonneg hd] at hmoved
    exact ⟨le_roundDyadic hpos hzero hd, by linarith⟩
  · intro hd
    rw [abs_of_nonpos hd] at hmoved
    exact ⟨by linarith, roundDyadic_le hpos hzero hd⟩

/-- **A part of an interval** that is at most three quarters is not more than the interval when it
is rounded. -/
theorem value_part_mem {ratio low high : BigFloat} (hbits : 3 ≤ bits)
    (hratio : ratio.IsRounded bits) (hnonneg : 0 ≤ ratio.value) (hle : ratio.value ≤ 3 / 4)
    (hlow : low.IsRounded bits) (hhigh : high.IsRounded bits) :
    ((bigScalars bits).mul ratio ((bigScalars bits).sub high low)).value ∈
      Set.uIcc 0 (high.value - low.value) := by
  obtain ⟨d, hsub, hd⟩ := exists_sub bits hhigh.isFinite hlow.isFinite
  obtain ⟨part, hmul, hpart⟩ := exists_mul bits hratio.isFinite (⟨_, hsub⟩ : IsFinite _)
  rw [hsub, value_finite] at hpart
  rw [hmul, value_finite, ← hd, Set.mem_uIcc]
  rcases le_total 0 d.toRat with hsign | hsign
  · obtain ⟨hlow, hhigh⟩ := (roundDyadic_mem hbits d).1 hsign
    have hbound := mul_le_mul hle hhigh hlow (by norm_num)
    obtain ⟨hfirst, hlast⟩ := (roundDyadic_mem hbits part).1 (hpart ▸ mul_nonneg hnonneg hlow)
    exact .inl ⟨hfirst, by linarith⟩
  · obtain ⟨hlow, hhigh⟩ := (roundDyadic_mem hbits d).2 hsign
    have hbound : 3 / 4 * (9 / 8 * d.toRat) ≤ ratio.value * (roundDyadic bits d).toRat := by
      nlinarith
    obtain ⟨hfirst, hlast⟩ := (roundDyadic_mem hbits part).2
      (hpart ▸ mul_nonpos_of_nonneg_of_nonpos hnonneg hhigh)
    exact .inr ⟨by linarith, hlast⟩

/-- **The probes of a part** of at most three quarters stay between the ends. -/
theorem probesBetween_of_le {ratio : BigFloat} (hbits : 3 ≤ bits) (hratio : ratio.IsRounded bits)
    (hnonneg : 0 ≤ ratio.value) (hle : ratio.value ≤ 3 / 4) :
    ProbesBetween (bigScalars bits) (IsRounded bits) BigFloat.value ratio := by
  intro low high hlow hhigh
  have hpos : 0 < bits := by omega
  have hpart := value_part_mem hbits hratio hnonneg hle hlow hhigh
  have hrounded := (hasValues_isRounded hpos).mul hratio
    ((hasValues_isRounded hpos).sub hhigh hlow)
  rw [Set.mem_uIcc] at hpart
  obtain ⟨d, hsub, hd⟩ := exists_sub bits hhigh.isFinite hrounded.isFinite
  obtain ⟨d', hadd, hd'⟩ := exists_add bits hlow.isFinite hrounded.isFinite
  rw [Bracket.lowProbe, Bracket.highProbe, hsub, hadd, value_finite, value_finite, Set.mem_uIcc,
    Set.mem_uIcc]
  rcases hpart with ⟨hfirst, hlast⟩ | ⟨hfirst, hlast⟩
  · exact ⟨.inl ⟨le_roundDyadic hpos hlow.fits (by rw [hd]; linarith),
        roundDyadic_le hpos hhigh.fits (by rw [hd]; linarith)⟩,
      .inl ⟨le_roundDyadic hpos hlow.fits (by rw [hd']; linarith),
        roundDyadic_le hpos hhigh.fits (by rw [hd']; linarith)⟩⟩
  · exact ⟨.inr ⟨le_roundDyadic hpos hhigh.fits (by rw [hd]; linarith),
        roundDyadic_le hpos hlow.fits (by rw [hd]; linarith)⟩,
      .inr ⟨le_roundDyadic hpos hhigh.fits (by rw [hd']; linarith),
        roundDyadic_le hpos hlow.fits (by rw [hd']; linarith)⟩⟩

end Fit

end Elementary
