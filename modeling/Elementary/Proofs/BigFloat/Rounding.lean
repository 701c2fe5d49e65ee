import Elementary.BigFloat.Ball
import Elementary.Proofs.BigFloat.Exact

/-!
# Rounding and signs

Rounding to a working precision keeps signs apart: the negation of a number rounds to the negation
of what the number rounds to. What was rounded has no more bits than the working precision, so that
its negation is not rounded again. Every operation on finite numbers gives a finite number.

## Main definitions

* `BigFloat.IsFinite`: the finite numbers.
* `BigFloat.value`: the exact value of a finite number.

## Main results

* `BigFloat.roundDyadic_neg`: rounding keeps signs apart.
* `BigFloat.fits_roundDyadic`: what was rounded fits.
* `BigFloat.lt_iff`: the order is that of the values.
* `BigFloat.pow_negate_of_even`, `BigFloat.pow_negate_of_odd`, `BigFloat.sum_map_negate`: powers and
  sums of negations.
-/

namespace Elementary

variable {bits : Nat} {n e : Int}

/-- A count of units up to the next power of two still fits. -/
theorem fits_of_natAbs_le (hbits : 0 < bits) (h : n.natAbs ≤ 2 ^ bits) : Fits bits (n * pow2 e) := by
  rcases Nat.lt_or_eq_of_le h with hlt | heq
  · exact ⟨n, e, hlt, rfl⟩
  · refine ⟨n.sign, e + bits, ?_, ?_⟩
    · have hne : n ≠ 0 := by
        rintro rfl
        exact (Nat.two_pow_pos bits).ne heq
      rw [Int.natAbs_sign_of_ne_zero hne]
      exact Nat.one_lt_two_pow hbits.ne'
    · have hn : n = n.sign * (2 ^ bits : Nat) := by rw [← heq, Int.sign_mul_natAbs]
      rw [add_comm, pow2_add, pow2_natCast, ← mul_assoc]
      congr 1
      exact_mod_cast hn

namespace BinaryScale

/-- A rounded significand has no more bits than asked for, or is the next power of two. -/
theorem roundSignificand_le (bits m : Nat) : (roundSignificand bits m).1 ≤ 2 ^ bits := by
  rw [roundSignificand]
  dsimp only
  split
  · next h => exact (bitLength_le_iff.mp h).le
  · next h =>
    have hkept : m >>> (bitLength m - bits) < 2 ^ bits := by
      have hm : m < 2 ^ bitLength m := bitLength_le_iff.mp le_rfl
      rw [Nat.shiftRight_eq_div_pow, Nat.div_lt_iff_lt_mul (Nat.two_pow_pos _), ← Nat.pow_add]
      rwa [Nat.add_sub_cancel' (Nat.le_of_not_le h)]
    split
    · exact hkept
    · exact hkept.le

/-- **What was rounded fits.** -/
theorem fits_round (hbits : 0 < bits) (n e : Int) : Fits bits (round bits n e).toRat := by
  have hle := roundSignificand_le bits n.natAbs
  rw [round]
  generalize roundSignificand bits n.natAbs = r at hle
  obtain ⟨significand, drop⟩ := r
  dsimp only at hle ⊢
  rw [Dyadic.toRat_ofIntWithPrec_eq_mul_two_pow]
  refine fits_of_natAbs_le hbits ?_
  split <;> simpa using hle

/-- **Rounding keeps signs apart.** -/
theorem round_neg (bits : Nat) (n e : Int) : round bits (-n) e = -round bits n e := by
  rw [← Dyadic.toRat_inj, Dyadic.toRat_neg, round, round, Int.natAbs_neg]
  have hzero : n = 0 → (roundSignificand bits n.natAbs).1 = 0 := by
    rintro rfl
    rfl
  generalize roundSignificand bits n.natAbs = r at hzero
  obtain ⟨significand, drop⟩ := r
  dsimp only at hzero ⊢
  have hsigned : (if -n < 0 then -(significand : Int) else significand) =
      -(if n < 0 then -(significand : Int) else significand) := by
    rcases lt_trichotomy n 0 with hn | hn | hn
    · rw [if_neg (by omega), if_pos hn, neg_neg]
    · rw [hzero hn]
      simp
    · rw [if_pos (by omega), if_neg (by omega)]
  rw [hsigned, Dyadic.toRat_ofIntWithPrec_eq_mul_two_pow, Dyadic.toRat_ofIntWithPrec_eq_mul_two_pow,
    Int.cast_neg, neg_mul]

end BinaryScale

namespace BigFloat

variable {x y : BigFloat}

theorem fits_roundDyadic (hbits : 0 < bits) (d : Dyadic) : Fits bits (roundDyadic bits d).toRat := by
  cases d with
  | zero => exact ⟨0, 0, by simp, by simp [roundDyadic]⟩
  | ofOdd n k hn =>
    rw [roundDyadic]
    split
    · next h =>
      rw [Dyadic.toRat_ofOdd_eq_mul_two_pow]
      exact ⟨n, -k, bitLength_le_iff.mp h, rfl⟩
    · exact BinaryScale.fits_round hbits _ _

theorem roundDyadic_neg (bits : Nat) (d : Dyadic) :
    roundDyadic bits (-d) = -roundDyadic bits d := by
  cases d with
  | zero => rfl
  | ofOdd n k hn =>
    change roundDyadic bits (.ofOdd (-n) k _) = _
    rw [roundDyadic, roundDyadic, Int.natAbs_neg, BinaryScale.round_neg]
    split <;> rfl

theorem parts_neg (d : Dyadic) : parts (-d) = (-(parts d).1, (parts d).2) := by
  cases d <;> rfl

/-! ### Finite numbers -/

/-- The **finite numbers**. -/
def IsFinite (x : BigFloat) : Prop := ∃ d : Dyadic, x = .finite d

/-- The **exact value** of a finite number, and zero for the others. -/
def value (x : BigFloat) : Rat := x.toRat?.getD 0

@[simp] theorem value_finite (d : Dyadic) : value (.finite d) = d.toRat := rfl

/-- **The order** of finite numbers is that of their values. -/
theorem lt_iff (hx : x.IsFinite) (hy : y.IsFinite) : lt x y = true ↔ x.value < y.value := by
  obtain ⟨x, rfl⟩ := hx
  obtain ⟨y, rfl⟩ := hy
  rw [lt, compare?_finite, value_finite, value_finite]
  split
  · next h => simp [h]
  · next h => split <;> simp [h]

theorem IsFinite.round (hx : x.IsFinite) : (x.round bits).IsFinite := by
  obtain ⟨d, rfl⟩ := hx
  exact ⟨_, rfl⟩

theorem IsFinite.negate (hx : x.IsFinite) : x.negate.IsFinite := by
  obtain ⟨d, rfl⟩ := hx
  exact ⟨_, rfl⟩

theorem IsFinite.add (hx : x.IsFinite) (hy : y.IsFinite) : (add bits x y).IsFinite := by
  obtain ⟨d, rfl⟩ := hx
  obtain ⟨d', rfl⟩ := hy
  exact ⟨_, rfl⟩

theorem IsFinite.sub (hx : x.IsFinite) (hy : y.IsFinite) : (sub bits x y).IsFinite :=
  hx.add hy.negate

theorem IsFinite.mul (hx : x.IsFinite) (hy : y.IsFinite) : (mul bits x y).IsFinite := by
  obtain ⟨d, rfl⟩ := hx
  obtain ⟨d', rfl⟩ := hy
  exact ⟨_, rfl⟩

theorem IsFinite.div (hx : x.IsFinite) (hy : y.IsFinite) : (div bits x y).IsFinite := by
  obtain ⟨d, rfl⟩ := hx
  obtain ⟨d', rfl⟩ := hy
  exact ⟨_, rfl⟩

theorem IsFinite.pow (hx : x.IsFinite) (k : Nat) : (pow bits x k).IsFinite := by
  obtain ⟨d, rfl⟩ := hx
  exact ⟨_, rfl⟩

theorem isFinite_zero : zero.IsFinite := ⟨_, rfl⟩

theorem isFinite_ofInt (n : Int) : (ofInt n).IsFinite := ⟨_, rfl⟩

theorem isFinite_ofRat (bits : Nat) (q : Rat) : (ofRat bits q).IsFinite :=
  (isFinite_ofInt _).round.div (isFinite_ofInt _)

/-- The square root of a finite number is finite. -/
theorem IsFinite.sqrt (hx : x.IsFinite) : (sqrt bits x).IsFinite := by
  obtain ⟨d, rfl⟩ := hx
  rw [BigFloat.sqrt]
  dsimp only
  split
  · exact isFinite_zero
  · exact ⟨_, rfl⟩

/-- A number that enclosures decide is finite. -/
theorem isFinite_roundedBy (bits : Nat) (enclose : Nat → Ball) (fuel working : Nat) :
    (roundedBy bits enclose fuel working).IsFinite := by
  induction fuel generalizing working with
  | zero => exact ⟨_, rfl⟩
  | succ fuel ih =>
    rw [roundedBy]
    dsimp only
    split
    · exact ⟨_, rfl⟩
    · exact ih _

/-- The exact sum of dyadics, from a first one on. -/
theorem foldl_sum_finite (bits : Nat) (ds : List Dyadic) (a : Dyadic) :
    (ds.map finite).foldl (fun total x =>
      match total, x with
      | finite a, finite b => finite (a + b)
      | total, x => BigFloat.add bits total x) (finite a) = finite (ds.foldl (· + ·) a) := by
  induction ds generalizing a with
  | nil => rfl
  | cons d ds ih => exact ih (a + d)

/-- **A sum** of finite numbers is the exact sum, rounded once. -/
theorem sum_finite (bits : Nat) (ds : List Dyadic) :
    sum bits (ds.map finite) = finite (roundDyadic bits (ds.foldl (· + ·) .zero)) :=
  congrArg (BigFloat.round bits) (foldl_sum_finite bits ds .zero)

theorem exists_map_finite {xs : List BigFloat} (h : ∀ x ∈ xs, x.IsFinite) :
    ∃ ds : List Dyadic, xs = ds.map finite := by
  induction xs with
  | nil => exact ⟨[], rfl⟩
  | cons x xs ih =>
    obtain ⟨d, rfl⟩ := h x List.mem_cons_self
    obtain ⟨ds, rfl⟩ := ih fun x hx => h x (List.mem_cons_of_mem _ hx)
    exact ⟨d :: ds, rfl⟩

theorem isFinite_sum {xs : List BigFloat} (h : ∀ x ∈ xs, x.IsFinite) : (sum bits xs).IsFinite := by
  obtain ⟨ds, rfl⟩ := exists_map_finite h
  exact ⟨_, sum_finite bits ds⟩

/-! ### Negations -/

theorem add_negate (hx : x.IsFinite) (hy : y.IsFinite) :
    add bits x.negate y.negate = (add bits x y).negate := by
  obtain ⟨d, rfl⟩ := hx
  obtain ⟨d', rfl⟩ := hy
  have hsum : -d + -d' = -(d + d') := by
    rw [← Dyadic.toRat_inj]
    simp only [Dyadic.toRat_add, Dyadic.toRat_neg]
    ring
  simp only [negate, add, hsum, roundDyadic_neg]

theorem sub_negate (hx : x.IsFinite) (hy : y.IsFinite) :
    sub bits x.negate y.negate = (sub bits x y).negate :=
  add_negate hx hy.negate

theorem mul_negate (hx : x.IsFinite) (hy : y.IsFinite) :
    mul bits x y.negate = (mul bits x y).negate := by
  obtain ⟨d, rfl⟩ := hx
  obtain ⟨d', rfl⟩ := hy
  have hproduct : d * -d' = -(d * d') := by
    rw [← Dyadic.toRat_inj]
    simp only [Dyadic.toRat_mul, Dyadic.toRat_neg]
    ring
  simp only [negate, mul, mulExact, round, hproduct, roundDyadic_neg]

/-- **Even powers** do not see the sign. -/
theorem pow_negate_of_even (hx : x.IsFinite) {k : Nat} (hk : Even k) :
    pow bits x.negate k = pow bits x k := by
  obtain ⟨d, rfl⟩ := hx
  rw [negate, pow, pow, parts_neg]
  dsimp only
  rw [show Int.pow (-(parts d).1) k = Int.pow (parts d).1 k from hk.neg_pow _]

/-- **Odd powers** keep it. -/
theorem pow_negate_of_odd (hx : x.IsFinite) {k : Nat} (hk : Odd k) :
    pow bits x.negate k = (pow bits x k).negate := by
  obtain ⟨d, rfl⟩ := hx
  rw [negate, pow, pow, parts_neg]
  dsimp only
  rw [show Int.pow (-(parts d).1) k = -Int.pow (parts d).1 k from hk.neg_pow _,
    BinaryScale.round_neg, negate]

theorem foldl_neg (ds : List Dyadic) (a : Dyadic) :
    (ds.map (-·)).foldl (· + ·) (-a) = -ds.foldl (· + ·) a := by
  induction ds generalizing a with
  | nil => rfl
  | cons d ds ih =>
    have hsum : -a + -d = -(a + d) := by
      rw [← Dyadic.toRat_inj]
      simp only [Dyadic.toRat_add, Dyadic.toRat_neg]
      ring
    rw [List.map_cons, List.foldl_cons, hsum, ih, List.foldl_cons]

/-- **A sum of negations** is the negation of the sum. -/
theorem sum_map_negate {xs : List BigFloat} (h : ∀ x ∈ xs, x.IsFinite) :
    sum bits (xs.map negate) = (sum bits xs).negate := by
  obtain ⟨ds, rfl⟩ := exists_map_finite h
  have hmap : (ds.map finite).map negate = (ds.map (-·)).map finite := by
    rw [List.map_map, List.map_map]
    rfl
  rw [hmap, sum_finite, sum_finite, show (Dyadic.zero : Dyadic) = -Dyadic.zero from rfl, foldl_neg,
    roundDyadic_neg]
  rfl

end BigFloat

end Elementary
