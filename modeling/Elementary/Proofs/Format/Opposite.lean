import Elementary.Proofs.Format.Datum

/-!
# Opposite numbers

The sign of a datum is kept apart from its magnitude, and rounding looks at the magnitude alone. So
the operations of a format commute with a change of sign without any error. Only the sign of a zero
sum depends on more than the numbers added, and a zero is opposite to both zeros here.

## Main definitions

* `Datum.SameNumber`: data that are equal as numbers, or both no number.
* `Datum.Opposite`: data that are opposite as numbers, or both no number.

## Main results

* `Datum.Opposite.add`, `sub`, `mul`, `convert`, `nearestInteger`: operations that keep opposites.
* `Datum.Opposite.mul_self`, `abs_eq`, `exponent_eq`: operations that give one value on both.
-/

namespace Elementary.Datum

variable {fmt : Format} {x x' y y' z : Datum} {a b : Bool} {p q : Rat}

/-- Data that are **equal as numbers**, the two zeros being one number, or both no number. -/
def SameNumber (x y : Datum) : Prop := x.compare? y = some .eq ∨ (x = nan ∧ y = nan)

/-- Data that are **opposite as numbers**, or both no number. -/
inductive Opposite : Datum → Datum → Prop
  | nan : Opposite nan nan
  | infinite (negative : Bool) : Opposite (infinite negative) (infinite !negative)
  | finite (negative : Bool) (q : Rat) : Opposite (finite negative q) (finite (!negative) q)
  | zero (a b : Bool) : Opposite (finite a 0) (finite b 0)

/-! ### Signs -/

theorem neg_neg (x : Datum) : x.neg.neg = x := by
  cases x <;> simp [neg]

theorem opposite_neg (x : Datum) : x.Opposite x.neg := by
  cases x with
  | nan => exact .nan
  | infinite negative => exact .infinite negative
  | finite negative q => exact .finite negative q

theorem Opposite.symm (h : x.Opposite y) : y.Opposite x := by
  cases h with
  | nan => exact .nan
  | infinite negative => simpa only [Bool.not_not] using Opposite.infinite (!negative)
  | finite negative q => simpa only [Bool.not_not] using Opposite.finite (!negative) q
  | zero a b => exact .zero b a

/-- Opposite finite data have opposite values. -/
theorem Opposite.signed_eq (h : (Datum.finite a p).Opposite (.finite b q)) :
    signed b q = -signed a p := by
  cases h with
  | finite => exact signed_not a p
  | zero => rw [signed_zero, signed_zero, neg_zero]

/-- **Opposite data** are the same number once the sign of one is changed. -/
theorem Opposite.sameNumber (h : x.Opposite y) : y.SameNumber x.neg := by
  cases h with
  | nan => exact Or.inr ⟨rfl, rfl⟩
  | infinite negative => exact Or.inl (by simp [neg, compare?])
  | finite negative q => exact Or.inl (by simp [neg, compare?])
  | zero a b => exact Or.inl (by simp [neg, compare?, signed_zero])

theorem sameNumber_self (x : Datum) : x.SameNumber x := by
  cases x with
  | nan => exact Or.inr ⟨rfl, rfl⟩
  | _ => exact Or.inl (by simp [compare?])

/-! ### Operations that keep opposites -/

theorem ofMagnitude_zero : ofMagnitude fmt a 0 = finite a 0 := ofMagnitude_eq isMember_zero

/-- A magnitude is rounded in one way, whatever its sign. -/
theorem opposite_ofMagnitude : (ofMagnitude fmt a q).Opposite (ofMagnitude fmt (!a) q) := by
  unfold ofMagnitude
  dsimp only
  split
  · exact .infinite a
  · exact .finite a _

/-- Opposite values are rounded to opposite data, whatever sign a zero takes. -/
theorem opposite_ofRat : (ofRat fmt a q).Opposite (ofRat fmt b (-q)) := by
  unfold ofRat
  by_cases hq : q = 0
  · rw [if_pos hq, if_pos (neg_eq_zero.mpr hq)]
    exact .zero a b
  · have hsign : decide (-q < 0) = !decide (q < 0) := by
      rcases lt_or_gt_of_ne hq with h | h
      · simp [h, h.le]
      · simp [h, h.le]
    rw [if_neg hq, if_neg (neg_ne_zero.mpr hq), hsign, Rat.abs_neg]
    exact opposite_ofMagnitude

theorem Opposite.convert (h : x.Opposite y) : (x.convert fmt).Opposite (y.convert fmt) := by
  cases h with
  | nan => exact .nan
  | infinite negative => exact .infinite negative
  | finite negative q => exact opposite_ofMagnitude
  | zero a b =>
    simp only [Datum.convert, ofMagnitude_zero]
    exact .zero a b

theorem Opposite.neg (h : x.Opposite y) : x.neg.Opposite y.neg := by
  cases h with
  | zero a b => exact .zero _ _
  | _ => exact opposite_neg _

theorem Opposite.nearestInteger (h : x.Opposite y) :
    x.nearestInteger.Opposite y.nearestInteger := by
  cases h with
  | nan => exact .nan
  | infinite negative => exact .infinite negative
  | finite negative q => exact .finite negative _
  | zero a b =>
    have hround : ((roundHalfEven 0 : Int) : Rat) = 0 := by decide +kernel
    simp only [Datum.nearestInteger, hround]
    exact .zero a b

/-- **Sums of opposites** are opposite. -/
theorem Opposite.add (hx : x.Opposite x') (hy : y.Opposite y') :
    (x.add fmt y).Opposite (x'.add fmt y') := by
  have hfinite : ∀ {a b c d : Bool} {p q r s : Rat}, (Datum.finite a p).Opposite (.finite b q) →
      (Datum.finite c r).Opposite (.finite d s) →
      ((Datum.finite a p).add fmt (.finite c r)).Opposite
        ((Datum.finite b q).add fmt (.finite d s)) := by
    intro a b c d p q r s h h'
    have hsum : signed b q + signed d s = -(signed a p + signed c r) := by
      rw [h.signed_eq, h'.signed_eq, neg_add]
    simp only [Datum.add, hsum]
    exact opposite_ofRat
  cases hx with
  | nan => cases hy <;> exact .nan
  | infinite negative =>
    cases hy with
    | nan => exact .nan
    | infinite other =>
      have hflip : ((!negative) = !other) ↔ negative = other := Bool.not_inj_iff
      simp only [Datum.add, hflip]
      split
      · exact .infinite negative
      · exact .nan
    | _ => exact .infinite negative
  | finite negative q =>
    cases hy with
    | nan => exact .nan
    | infinite other => exact .infinite other
    | finite other r => exact hfinite (.finite negative q) (.finite other r)
    | zero a b => exact hfinite (.finite negative q) (.zero a b)
  | zero a b =>
    cases hy with
    | nan => exact .nan
    | infinite other => exact .infinite other
    | finite other r => exact hfinite (.zero a b) (.finite other r)
    | zero c d => exact hfinite (.zero a b) (.zero c d)

theorem Opposite.sub (hx : x.Opposite x') (hy : y.Opposite y') :
    (x.sub fmt y).Opposite (x'.sub fmt y') := hx.add hy.neg

theorem add_comm (x y : Datum) : x.add fmt y = y.add fmt x := by
  cases x <;> cases y <;> simp only [add]
  · next a b =>
    by_cases h : a = b
    · rw [if_pos h, if_pos h.symm, h]
    · rw [if_neg h, if_neg (Ne.symm h)]
  · next a p b q => rw [Bool.and_comm, Rat.add_comm]

/-- A difference taken in the **other order** is opposite. -/
theorem opposite_sub_swap (x y : Datum) : (x.sub fmt y).Opposite (y.sub fmt x) := by
  rw [sub, sub, add_comm y]
  exact (opposite_neg x).add (opposite_neg y).symm

/-- **A factor** keeps opposites. -/
theorem Opposite.mul (h : x.Opposite y) (z : Datum) : (x.mul fmt z).Opposite (y.mul fmt z) := by
  have hsign : ∀ a c : Bool, ((!a) != c) = !(a != c) := by decide
  cases h with
  | nan => cases z <;> exact .nan
  | infinite negative =>
    cases z with
    | nan => exact .nan
    | infinite other =>
      simp only [Datum.mul, hsign]
      exact .infinite _
    | finite other r =>
      simp only [Datum.mul, hsign]
      split
      · exact .nan
      · exact .infinite _
  | finite negative q =>
    cases z with
    | nan => exact .nan
    | infinite other =>
      simp only [Datum.mul, hsign]
      split
      · exact .nan
      · exact .infinite _
    | finite other r =>
      simp only [Datum.mul, hsign]
      exact opposite_ofMagnitude
  | zero a b =>
    cases z with
    | nan => exact .nan
    | infinite other => exact .nan
    | finite other r =>
      simp only [Datum.mul, zero_mul, ofMagnitude_zero]
      exact .zero _ _

theorem neg_ofMagnitude : (ofMagnitude fmt a q).neg = ofMagnitude fmt (!a) q := by
  unfold ofMagnitude
  dsimp only
  split <;> rfl

/-- **The sign of a factor** is that of the product. -/
theorem neg_mul (x y : Datum) : x.neg.mul fmt y = (x.mul fmt y).neg := by
  have hsign : ∀ a b : Bool, ((!a) != b) = !(a != b) := by decide
  cases x <;> cases y <;> simp only [neg, mul, hsign] <;>
    first
    | rfl
    | exact neg_ofMagnitude.symm
    | split <;> rfl

/-! ### Operations that give one value on both -/

/-- **The square** does not see the sign. -/
theorem Opposite.mul_self (h : x.Opposite y) : x.mul fmt x = y.mul fmt y := by
  cases h <;> simp [Datum.mul]

theorem Opposite.abs_eq (h : x.Opposite y) : x.abs = y.abs := by
  cases h <;> rfl

theorem Opposite.exponent_eq (h : x.Opposite y) : x.exponent = y.exponent := by
  cases h <;> rfl

end Elementary.Datum
