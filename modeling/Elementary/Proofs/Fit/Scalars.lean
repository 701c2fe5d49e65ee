import Elementary.Fit.Levelling
import Elementary.Proofs.BigFloat.Rounding

/-!
# Arithmetics with values

What a fit computes is finite, and it is compared by exact values. Both are said of any arithmetic
here: some of its elements are numbers, every operation on numbers gives a number, and the order of
numbers is that of their values.

## Main definitions

* `Fit.Scalars.HasValues`: an arithmetic of numbers with values.
* `Fit.Scalars.size`: the value of the magnitude.

## Main results

* `Fit.hasValues_bigScalars`: the finite numbers at a working precision.
* `Fit.Scalars.HasValues.le_foldl_max`: a largest number is at least every one of them.
* `Fit.size_bigScalars`: at a working precision the magnitude of what was rounded is exact.
-/

namespace Elementary.Fit

variable {κ : Type} {S : Scalars κ} {IsNumber : κ → Prop} {value : κ → Rat} {x y m : κ}
  {xs ys : List κ}

namespace Scalars

/-- An **arithmetic of numbers with values**: every operation keeps to the numbers, and they are
ordered by their values. -/
structure HasValues (S : Scalars κ) (IsNumber : κ → Prop) (value : κ → Rat) : Prop where
  ofInt : ∀ n, IsNumber (S.ofInt n)
  add : ∀ {x y}, IsNumber x → IsNumber y → IsNumber (S.add x y)
  sub : ∀ {x y}, IsNumber x → IsNumber y → IsNumber (S.sub x y)
  mul : ∀ {x y}, IsNumber x → IsNumber y → IsNumber (S.mul x y)
  div : ∀ {x y}, IsNumber x → IsNumber y → IsNumber (S.div x y)
  neg : ∀ {x}, IsNumber x → IsNumber (S.neg x)
  pow : ∀ {x} n, IsNumber x → IsNumber (S.pow x n)
  sum : ∀ {xs}, (∀ x ∈ xs, IsNumber x) → IsNumber (S.sum xs)
  lt_iff : ∀ {x y}, IsNumber x → IsNumber y → (S.lt x y = true ↔ value x < value y)
  value_zero : value S.zero = 0

/-- The **size** of a number: the value of its magnitude. -/
def size (S : Scalars κ) (value : κ → Rat) (x : κ) : Rat := value (S.abs x)

/-- What is made of the elements of two lists. -/
theorem forall_mem_zipWith {α β γ : Type} {f : α → β → γ} {P : γ → Prop} {as : List α} {bs : List β}
    (h : ∀ a ∈ as, ∀ b ∈ bs, P (f a b)) : ∀ c ∈ List.zipWith f as bs, P c := by
  induction as generalizing bs with
  | nil => exact nofun
  | cons a as ih =>
    cases bs with
    | nil => exact nofun
    | cons b bs =>
      refine List.forall_mem_cons.mpr ⟨h a List.mem_cons_self b List.mem_cons_self, ih ?_⟩
      exact fun a' ha' b' hb' => h a' (List.mem_cons_of_mem a ha') b' (List.mem_cons_of_mem b hb')

namespace HasValues

variable (hS : S.HasValues IsNumber value)

include hS

theorem zero : IsNumber S.zero := hS.ofInt 0

theorem abs (hx : IsNumber x) : IsNumber (S.abs x) := by
  rw [Scalars.abs]
  split
  · exact hS.neg hx
  · exact hx

theorem signed (positive : Bool) (hx : IsNumber x) : IsNumber (S.signed positive x) := by
  rw [Scalars.signed]
  split
  · exact hx
  · exact hS.neg hx

omit hS in
theorem max (hx : IsNumber x) (hy : IsNumber y) : IsNumber (S.max x y) := by
  rw [Scalars.max]
  split
  · exact hy
  · exact hx

theorem lt_eq_false (hx : IsNumber x) (hy : IsNumber y) :
    S.lt x y = false ↔ value y ≤ value x := by
  rw [← not_lt, ← hS.lt_iff hx hy, Bool.not_eq_true]

theorem le_max (hx : IsNumber x) (hy : IsNumber y) :
    value x ≤ value (S.max x y) ∧ value y ≤ value (S.max x y) := by
  rw [Scalars.max]
  split
  · next h => exact ⟨((hS.lt_iff hx hy).mp h).le, le_rfl⟩
  · next h => exact ⟨le_rfl, (hS.lt_eq_false hx hy).mp (Bool.not_eq_true _ ▸ h)⟩

/-- **The largest of some numbers**, from a first one on, is a number, and none of them exceeds
it. -/
theorem le_foldl_max (hm : IsNumber m) (hxs : ∀ x ∈ xs, IsNumber x) :
    IsNumber (xs.foldl S.max m) ∧ value m ≤ value (xs.foldl S.max m) ∧
      ∀ x ∈ xs, value x ≤ value (xs.foldl S.max m) := by
  induction xs generalizing m with
  | nil => exact ⟨hm, le_rfl, nofun⟩
  | cons x xs ih =>
    obtain ⟨hx, hxs⟩ := List.forall_mem_cons.mp hxs
    obtain ⟨hnumber, hfirst, hrest⟩ := ih (max hm hx) hxs
    obtain ⟨hleft, hright⟩ := hS.le_max hm hx
    exact ⟨hnumber, hleft.trans hfirst, List.forall_mem_cons.mpr ⟨hright.trans hfirst, hrest⟩⟩

theorem basis (degrees : List Int) (hx : IsNumber x) : ∀ y ∈ basis S degrees x, IsNumber y := by
  intro y hy
  obtain ⟨d, -, rfl⟩ := List.mem_map.mp hy
  exact hS.pow _ hx

theorem valueAt (degrees : List Int) (hxs : ∀ c ∈ xs, IsNumber c) (hx : IsNumber x) :
    IsNumber (valueAt S degrees xs x) :=
  hS.sum (forall_mem_zipWith fun _ hc _ hy => hS.mul (hxs _ hc) (hS.basis degrees hx _ hy))

end HasValues

end Scalars

open BigFloat

/-- **The finite numbers at a working precision** are numbers with their exact values. -/
theorem hasValues_bigScalars (bits : Nat) : (bigScalars bits).HasValues IsFinite BigFloat.value where
  ofInt n := (isFinite_ofInt n).round
  add := .add
  sub := .sub
  mul := .mul
  div := .div
  neg hx := hx.negate.round
  pow n hx := hx.pow n
  sum := isFinite_sum
  lt_iff := lt_iff
  value_zero := rfl

/-- **The magnitude** of a number with the bits of the working precision is its absolute value. -/
theorem size_bigScalars {bits : Nat} {d : Dyadic} (h : Fits bits d.toRat) :
    (bigScalars bits).size BigFloat.value (.finite d) = |d.toRat| := by
  have hneg : BigFloat.round bits (.finite (-d)) = .finite (-d) := by
    refine round_finite ?_
    obtain ⟨n, e, hn, hd⟩ := h
    exact ⟨-n, e, by rwa [Int.natAbs_neg], by rw [Dyadic.toRat_neg, hd, Int.cast_neg, neg_mul]⟩
  have hlt : BigFloat.lt (.finite d) .zero = true ↔ d.toRat < 0 :=
    BigFloat.lt_iff ⟨d, rfl⟩ isFinite_zero
  rw [Scalars.size, Scalars.abs]
  split
  · next hd =>
    rw [abs_of_neg (hlt.mp hd)]
    change BigFloat.value (BigFloat.round bits (.finite (-d))) = _
    rw [hneg, value_finite, Dyadic.toRat_neg]
  · next hd => rw [value_finite, abs_of_nonneg (not_lt.mp (mt hlt.mpr hd))]

end Elementary.Fit
