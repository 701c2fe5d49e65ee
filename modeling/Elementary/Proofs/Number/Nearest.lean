import Elementary.Proofs.Number.Binade
import Mathlib.Algebra.Order.Ring.Abs

/-!
# The nearest integer

`roundHalfEven` looks at the integer below a number and at what is left of the number. What it
gives is described here by distances alone: it is nearer than half a unit, or half a unit away and
even. Only one integer is like that, and no integer is nearer.

## Main results

* `roundHalfEven_near`: the result is nearer than half a unit, or half a unit away and even.
* `eq_roundHalfEven`: no other integer is like that.
* `abs_sub_roundHalfEven_le`: no integer is nearer.
* `le_roundHalfEven_iff`: an even number is reached from half a unit below it on.
-/

namespace Elementary

variable {q : Rat} {n : Int}

/-- The distance of two integers is no more than their distances from a number together. -/
theorem abs_intCast_sub_le (q : Rat) (m n : Int) : |(m : Rat) - n| ≤ |q - m| + |q - n| := by
  rw [abs_sub_comm q]
  exact abs_sub_le _ q _

/-- Different integers are not both near to a number. -/
theorem one_le_abs_sub_add_abs_sub (q : Rat) {m n : Int} (h : m ≠ n) :
    1 ≤ |q - m| + |q - n| := by
  have hunit : 1 ≤ |m - n| := Int.one_le_abs (sub_ne_zero.mpr h)
  calc (1 : Rat) ≤ |(m : Rat) - n| := by exact_mod_cast hunit
    _ ≤ |q - m| + |q - n| := abs_intCast_sub_le q m n

/-- Integers that are half a unit away from a number are next to each other. -/
theorem abs_sub_le_one {m n : Int} (hm : |q - m| ≤ 1 / 2) (hn : |q - n| ≤ 1 / 2) :
    |m - n| ≤ 1 := by
  have hle : |(m : Rat) - n| ≤ 1 := by
    calc |(m : Rat) - n| ≤ |q - m| + |q - n| := abs_intCast_sub_le q m n
      _ ≤ 1 := by linarith
  exact_mod_cast hle

/-- What rounding gives is nearer than half a unit, or **half a unit away and even**. -/
theorem roundHalfEven_near (q : Rat) :
    |q - roundHalfEven q| < 1 / 2 ∨
      (|q - roundHalfEven q| = 1 / 2 ∧ roundHalfEven q % 2 = 0) := by
  have hle : (q.floor : Rat) ≤ q := Rat.floor_le q
  have hlt : q < q.floor + 1 := by exact_mod_cast Rat.lt_floor_add_one q
  have hbelow : |q - q.floor| = q - q.floor := abs_of_nonneg (by linarith)
  have habove : |q - (q.floor + 1 : Int)| = 1 - (q - q.floor) := by
    rw [abs_of_nonpos (by push_cast; linarith)]
    push_cast
    ring
  rw [roundHalfEven]
  rcases lt_trichotomy (q - q.floor) (1 / 2) with h | h | h
  · rw [if_neg (by rintro (h' | ⟨h', -⟩) <;> linarith), hbelow]
    exact Or.inl h
  · -- halfway between two integers, one of which is even
    right
    simp only [h, lt_irrefl, false_or, true_and]
    split
    · refine ⟨?_, by omega⟩
      rw [habove, h]
      norm_num
    · exact ⟨hbelow.trans h, by omega⟩
  · rw [if_pos (Or.inl h), habove]
    exact Or.inl (by linarith)

theorem abs_sub_roundHalfEven_le_half (q : Rat) : |q - roundHalfEven q| ≤ 1 / 2 := by
  rcases roundHalfEven_near q with h | ⟨h, -⟩
  · exact h.le
  · exact h.le

/-- **No other integer** is nearer than half a unit, or half a unit away and even. -/
theorem eq_roundHalfEven (h : |q - n| < 1 / 2 ∨ (|q - n| = 1 / 2 ∧ n % 2 = 0)) :
    roundHalfEven q = n := by
  by_contra hne
  have hapart := one_le_abs_sub_add_abs_sub q hne
  have hnear := abs_sub_roundHalfEven_le_half q
  rcases h with h | ⟨h, heven⟩
  · linarith
  · -- both are half a unit away, so they are even and next to each other
    rcases roundHalfEven_near q with h' | ⟨-, heven'⟩
    · linarith
    · have hnext := abs_le.mp (abs_sub_le_one hnear h.le)
      omega

/-- **No integer is nearer** than the one that rounding gives. -/
theorem abs_sub_roundHalfEven_le (q : Rat) (n : Int) : |q - roundHalfEven q| ≤ |q - n| := by
  by_cases hne : roundHalfEven q = n
  · rw [hne]
  · have hapart := one_le_abs_sub_add_abs_sub q hne
    have hnear := abs_sub_roundHalfEven_le_half q
    linarith

/-- The distance of a number from a count of units, in these units. -/
theorem abs_sub_mul_pow2 (q : Rat) (n u : Int) :
    |q - n * pow2 u| = |q / pow2 u - n| * pow2 u := by
  have hpos := pow2_pos u
  rw [← abs_of_pos hpos, ← abs_mul, abs_of_pos hpos, sub_mul, div_mul_cancel₀ _ hpos.ne']

/-- Of **two integers that are equally near**, rounding gives the even one. -/
theorem even_of_abs_sub_eq (h : |q - n| = |q - roundHalfEven q|) (hne : n ≠ roundHalfEven q) :
    roundHalfEven q % 2 = 0 ∧ n % 2 = 1 := by
  have hapart := one_le_abs_sub_add_abs_sub q hne
  rcases roundHalfEven_near q with hnear | ⟨hhalf, heven⟩
  · linarith
  · have hnext := abs_le.mp (abs_sub_le_one (h.trans hhalf).le hhalf.le)
    omega

/-- **Rounding to an integer** does the same on both sides of zero. -/
theorem roundHalfEven_neg (q : Rat) : roundHalfEven (-q) = -roundHalfEven q := by
  apply eq_roundHalfEven
  have hreflect : |-q - ((-roundHalfEven q : Int) : Rat)| = |q - roundHalfEven q| := by
    rw [← abs_neg]
    push_cast
    ring_nf
  rw [hreflect]
  rcases roundHalfEven_near q with h | ⟨h, heven⟩
  · exact Or.inl h
  · exact Or.inr ⟨h, by omega⟩

/-- An even number is reached **from half a unit below it on**. -/
theorem le_roundHalfEven_iff (hn : n % 2 = 0) : n ≤ roundHalfEven q ↔ (n : Rat) - 1 / 2 ≤ q := by
  have hnear := abs_le.mp (abs_sub_roundHalfEven_le_half q)
  constructor
  · intro h
    have hcast : (n : Rat) ≤ roundHalfEven q := by exact_mod_cast h
    linarith
  · intro h
    by_contra hlt
    -- the result is the odd number before it, half a unit away
    have hcast : (roundHalfEven q : Rat) ≤ n - 1 := by
      have : roundHalfEven q ≤ n - 1 := by omega
      exact_mod_cast this
    have hodd : roundHalfEven q = n - 1 := by
      have : (n : Rat) - 1 ≤ roundHalfEven q := by linarith
      exact le_antisymm (by omega) (by exact_mod_cast this)
    rcases roundHalfEven_near q with hnear' | ⟨-, heven⟩
    · rw [abs_of_nonneg (by linarith)] at hnear'
      linarith
    · omega

end Elementary
