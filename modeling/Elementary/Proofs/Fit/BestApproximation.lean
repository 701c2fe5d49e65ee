import Mathlib.LinearAlgebra.FiniteDimensional.Lemmas
import Mathlib.LinearAlgebra.Lagrange
import Mathlib.Tactic.Linarith
import Mathlib.Tactic.Positivity
import Elementary.Polynomial.Basic
import Elementary.Proofs.Fit.Elimination

/-!
# The levelled system gives the best approximation on its reference

The polynomials with the degrees of a parity are polynomials in the point or in its square, times
one or the point. On the side of zero where a symmetric target is fitted both grow with the point,
so that such a polynomial with `m` terms is known by its values at `m` of `m + 1` increasing points.
At all of them its values satisfy one linear relation, whose weights alternate in sign.

With that relation the levelled system has exactly one solution in exact arithmetic. Whatever
polynomial is taken, the same combination of its errors is that of the targets; and no errors
smaller than the level give it.

## Main definitions

* `Fit.node`, `Fit.factor`: a point as polynomials with the degrees of a parity see it.
* `Fit.AlternatingWeights`: a relation between the values at a reference, of alternating weights.
* `Fit.largestErrorOn`: the largest error of some coefficients on a reference.

## Main results

* `Fit.exists_alternatingWeights`: every increasing reference has such weights.
* `Fit.bijective_levelledMap`: coefficients and a level give every list of targets once.
* `Fit.exists_isLeast_level`: the levelled system gives the best approximation on its reference.
-/

open scoped Polynomial

namespace Elementary.Fit

variable {K : Type} [Field K] {parity : Parity} {m n : Nat} {x y : K}

/-! ### Polynomials with the degrees of a parity -/

/-- The **point in whose powers** a polynomial with the degrees of a parity is written. -/
def node (parity : Parity) (x : K) : K :=
  match parity with
  | .odd | .even => x ^ 2
  | .none => x

/-- The **power of the point** that all degrees of a parity share. -/
def factor (parity : Parity) (x : K) : K :=
  match parity with
  | .odd => x
  | .even | .none => 1

/-- The side of zero on which the **points of a fit** lie. -/
def InFoldedDomain [LinearOrder K] (parity : Parity) (x : K) : Prop := parity = .none ∨ 0 ≤ x

/-- The polynomial with given **coefficients**. -/
noncomputable def poly (c : Fin m → K) : K[X] := ∑ i, Polynomial.C (c i) * Polynomial.X ^ (i : Nat)

theorem degree_poly_lt (c : Fin m → K) : (poly c).degree < m := Polynomial.degree_sum_fin_lt c

theorem eval_poly (c : Fin m → K) (y : K) : (poly c).eval y = ∑ i, c i * y ^ (i : Nat) := by
  simp only [poly, Polynomial.eval_finsetSum, Polynomial.eval_mul, Polynomial.eval_C,
    Polynomial.eval_pow, Polynomial.eval_X]

theorem coeff_poly (c : Fin m → K) (i : Fin m) : (poly c).coeff i = c i := by
  simp [poly, Polynomial.finsetSum_coeff, Polynomial.coeff_C_mul, Polynomial.coeff_X_pow,
    Fin.val_inj]

variable [LinearOrder K]

theorem basis_eq_ofFn (parity : Parity) (m : Nat) (x : K) :
    basis (fieldScalars K) (parity.degrees m) x =
      List.ofFn fun i : Fin m => factor parity x * node parity x ^ (i : Nat) := by
  refine List.ext_getElem (by simp [basis, Parity.degrees]) fun i hi hi' => ?_
  simp only [basis, Parity.degrees, List.getElem_map, List.getElem_range, List.getElem_ofFn,
    fieldScalars_pow]
  cases parity with
  | odd => rw [show (2 * (i : Int) + 1).toNat = 2 * i + 1 by omega, pow_succ', pow_mul]; rfl
  | even => rw [show (2 * (i : Int)).toNat = 2 * i by omega, pow_mul]; exact (one_mul _).symm
  | none => rw [Int.toNat_natCast]; exact (one_mul _).symm

theorem dot_ofFn (f g : Fin n → K) :
    dot (fieldScalars K) (List.ofFn f) (List.ofFn g) = ∑ i, f i * g i := by
  induction n with
  | zero => rfl
  | succ n ih => rw [List.ofFn_succ, List.ofFn_succ, dot_cons, ih, Fin.sum_univ_succ]

/-- **The value of a polynomial** with the degrees of a parity. -/
theorem valueAt_ofFn (parity : Parity) (c : Fin m → K) (x : K) :
    valueAt (fieldScalars K) (parity.degrees m) (List.ofFn c) x =
      factor parity x * (poly c).eval (node parity x) := by
  rw [show valueAt (fieldScalars K) (parity.degrees m) (List.ofFn c) x =
    dot (fieldScalars K) (List.ofFn c) (basis (fieldScalars K) (parity.degrees m) x) from rfl,
    basis_eq_ofFn, dot_ofFn, eval_poly, Finset.mul_sum]
  exact Finset.sum_congr rfl fun i _ => by ring

theorem exists_eq_ofFn {α : Type} {l : List α} (h : l.length = n) :
    ∃ f : Fin n → α, l = List.ofFn f := by
  subst h
  exact ⟨l.get, (List.ofFn_get l).symm⟩

theorem exists_eq_ofFn_append {α : Type} {l : List α} (h : l.length = n + 1) :
    ∃ (f : Fin n → α) (a : α), l = List.ofFn f ++ [a] := by
  obtain ⟨rest, a, rfl⟩ :=
    (List.eq_nil_or_concat' l).resolve_left (List.ne_nil_of_length_eq_add_one h)
  rw [List.length_append, List.length_singleton, Nat.add_right_cancel_iff] at h
  obtain ⟨f, rfl⟩ := exists_eq_ofFn h
  exact ⟨f, a, rfl⟩

/-! ### Points of the folded domain -/

variable [IsStrictOrderedRing K] {x y : K}

theorem node_lt_node (hx : InFoldedDomain parity x) (h : x < y) : node parity x < node parity y := by
  cases parity with
  | odd | even => exact pow_lt_pow_left₀ h (hx.resolve_left nofun) two_ne_zero
  | none => exact h

theorem factor_nonneg (hx : InFoldedDomain parity x) : 0 ≤ factor parity x := by
  cases parity with
  | odd => exact hx.resolve_left nofun
  | even | none => exact zero_le_one

omit [IsStrictOrderedRing K] in
theorem factor_le_factor (h : x ≤ y) : factor parity x ≤ factor parity y := by
  cases parity with
  | odd => exact h
  | even | none => exact le_rfl

/-- Only the least point can be one at which **all powers** of a parity vanish. -/
theorem factor_pos (hx : InFoldedDomain parity x) (h : x < y) : 0 < factor parity y := by
  cases parity with
  | odd => exact (hx.resolve_left nofun).trans_lt h
  | even | none => exact zero_lt_one

/-- An **increasing reference** on the side where a target is fitted. -/
structure IsReference (parity : Parity) (x : Fin n → K) : Prop where
  strictMono : StrictMono x
  domain : ∀ j, InFoldedDomain parity (x j)

theorem IsReference.strictMono_node {x : Fin n → K} (hx : IsReference parity x) :
    StrictMono fun j => node parity (x j) :=
  fun i _ h => node_lt_node (hx.domain i) (hx.strictMono h)

/-! ### The weights -/

/-- The sign of a product of **differences of increasing numbers**: one factor is negative for each
number above. -/
theorem prod_sub_sign {u : Fin n → K} (hu : StrictMono u) (j : Fin n) :
    0 < (-1) ^ (n - 1 - j : Nat) * ∏ i ∈ Finset.univ.erase j, (u j - u i) := by
  have hsign : ∏ i ∈ Finset.univ.erase j, (if j < i then (-1 : K) else 1) =
      (-1) ^ (n - 1 - j : Nat) := by
    have habove : (Finset.univ.erase j).filter (j < ·) = Finset.Ioi j := by
      ext i
      simpa using fun h : j < i => h.ne'
    rw [Finset.prod_ite, Finset.prod_const, Finset.prod_const_one, mul_one, habove, Fin.card_Ioi]
  rw [← hsign, ← Finset.prod_mul_distrib]
  refine Finset.prod_pos fun i hi => ?_
  split
  · next h => linarith [hu h]
  · next h =>
    have hlt : i < j := lt_of_le_of_ne (not_lt.mp h) (Finset.ne_of_mem_erase hi)
    linarith [hu hlt]

/-- **Weights for a reference**: they alternate in sign, and with them the values of every polynomial
add up to zero. -/
structure AlternatingWeights (parity : Parity) (m : Nat) (x w : Fin n → K) : Prop where
  sign : ∀ j : Fin n, 0 ≤ (-1) ^ (j : Nat) * w j
  total : 0 < ∑ j : Fin n, (-1) ^ (j : Nat) * w j
  annihilates : ∀ c : Fin m → K, ∑ j, w j * (factor parity (x j) *
    (poly c).eval (node parity (x j))) = 0

/-- The weights with which the values of a polynomial of a degree less than `m` at `m + 1` increasing
points add up to **its coefficient of degree `m`**. -/
theorem exists_weights {u : Fin (m + 1) → K} (hu : StrictMono u) :
    ∃ w : Fin (m + 1) → K, (∀ j : Fin (m + 1), 0 < (-1) ^ (j : Nat) * w j) ∧
      ∀ c : Fin m → K, ∑ j, w j * (poly c).eval (u j) = 0 := by
  refine ⟨fun j => (-1) ^ m / ∏ i ∈ Finset.univ.erase j, (u j - u i), fun j => ?_, fun c => ?_⟩
  · have hpos := prod_sub_sign hu j
    have hparity : (-1 : K) ^ (j : Nat) * (-1) ^ m = (-1) ^ (m + 1 - 1 - j : Nat) := by
      rw [← pow_add, neg_one_pow_congr]
      have := j.isLt
      grind
    rw [← mul_div_assoc, hparity]
    rcases neg_one_pow_eq_or K (m + 1 - 1 - j : Nat) with h | h
    · rw [h] at hpos ⊢
      exact one_div_pos.mpr (by linarith)
    · rw [h] at hpos ⊢
      exact div_pos_of_neg_of_neg (by norm_num) (by linarith)
  · have hdegree : (poly c).degree < (Finset.univ : Finset (Fin (m + 1))).card := by
      rw [Finset.card_univ, Fintype.card_fin]
      exact (degree_poly_lt c).trans (by exact_mod_cast Nat.lt_succ_self m)
    have hcoeff := Lagrange.coeff_eq_sum hu.injective.injOn hdegree
    rw [Finset.card_univ, Fintype.card_fin, Nat.add_sub_cancel,
      Polynomial.coeff_eq_zero_of_degree_lt (degree_poly_lt c)] at hcoeff
    calc ∑ j, (-1) ^ m / (∏ i ∈ Finset.univ.erase j, (u j - u i)) * (poly c).eval (u j)
        = (-1) ^ m * ∑ j, (poly c).eval (u j) / ∏ i ∈ Finset.univ.erase j, (u j - u i) := by
          rw [Finset.mul_sum]
          exact Finset.sum_congr rfl fun j _ => by ring
      _ = 0 := by rw [← hcoeff, mul_zero]

/-- **Every increasing reference has alternating weights.** Where all powers of the parity vanish at
the least point, that point has all the weight. -/
theorem exists_alternatingWeights {x : Fin (m + 1) → K} (hx : IsReference parity x) :
    ∃ w, AlternatingWeights parity m x w := by
  by_cases hzero : factor parity (x 0) = 0
  · refine ⟨Pi.single 0 1, fun j => ?_, ?_, fun c => ?_⟩
    · cases j using Fin.cases with
      | zero => simp
      | succ j => simp
    · rw [Fin.sum_univ_succ]
      simp
    · rw [Fin.sum_univ_succ]
      simp [hzero]
  · have hfactor : ∀ j, 0 < factor parity (x j) := fun j =>
      ((factor_nonneg (hx.domain 0)).lt_of_ne' hzero).trans_le
        (factor_le_factor (hx.strictMono.monotone (Fin.zero_le j)))
    obtain ⟨w, hsign, hw⟩ := exists_weights hx.strictMono_node
    have hpos : ∀ j : Fin (m + 1), 0 < (-1) ^ (j : Nat) * (w j / factor parity (x j)) := fun j => by
      rw [← mul_div_assoc]
      exact div_pos (hsign j) (hfactor j)
    refine ⟨fun j => w j / factor parity (x j), fun j => (hpos j).le, ?_, fun c => ?_⟩
    · exact Finset.sum_pos (fun j _ => hpos j) Finset.univ_nonempty
    · rw [← hw c]
      refine Finset.sum_congr rfl fun j _ => ?_
      rw [← mul_assoc, div_mul_cancel₀ _ (hfactor j).ne']

namespace AlternatingWeights

variable {x w : Fin n → K} {t : Fin n → K} {level E : K} {c : Fin m → K}

omit [IsStrictOrderedRing K] in
/-- **Weighing levelled errors** gives the level, times the weights. -/
theorem sum_levelled (hw : AlternatingWeights parity m x w)
    (h : ∀ j : Fin n, factor parity (x j) * (poly c).eval (node parity (x j)) + (-1) ^ (j : Nat) * level =
      t j) :
    ∑ j, w j * t j = level * ∑ j : Fin n, (-1) ^ (j : Nat) * w j := by
  calc ∑ j, w j * t j
      = ∑ j, (w j * (factor parity (x j) * (poly c).eval (node parity (x j))) +
          level * ((-1) ^ (j : Nat) * w j)) :=
        Finset.sum_congr rfl fun j _ => by rw [← h j]; ring
    _ = level * ∑ j : Fin n, (-1) ^ (j : Nat) * w j := by
        rw [Finset.sum_add_distrib, hw.annihilates c, zero_add, Finset.mul_sum]

/-- **Errors of at most `E`** weigh at most `E`, times the weights. -/
theorem abs_sum_le (hw : AlternatingWeights parity m x w)
    (h : ∀ j, |t j - factor parity (x j) * (poly c).eval (node parity (x j))| ≤ E) :
    |∑ j, w j * t j| ≤ E * ∑ j : Fin n, (-1) ^ (j : Nat) * w j := by
  have hweight : ∀ j : Fin n, |w j| = (-1) ^ (j : Nat) * w j := fun j => by
    rw [← abs_of_nonneg (hw.sign j), abs_mul, abs_neg_one_pow, one_mul]
  calc |∑ j, w j * t j|
      = |∑ j, w j * (t j - factor parity (x j) * (poly c).eval (node parity (x j)))| := by
        simp only [mul_sub, Finset.sum_sub_distrib, hw.annihilates c, sub_zero]
    _ ≤ ∑ j, |w j * (t j - factor parity (x j) * (poly c).eval (node parity (x j)))| :=
        Finset.abs_sum_le_sum_abs _ _
    _ ≤ ∑ j : Fin n, E * ((-1) ^ (j : Nat) * w j) := by
        refine Finset.sum_le_sum fun j _ => ?_
        rw [abs_mul, hweight j, mul_comm]
        exact mul_le_mul_of_nonneg_right (h j) (hw.sign j)
    _ = E * ∑ j : Fin n, (-1) ^ (j : Nat) * w j := (Finset.mul_sum _ _ _).symm

/-- **No errors are all smaller than a level** that was levelled out on the same reference. -/
theorem abs_level_le (hw : AlternatingWeights parity m x w) {q : Fin m → K}
    (hlevel : ∀ j : Fin n, factor parity (x j) * (poly c).eval (node parity (x j)) +
      (-1) ^ (j : Nat) * level = t j)
    (hE : ∀ j, |t j - factor parity (x j) * (poly q).eval (node parity (x j))| ≤ E) :
    |level| ≤ E := by
  have hle := hw.abs_sum_le hE
  rw [hw.sum_levelled hlevel, abs_mul, abs_of_pos hw.total] at hle
  exact le_of_mul_le_mul_right hle hw.total

end AlternatingWeights

/-! ### The levelled system -/

omit [LinearOrder K] [IsStrictOrderedRing K] in
/-- The **targets that are levelled out** on a reference by coefficients and a level. -/
def levelledMap (parity : Parity) (x : Fin n → K) : (Fin m → K) × K →ₗ[K] (Fin n → K) where
  toFun s j := factor parity (x j) * (∑ i, s.1 i * node parity (x j) ^ (i : Nat)) +
    (-1) ^ (j : Nat) * s.2
  map_add' s s' := by
    ext j
    simp only [Prod.fst_add, Prod.snd_add, Pi.add_apply, add_mul, Finset.sum_add_distrib]
    ring
  map_smul' a s := by
    ext j
    simp only [Prod.smul_fst, Prod.smul_snd, Pi.smul_apply, smul_eq_mul, RingHom.id_apply, mul_assoc,
      ← Finset.mul_sum]
    ring

omit [LinearOrder K] [IsStrictOrderedRing K] in
theorem levelledMap_apply (parity : Parity) (x : Fin n → K) (c : Fin m → K) (level : K)
    (j : Fin n) : levelledMap parity x (c, level) j =
      factor parity (x j) * (poly c).eval (node parity (x j)) + (-1) ^ (j : Nat) * level := by
  rw [eval_poly]
  rfl

/-- **Coefficients and a level are determined** by what they level out. -/
theorem injective_levelledMap {x : Fin (m + 1) → K} (hx : IsReference parity x) :
    Function.Injective (levelledMap (m := m) parity x) := by
  refine (injective_iff_map_eq_zero _).mpr fun ⟨c, level⟩ h => ?_
  replace h : ∀ j : Fin (m + 1), factor parity (x j) * (poly c).eval (node parity (x j)) +
      (-1) ^ (j : Nat) * level = 0 := fun j =>
    (levelledMap_apply parity x c level j).symm.trans (congrFun h j)
  have hlevel : level = 0 := by
    obtain ⟨w, hw⟩ := exists_alternatingWeights hx
    have hzero : ∀ j, |(0 : K) - factor parity (x j) *
        (poly (0 : Fin m → K)).eval (node parity (x j))| ≤ 0 := fun j => by simp [eval_poly]
    exact abs_nonpos_iff.mp (hw.abs_level_le h hzero)
  have hpoly : poly c = 0 := by
    have hinjective : Function.Injective fun j : Fin m => node parity (x j.succ) :=
      hx.strictMono_node.injective.comp (Fin.succ_injective m)
    refine Polynomial.eq_zero_of_degree_lt_of_eval_index_eq_zero _
      (hinjective.injOn (s := (Finset.univ : Finset (Fin m)))) ?_ fun j _ => ?_
    · rw [Finset.card_univ, Fintype.card_fin]
      exact degree_poly_lt c
    · have hvalue := h j.succ
      rw [hlevel, mul_zero, add_zero] at hvalue
      exact (mul_eq_zero.mp hvalue).resolve_left
        (factor_pos (hx.domain 0) (hx.strictMono j.succ_pos)).ne'
  refine Prod.ext (funext fun i => ?_) hlevel
  exact (coeff_poly c i).symm.trans (by rw [hpoly, Polynomial.coeff_zero]; rfl)

/-- **Every list of targets** on a reference is levelled out, by one list of coefficients and one
level. -/
theorem bijective_levelledMap {x : Fin (m + 1) → K} (hx : IsReference parity x) :
    Function.Bijective (levelledMap (m := m) parity x) := by
  refine ⟨injective_levelledMap hx, ?_⟩
  refine (LinearMap.injective_iff_surjective_of_finrank_eq_finrank ?_).mp (injective_levelledMap hx)
  rw [Module.finrank_prod, Module.finrank_fin_fun, Module.finrank_fin_fun, Module.finrank_self]

omit [IsStrictOrderedRing K] in
theorem dot_append_singleton {as xs : List K} (h : as.length = xs.length) (a x : K) :
    dot (fieldScalars K) (as ++ [a]) (xs ++ [x]) = dot (fieldScalars K) as xs + a * x := by
  induction as generalizing xs with
  | nil =>
    obtain rfl := List.length_eq_zero_iff.mp h.symm
    rw [List.nil_append, List.nil_append, dot_cons, dot_nil_left, add_zero, zero_add]
  | cons b as ih =>
    obtain ⟨y, xs, rfl⟩ := List.exists_cons_of_length_eq_add_one h.symm
    rw [List.cons_append, List.cons_append, dot_cons, dot_cons, ih (Nat.succ.inj h), add_assoc]

/-- The **row of a point** in a levelled system. -/
def levelledRow (parity : Parity) (m : Nat) (x : Fin n → K) (j : Fin n) : List K :=
  (List.ofFn fun i : Fin m => factor parity (x j) * node parity (x j) ^ (i : Nat)) ++
    [(-1) ^ (j : Nat)]

omit [IsStrictOrderedRing K] in
theorem levelledSystem_ofFn (parity : Parity) (m : Nat) (x : Fin n → K) (target : K → K) :
    levelledSystem (fieldScalars K) (parity.degrees m)
        ((List.ofFn x).map fun x => (x, target x)) =
      List.ofFn fun j => (levelledRow parity m x j, target (x j)) := by
  have hsign : ∀ j : Nat, ((if j % 2 = 0 then 1 else -1 : Int) : K) = (-1) ^ j := by
    intro j
    rcases Nat.even_or_odd j with h | h
    · rw [if_pos (Nat.even_iff.mp h), h.neg_one_pow, Int.cast_one]
    · rw [if_neg (by rw [Nat.odd_iff.mp h]; exact one_ne_zero), h.neg_one_pow, Int.cast_neg,
        Int.cast_one]
  refine List.ext_getElem (by simp [levelledSystem]) fun j hj hj' => ?_
  simp only [levelledSystem, List.getElem_mapIdx, List.getElem_map, List.getElem_ofFn, levelledRow,
    basis_eq_ofFn, fieldScalars_ofInt, hsign]

omit [IsStrictOrderedRing K] in
/-- **Solutions of a levelled system**, whatever its right-hand sides are. -/
theorem isSolution_levelledRow_iff {x t : Fin (m + 1) → K} (c : Fin m → K) (level : K) :
    Matrix.IsSolution (fieldScalars K) (List.ofFn fun j => (levelledRow parity m x j, t j))
        (List.ofFn c ++ [level]) ↔ levelledMap parity x (c, level) = t := by
  have hdot : ∀ j, dot (fieldScalars K) (levelledRow parity m x j) (List.ofFn c ++ [level]) =
      levelledMap parity x (c, level) j := by
    intro j
    rw [levelledRow, dot_append_singleton (by rw [List.length_ofFn, List.length_ofFn]), dot_ofFn,
      levelledMap_apply, eval_poly, Finset.mul_sum]
    exact congrArg (· + _) (Finset.sum_congr rfl fun i _ => by ring)
  simp only [Matrix.IsSolution, List.length_append, List.length_ofFn, List.length_singleton,
    true_and, List.forall_mem_ofFn_iff, hdot, funext_iff]

/-- **The levelled system** of an increasing reference is regular. -/
theorem isRegular_levelledRow {x : Fin (m + 1) → K} (hx : IsReference parity x)
    (t : Fin (m + 1) → K) :
    Matrix.IsRegular (fieldScalars K) (List.ofFn fun j => (levelledRow parity m x j, t j)) where
  square := by
    rw [List.forall_mem_ofFn_iff]
    intro j
    rw [levelledRow, List.length_append, List.length_ofFn, List.length_ofFn, List.length_singleton]
  solvable rows hrows := by
    have hlength : rows.length = m + 1 := by
      simpa only [List.length_map, List.length_ofFn] using congrArg List.length hrows
    obtain ⟨r, rfl⟩ := exists_eq_ofFn hlength
    rw [List.map_ofFn, List.map_ofFn, List.ofFn_inj] at hrows
    have hr : r = fun j => (levelledRow parity m x j, (r j).2) :=
      funext fun j => Prod.ext (congrFun hrows j) rfl
    obtain ⟨⟨c, level⟩, hsolution, hunique⟩ :=
      (bijective_levelledMap hx).existsUnique fun j => (r j).2
    rw [hr]
    refine ⟨List.ofFn c ++ [level], (isSolution_levelledRow_iff c level).mpr hsolution, ?_⟩
    intro xs hxs
    obtain ⟨c', level', rfl⟩ := exists_eq_ofFn_append (hxs.1.trans (List.length_ofFn))
    obtain ⟨rfl, rfl⟩ :=
      Prod.mk.inj (hunique (c', level') ((isSolution_levelledRow_iff c' level').mp hxs))
    rfl

/-! ### The best approximation -/

/-- The **largest error** of some coefficients on a reference. -/
def largestErrorOn {κ : Type} (S : Scalars κ) (degrees : List Int) (target : κ → κ)
    (coefficients reference : List κ) : κ :=
  Matrix.maximum S (reference.map fun x =>
    S.abs (S.sub (target x) (valueAt S degrees coefficients x)))

omit [IsStrictOrderedRing K] in
theorem foldl_max_le_iff {xs : List K} {a b : K} :
    xs.foldl (fieldScalars K).max a ≤ b ↔ a ≤ b ∧ ∀ x ∈ xs, x ≤ b := by
  induction xs generalizing a with
  | nil => simp
  | cons x xs ih =>
    have hmax : (fieldScalars K).max a x ≤ b ↔ a ≤ b ∧ x ≤ b := by
      rw [Scalars.max]
      split
      · next h => exact ⟨fun hx => ⟨(fieldScalars_lt.mp h).le.trans hx, hx⟩, And.right⟩
      · next h => exact ⟨fun ha => ⟨ha, (not_lt.mp (mt fieldScalars_lt.mpr h)).trans ha⟩, And.left⟩
    rw [List.foldl_cons, ih, hmax, List.forall_mem_cons, and_assoc]

theorem largestErrorOn_le_iff {degrees : List Int} {target : K → K} {q reference : List K} {E : K} :
    largestErrorOn (fieldScalars K) degrees target q reference ≤ E ↔
      0 ≤ E ∧ ∀ x ∈ reference, |target x - valueAt (fieldScalars K) degrees q x| ≤ E := by
  rw [largestErrorOn, Matrix.maximum, foldl_max_le_iff, fieldScalars_zero, List.forall_mem_map]
  simp only [fieldScalars_abs, fieldScalars_sub]

/-- **The levelled system gives the best approximation on its reference.** In exact arithmetic, for
every target and every increasing reference with a point more than there are terms, on the side of
zero where a symmetric target is fitted: the levelled system has exactly one solution, and
elimination finds it; the error of its coefficients has the magnitude of the level at every point of
the reference, and alternates in sign; and no coefficients have a smaller largest error there. -/
theorem exists_isLeast_level (parity : Parity) (m : Nat) (target : K → K) {reference : List K}
    (hlength : reference.length = m + 1) (hincreasing : reference.Pairwise (· < ·))
    (hdomain : ∀ x ∈ reference, InFoldedDomain parity x) :
    ∃ coefficients level, coefficients.length = m ∧
      (∀ xs, Matrix.IsSolution (fieldScalars K) (levelledSystem (fieldScalars K) (parity.degrees m)
        (reference.map fun x => (x, target x))) xs ↔ xs = coefficients ++ [level]) ∧
      Matrix.solve? (fieldScalars K) 0 (levelledSystem (fieldScalars K) (parity.degrees m)
        (reference.map fun x => (x, target x))) = some (coefficients ++ [level]) ∧
      (∀ j x, reference[j]? = some x →
        target x - valueAt (fieldScalars K) (parity.degrees m) coefficients x =
          (-1) ^ j * level) ∧
      IsLeast {E | ∃ q : List K, q.length = m ∧
        E = largestErrorOn (fieldScalars K) (parity.degrees m) target q reference} |level| := by
  obtain ⟨x, rfl⟩ := exists_eq_ofFn hlength
  have hx : IsReference parity x :=
    ⟨fun i j h => List.pairwise_ofFn.mp hincreasing h, List.forall_mem_ofFn_iff.mp hdomain⟩
  rw [levelledSystem_ofFn]
  obtain ⟨xs, hsolve, hunique⟩ := (isRegular_levelledRow hx fun j => target (x j)).exists_solve?
  obtain ⟨c, level, rfl⟩ := exists_eq_ofFn_append
    (((hunique xs).mpr rfl).1.trans List.length_ofFn)
  have hlevelled : ∀ j : Fin (m + 1), factor parity (x j) * (poly c).eval (node parity (x j)) +
      (-1) ^ (j : Nat) * level = target (x j) := fun j =>
    (levelledMap_apply parity x c level j).symm.trans
      (congrFun ((isSolution_levelledRow_iff c level).mp ((hunique _).mpr rfl)) j)
  have herror : ∀ j : Fin (m + 1), target (x j) -
      valueAt (fieldScalars K) (parity.degrees m) (List.ofFn c) (x j) =
        (-1) ^ (j : Nat) * level := fun j => by
    rw [valueAt_ofFn, ← hlevelled j, add_sub_cancel_left]
  refine ⟨List.ofFn c, level, List.length_ofFn, hunique, hsolve, fun j y hj => ?_, ?_, ?_⟩
  · obtain ⟨hj, rfl⟩ := List.getElem?_eq_some_iff.mp hj
    rw [List.getElem_ofFn]
    exact herror ⟨j, _⟩
  · have habs : ∀ j : Fin (m + 1), |target (x j) -
        valueAt (fieldScalars K) (parity.degrees m) (List.ofFn c) (x j)| = |level| := fun j => by
      rw [herror j, abs_mul, abs_neg_one_pow, one_mul]
    refine ⟨List.ofFn c, List.length_ofFn, le_antisymm ?_ ?_⟩
    · rw [← habs 0]
      exact (largestErrorOn_le_iff.mp le_rfl).2 _ (List.mem_ofFn.mpr ⟨0, rfl⟩)
    · exact largestErrorOn_le_iff.mpr ⟨abs_nonneg level,
        List.forall_mem_ofFn_iff.mpr fun j => (habs j).le⟩
  · rintro E ⟨q, hq, rfl⟩
    obtain ⟨q, rfl⟩ := exists_eq_ofFn hq
    obtain ⟨w, hw⟩ := exists_alternatingWeights hx
    refine hw.abs_level_le hlevelled (q := q) fun j => ?_
    rw [← valueAt_ofFn]
    exact (largestErrorOn_le_iff.mp le_rfl).2 _ (List.mem_ofFn.mpr ⟨j, rfl⟩)

/-- An odd fit with two terms on a reference that begins with **zero**. -/
theorem exists_isLeast_level_odd :
    (([0, 1, 2] : List Rat).length = 2 + 1 ∧ ([0, 1, 2] : List Rat).Pairwise (· < ·) ∧
      ∀ x ∈ ([0, 1, 2] : List Rat), InFoldedDomain .odd x) ∧
    ∃ coefficients level, coefficients.length = 2 ∧
      (∀ xs, Matrix.IsSolution exactScalars (levelledSystem exactScalars (Parity.odd.degrees 2)
        ([0, 1, 2].map fun x => (x, x ^ 2 + 1))) xs ↔ xs = coefficients ++ [level]) ∧
      Matrix.solve? exactScalars 0 (levelledSystem exactScalars (Parity.odd.degrees 2)
        ([0, 1, 2].map fun x => (x, x ^ 2 + 1))) = some (coefficients ++ [level]) ∧
      (∀ (j : Nat) (x : Rat), [0, 1, 2][j]? = some x →
        x ^ 2 + 1 - valueAt exactScalars (Parity.odd.degrees 2) coefficients x =
          (-1) ^ j * level) ∧
      IsLeast {E | ∃ q : List Rat, q.length = 2 ∧
        E = largestErrorOn exactScalars (Parity.odd.degrees 2) (fun x => x ^ 2 + 1) q [0, 1, 2]}
        |level| :=
  have hdomain : ∀ x ∈ ([0, 1, 2] : List Rat), InFoldedDomain .odd x :=
    fun x hx => .inr ((by decide : ∀ x ∈ ([0, 1, 2] : List Rat), 0 ≤ x) x hx)
  ⟨⟨rfl, by decide, hdomain⟩,
    exists_isLeast_level .odd 2 (fun x => x ^ 2 + 1) rfl (by decide) hdomain⟩

/-- The error of any odd polynomial at zero is the target there: that is the level. -/
example : Matrix.solve? exactScalars 0 (levelledSystem exactScalars (Parity.odd.degrees 2)
    [(0, 1), (1, 2), (2, 5)]) = some [10 / 3, -1 / 3, 1] := by
  decide +kernel

end Elementary.Fit
