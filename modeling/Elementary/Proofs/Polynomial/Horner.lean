import Elementary.Polynomial.Horner
import Elementary.Proofs.Evaluation.Rational
import Elementary.Proofs.Polynomial.Basic
import Mathlib.Algebra.BigOperators.Intervals
import Mathlib.Algebra.BigOperators.Ring.Finset
import Mathlib.Tactic.Ring

/-!
# Horner schemes compute their polynomials

A Horner scheme joins the coefficients from the top degree down, the degrees that the polynomial
leaves out with the coefficient zero. In exact arithmetic this gives the sum of the monomials: what
was joined down to a degree is multiplied by the powers that are still to come. An odd or an even
scheme runs over the square of its variable, and takes each degree for half of what it is.

## Main definitions

* `Polynomial.sum`: the sum of the monomials.
* `Polynomial.IsRational`: different degrees that are not negative, and exact coefficients.
* `Parity.Admits`: the degrees of a parity.

## Main results

* `Polynomial.foldl_downFrom`: what joining coefficients downwards amounts to.
* `Polynomial.horner_eq_sum`: a scheme has the value of its polynomial, for every parity that its
  degrees have, and so has the evaluation in written numbers.
-/

namespace Elementary

/-! ### Values of written numbers -/

namespace Number

variable {a b : Number} {p q : Rat}

/-- The exact **value** of a number that has one, and zero for any other. -/
def value (n : Number) : Rat := n.toRat.toOption.getD 0

@[simp] theorem value_zero : value 0 = 0 := rfl

theorem toRat_of_rational? (h : a.rational? = some q) : a.toRat = .ok q := by
  cases a <;> cases h <;> rfl

theorem rational?_eq_some (h : a.rational? = some q) : a.isRatio = true ∨ ∃ n : Int, q = n := by
  cases a <;> cases h
  case truth b => exact .inr ⟨b.toInt, by cases b <;> rfl⟩
  case integer n => exact .inr ⟨n, rfl⟩
  case ratio => exact .inl rfl

/-- An operation on integers and quotients that takes integers to integers. -/
theorem combine_rational {onRat : Rat → Rat → Rat} {onDouble : Datum → Datum → Datum}
    {onBig : Nat → BigFloat → BigFloat → BigFloat}
    (hint : ∀ m n : Int, ∃ k : Int, onRat m n = k) (ha : a.rational? = some p)
    (hb : b.rational? = some q) :
    ∃ r, combine onRat onDouble onBig a b = .ok r ∧ r.rational? = some (onRat p q) := by
  have hcombine : combine onRat onDouble onBig a b = .ok (if a.isRatio || b.isRatio then
      ratio (onRat p q) else integer (onRat p q).num) := by
    cases a <;> cases ha <;> cases b <;> cases hb <;> rfl
  refine ⟨_, hcombine, ?_⟩
  split
  · rfl
  · next hkind =>
    rw [Bool.or_eq_true, not_or] at hkind
    obtain ⟨m, rfl⟩ := (rational?_eq_some ha).resolve_left hkind.1
    obtain ⟨n, rfl⟩ := (rational?_eq_some hb).resolve_left hkind.2
    obtain ⟨k, hk⟩ := hint m n
    rw [hk]
    rfl

theorem add_rational (ha : a.rational? = some p) (hb : b.rational? = some q) :
    ∃ r, a.add b = .ok r ∧ r.rational? = some (p + q) :=
  combine_rational (fun m n => ⟨m + n, (Int.cast_add m n).symm⟩) ha hb

theorem mul_rational (ha : a.rational? = some p) (hb : b.rational? = some q) :
    ∃ r, a.mul b = .ok r ∧ r.rational? = some (p * q) :=
  combine_rational (fun m n => ⟨m * n, (Int.cast_mul m n).symm⟩) ha hb

end Number

/-- The degrees that a parity **admits**. -/
def Parity.Admits (parity : Parity) (d : Int) : Prop :=
  match parity with
  | .odd => d % 2 = 1
  | .even => d % 2 = 0
  | .none => True

instance (parity : Parity) (d : Int) : Decidable (parity.Admits d) :=
  match parity with
  | .odd => inferInstanceAs (Decidable (d % 2 = 1))
  | .even => inferInstanceAs (Decidable (d % 2 = 0))
  | .none => inferInstanceAs (Decidable True)

namespace Polynomial

/-! ### Degrees and coefficients -/

section

variable {κ : Type} {p : Polynomial κ} {m : Int × κ} {ms : List (Int × κ)} {d : Int}

theorem le_foldl_max (ms : List (Int × κ)) (d : Int) :
    d ≤ ms.foldl (fun k (d, _) => max k d) d ∧
      ∀ m ∈ ms, m.1 ≤ ms.foldl (fun k (d, _) => max k d) d := by
  induction ms generalizing d with
  | nil => exact ⟨le_rfl, nofun⟩
  | cons m ms ih =>
    obtain ⟨hstart, hrest⟩ := ih (max d m.1)
    refine ⟨(le_max_left d m.1).trans hstart, ?_⟩
    exact List.forall_mem_cons.mpr ⟨(le_max_right d m.1).trans hstart, hrest⟩

/-- No monomial is **above the degree**. -/
theorem le_degree (h : m ∈ p.coefficients) : m.1 ≤ p.degree := by
  rw [degree]
  cases hp : p.coefficients with
  | nil => simp [hp] at h
  | cons m' ms =>
    obtain ⟨hhead, hrest⟩ := le_foldl_max ms m'.1
    rcases List.mem_cons.mp (hp ▸ h) with rfl | hm
    · exact hhead
    · exact hrest m hm

theorem degree_nonneg (h : ∀ m ∈ p.coefficients, 0 ≤ m.1) : 0 ≤ p.degree := by
  cases hp : p.coefficients with
  | nil => rw [degree, hp]
  | cons m ms =>
    have hm : m ∈ p.coefficients := hp ▸ List.mem_cons_self
    exact (h m hm).trans (le_degree hm)

/-- The degrees down from one that is not negative: this one, and those down from the next. -/
theorem downFrom_natCast (k : Nat) : downFrom k = (k : Int) :: downFrom (k - 1) := by
  have hhead : ((k : Int) + 1).toNat = k + 1 := by omega
  have htail : ((k : Int) - 1 + 1).toNat = k := by omega
  rw [downFrom, downFrom, hhead, htail, List.range_succ, List.reverse_concat, List.map_cons]

/-- **Joining coefficients downwards**: what was joined before is multiplied by the powers that are
still to come. -/
theorem foldl_downFrom (f : Int → Rat) (y v : Rat) (k : Nat) :
    (downFrom (k - 1)).foldl (fun v d => v * y + f d) v =
      v * y ^ k + ∑ i ∈ Finset.range k, f i * y ^ i := by
  induction k generalizing v with
  | zero => simp [downFrom]
  | succ k ih =>
    have hnext : ((k + 1 : Nat) : Int) - 1 = k := by omega
    rw [hnext, downFrom_natCast, List.foldl_cons, ih, Finset.sum_range_succ]
    ring

/-- The sum over all degrees, those without a monomial included, is **the sum of the monomials**. -/
theorem sum_range_lookup [Zero κ] {value : κ → Rat} (hzero : value 0 = 0) (x : Rat) {k : Nat}
    (hms : (ms.map Prod.fst).Nodup) (hdegrees : ∀ m ∈ ms, 0 ≤ m.1 ∧ m.1 < k) :
    ∑ i ∈ Finset.range k, value ((ms.lookup (i : Int)).getD 0) * x ^ i =
      (ms.map fun m => value m.2 * x ^ m.1.toNat).sum := by
  induction ms with
  | nil => simp [hzero]
  | cons m ms ih =>
    obtain ⟨d, c⟩ := m
    rw [List.map_cons, List.nodup_cons] at hms
    rw [List.forall_mem_cons] at hdegrees
    obtain ⟨j, rfl⟩ := Int.eq_ofNat_of_zero_le hdegrees.1.1
    have hj : j ∈ Finset.range k := Finset.mem_range.mpr (Int.ofNat_lt.mp hdegrees.1.2)
    have hmissing : ms.lookup (j : Int) = none := by
      rw [List.lookup_eq_none_iff]
      intro m hm
      exact bne_iff_ne.mpr fun heq => hms.1 (List.mem_map.mpr ⟨m, hm, heq.symm⟩)
    -- no other monomial is of the degree of the first one
    have hsplit : ∀ i : Nat, value ((((j : Int), c) :: ms).lookup (i : Int) |>.getD 0) =
        (if i = j then value c else 0) + value ((ms.lookup (i : Int)).getD 0) := by
      intro i
      rw [List.lookup_cons]
      by_cases hi : i = j
      · simp [hi, hmissing, hzero]
      · have hne : ((i : Int) == j) = false := beq_false_of_ne (mt Int.ofNat_inj.mp hi)
        simp [hi, hne]
    simp only [hsplit, add_mul, Finset.sum_add_distrib, ite_mul, zero_mul, Finset.sum_ite_eq',
      if_pos hj, ih hms.2 hdegrees.2, List.map_cons, List.sum_cons, Int.toNat_natCast]

end

/-! ### Polynomials with exact coefficients -/

variable {p : Polynomial Number} {parity : Parity} {name : String} {power : Expr} {d : Int}
  {g : Int → Int} {x y : Rat} {n : Number} {calls : Calls Rat} {env : Bindings Rat}

/-- The **sum of the monomials** at a number. -/
def sum (p : Polynomial Number) (x : Rat) : Rat :=
  (p.coefficients.map fun m => m.2.value * x ^ m.1.toNat).sum

/-- A polynomial with **exact coefficients**: the degrees are different and not negative. -/
structure IsRational (p : Polynomial Number) : Prop where
  distinct : (p.coefficients.map Prod.fst).Nodup
  nonneg : ∀ m ∈ p.coefficients, 0 ≤ m.1
  exact : ∀ m ∈ p.coefficients, m.2.toRat = .ok m.2.value

/-- What holds of zero and of the coefficients holds of the coefficient of any degree. -/
theorem coefficient_of_forall {P : Number → Prop} (hzero : P 0)
    (h : ∀ m ∈ p.coefficients, P m.2) (d : Int) : P (p.coefficient d) := by
  rw [coefficient]
  cases hd : p.coefficients.lookup d with
  | none => exact hzero
  | some c => exact h (d, c) (mem_of_lookup_eq_some hd)

theorem IsRational.coefficient (hp : p.IsRational) (d : Int) :
    (p.coefficient d).toRat = .ok (p.coefficient d).value :=
  coefficient_of_forall (P := fun c => c.toRat = .ok c.value) rfl hp.exact d

/-- The sum over the degrees up to the top one. -/
theorem IsRational.sum_range_coefficient (hp : p.IsRational) (x : Rat) {k : Nat}
    (hk : p.degree < k) :
    ∑ i ∈ Finset.range k, (p.coefficient i).value * x ^ i = p.sum x :=
  sum_range_lookup Number.value_zero x hp.distinct fun m hm =>
    ⟨hp.nonneg m hm, (le_degree hm).trans_lt hk⟩

/-- Coefficients joined **from the degree down** give the sum of the monomials. -/
theorem IsRational.foldl_coefficients (hp : p.IsRational) (y : Rat) :
    (downFrom p.degree).foldl (fun v d => v * y + (p.coefficient d).value) 0 = p.sum y := by
  obtain ⟨k, hk⟩ := Int.eq_ofNat_of_zero_le (degree_nonneg hp.nonneg)
  have hnext : p.degree = ((k + 1 : Nat) : Int) - 1 := by omega
  rw [hnext, foldl_downFrom, zero_mul, zero_add]
  exact hp.sum_range_coefficient y (by omega)

/-- The coefficient of the degree is what joining starts from. -/
theorem IsRational.foldl_coefficients_below (hp : p.IsRational) (y : Rat) :
    (downFrom (p.degree - 1)).foldl (fun v d => v * y + (p.coefficient d).value)
      (p.coefficient p.degree).value = p.sum y := by
  obtain ⟨k, hk⟩ := Int.eq_ofNat_of_zero_le (degree_nonneg hp.nonneg)
  rw [← hp.foldl_coefficients y, hk]
  show _ = (downFrom (k : Int)).foldl _ _
  rw [downFrom_natCast, List.foldl_cons, zero_mul, zero_add]

/-! ### The chain -/

/-- **The chain over the powers of an expression** has the value of the polynomial there: every
multiply-add joins one more coefficient. -/
theorem hasValue_denseHorner (hp : p.IsRational) (hpower : power.HasValue calls env y) :
    (p.denseHorner power).HasValue calls env (p.sum y) := by
  rw [← hp.foldl_coefficients_below y]
  exact List.foldl_rel (r := Expr.HasValue calls env) (.constant (hp.coefficient _))
    fun d _ _ _ hscheme => hscheme.mulAdd hpower (.constant (hp.coefficient d))

/-! ### Parities -/

/-- A polynomial under **other degrees**, when these are different and not negative as well. -/
theorem IsRational.ofList_map (hp : p.IsRational)
    (hinj : ∀ m ∈ p.coefficients, ∀ m' ∈ p.coefficients, g m.1 = g m'.1 → m.1 = m'.1)
    (hnonneg : ∀ m ∈ p.coefficients, 0 ≤ g m.1) :
    (ofList (p.coefficients.map fun m => (g m.1, m.2))).coefficients =
        p.coefficients.map (fun m => (g m.1, m.2)) ∧
      (ofList (p.coefficients.map fun m => (g m.1, m.2))).IsRational := by
  have hdistinct : ((p.coefficients.map fun m => (g m.1, m.2)).map Prod.fst).Nodup := by
    rw [List.map_map, show Prod.fst ∘ (fun m : Int × Number => (g m.1, m.2)) = g ∘ Prod.fst from rfl,
      ← List.map_map]
    refine hp.distinct.map_on ?_
    simpa only [List.forall_mem_map] using hinj
  have hcoefficients := ofList_coefficients hdistinct
  refine ⟨hcoefficients, ⟨?_, ?_, ?_⟩⟩ <;> rw [hcoefficients]
  · exact hdistinct
  · exact List.forall_mem_map.mpr hnonneg
  · exact List.forall_mem_map.mpr hp.exact

/-- **Monomials that are chosen**, with their degrees shifted by the same amount, when none of these
becomes negative: they stay different, and nothing else is left out. -/
theorem IsRational.select (hp : p.IsRational) {condition : Int → Number → Bool} {k : Int}
    (hk : ∀ m ∈ p.coefficients, condition m.1 m.2 = true → 0 ≤ m.1 + k) :
    (p.select condition k).coefficients =
        (p.coefficients.filter fun m => condition m.1 m.2).map (fun m => (m.1 + k, m.2)) ∧
      (p.select condition k).IsRational := by
  have hmem {m : Int × Number} (hm : m ∈ p.coefficients.filter fun m => condition m.1 m.2) :
      m ∈ p.coefficients ∧ condition m.1 m.2 = true := List.mem_filter.mp hm
  have hchosen : IsRational ⟨p.coefficients.filter fun m => condition m.1 m.2⟩ :=
    ⟨hp.distinct.sublist (List.filter_sublist.map _), fun m hm => hp.nonneg m (hmem hm).1,
      fun m hm => hp.exact m (hmem hm).1⟩
  exact hchosen.ofList_map (g := (· + k)) (fun m _ m' _ h => by omega)
    fun m hm => hk m (hmem hm).1 (hmem hm).2

/-- Degrees that are positive, **taken down by one**: a factor is taken out of every monomial. -/
theorem IsRational.select_pred (hp : p.IsRational) (hpos : ∀ m ∈ p.coefficients, 0 < m.1) :
    (p.select (fun _ _ => true) (-1)).coefficients =
        p.coefficients.map (fun m => (m.1 + -1, m.2)) ∧
      (p.select (fun _ _ => true) (-1)).IsRational ∧
      ∀ x, x * (p.select (fun _ _ => true) (-1)).sum x = p.sum x := by
  obtain ⟨hcoefficients, hrational⟩ := @IsRational.select p hp (fun _ _ => true) (-1)
    fun m hm _ => by have := hpos m hm; omega
  rw [List.filter_eq_self.mpr fun _ _ => rfl] at hcoefficients
  refine ⟨hcoefficients, hrational, fun x => ?_⟩
  rw [sum, hcoefficients, List.map_map, ← List.sum_map_mul_left]
  refine congrArg List.sum (List.map_congr_left fun m hm => ?_)
  obtain ⟨k, hk⟩ : ∃ k : Nat, m.1 = k + 1 := ⟨(m.1 - 1).toNat, by have := hpos m hm; omega⟩
  have hdegree : m.1.toNat = k + 1 := by omega
  have hpred : (m.1 + -1).toNat = k := by omega
  rw [Function.comp_apply, hdegree, hpred, pow_succ]
  ring

/-- Even degrees **halved**: the polynomial in the square. -/
theorem IsRational.halveDegrees (hp : p.IsRational) (heven : ∀ m ∈ p.coefficients, m.1 % 2 = 0) :
    p.halveDegrees.IsRational ∧ ∀ x, p.halveDegrees.sum (x * x) = p.sum x := by
  obtain ⟨hcoefficients, hrational⟩ := hp.ofList_map (g := (· / 2))
    (fun m hm m' hm' h => by have := heven m hm; have := heven m' hm'; omega)
    (fun m hm => Int.ediv_nonneg (hp.nonneg m hm) two_pos.le)
  refine ⟨hrational, fun x => ?_⟩
  rw [sum, Polynomial.halveDegrees, hcoefficients, List.map_map]
  refine congrArg List.sum (List.map_congr_left fun m hm => ?_)
  obtain ⟨k, hk⟩ : ∃ k : Nat, m.1 = 2 * k :=
    ⟨(m.1 / 2).toNat, by have := heven m hm; have := hp.nonneg m hm; omega⟩
  have hdegree : m.1.toNat = 2 * k := by omega
  have hhalf : (m.1 / 2).toNat = k := by omega
  rw [Function.comp_apply, hdegree, hhalf, pow_mul, sq]

/-- **The scheme of a parity** that the degrees have, in a variable with a value. -/
theorem exists_horner (hp : p.IsRational) (hparity : ∀ m ∈ p.coefficients, parity.Admits m.1)
    (hx : env.lookup name = some (.number x)) :
    ∃ e, p.horner name parity = .ok e ∧ e.HasValue calls env (p.sum x) := by
  have hvar : (Expr.var name).HasValue calls env x := .var hx
  cases parity with
  | odd =>
    -- a factor of the variable is taken out first, which leaves an even polynomial
    obtain ⟨hcoefficients, hrational, hsum⟩ := hp.select_pred fun m hm => by
      have hodd : m.1 % 2 = 1 := hparity m hm
      have := hp.nonneg m hm
      omega
    have heven : ∀ m ∈ (p.select (fun _ _ => true) (-1)).coefficients, m.1 % 2 = 0 := by
      rw [hcoefficients]
      refine List.forall_mem_map.mpr fun m hm => ?_
      have hodd : m.1 % 2 = 1 := hparity m hm
      omega
    obtain ⟨hinner, hsquare⟩ := hrational.halveDegrees heven
    refine ⟨_, if_pos (List.all_eq_true.mpr fun m hm => decide_eq_true (hparity m hm)), ?_⟩
    rw [← hsum x, ← hsquare x]
    exact hvar.mul (hasValue_denseHorner hinner (hvar.mul hvar))
  | even =>
    obtain ⟨hinner, hsquare⟩ := hp.halveDegrees hparity
    refine ⟨_, if_pos (List.all_eq_true.mpr fun m hm => decide_eq_true (hparity m hm)), ?_⟩
    rw [← hsquare x]
    exact hasValue_denseHorner hinner (hvar.mul hvar)
  | none => exact ⟨_, rfl, hasValue_denseHorner hp hvar⟩

/-- A Horner scheme **represents its polynomial**. -/
theorem represents_horner {e : Expr} (hp : p.IsRational)
    (hparity : ∀ m ∈ p.coefficients, parity.Admits m.1) (he : p.horner name parity = .ok e)
    (calls : Calls Rat) : e.Represents calls name p.sum := by
  intro env x hx
  obtain ⟨e', he', hvalue⟩ : ∃ e', p.horner name parity = .ok e' ∧
      e'.HasValue calls env (p.sum x) := exists_horner hp hparity hx
  cases he.symm.trans he'
  exact hvalue

/-- A scheme is **refused** when some degree is not of its parity. -/
theorem horner_eq_error (hparity : ¬ ∀ m ∈ p.coefficients, parity.Admits m.1) :
    p.horner name parity = .error .requirement := by
  cases parity with
  | odd =>
    refine if_neg fun hall => hparity fun m hm => ?_
    exact of_decide_eq_true (p := m.1 % 2 = 1) (List.all_eq_true.mp hall m hm)
  | even =>
    refine if_neg fun hall => hparity fun m hm => ?_
    exact of_decide_eq_true (p := m.1 % 2 = 0) (List.all_eq_true.mp hall m hm)
  | none => exact absurd (fun _ _ => trivial) hparity

/-! ### Evaluation in written numbers -/

/-- Written coefficients joined one by one. -/
theorem exists_foldlM_rational {c : Int → Number} (hc : ∀ d, (c d).rational? = some (c d).value)
    (hn : n.rational? = some x) (ds : List Int) : ∀ {r : Number} {v : Rat}, r.rational? = some v →
      ∃ r', (ds.foldlM (fun value d => do (← value.mul n).add (c d)) r : Except Failure Number) =
          .ok r' ∧ r'.rational? = some (ds.foldl (fun v d => v * x + (c d).value) v) := by
  induction ds with
  | nil => exact fun {r _} hr => ⟨r, rfl, hr⟩
  | cons d ds ih =>
    intro r v hr
    obtain ⟨product, hproduct, hvalue⟩ := Number.mul_rational hr hn
    obtain ⟨next, hnext, hstep⟩ := Number.add_rational hvalue (hc d)
    rw [List.foldlM_cons, hproduct, ok_bind, hnext, ok_bind]
    exact ih hstep

/-- **The evaluation in written numbers** gives the sum of the monomials, when coefficients and
argument are integers and quotients. -/
theorem exists_evaluateAt (hp : p.IsRational)
    (hwritten : ∀ m ∈ p.coefficients, m.2.rational? = some m.2.value)
    (hn : n.rational? = some x) :
    ∃ r, p.evaluateAt n = .ok r ∧ r.rational? = some (p.sum x) := by
  rw [← hp.foldl_coefficients x]
  exact exists_foldlM_rational
    (coefficient_of_forall (P := fun c => c.rational? = some c.value) rfl hwritten) hn _ rfl

/-- **A Horner scheme is its polynomial.** Take a polynomial with different degrees that are not
negative and with exact coefficients, and a variable with a rational value. For a parity that all
its degrees have, there is a scheme, and its value in exact arithmetic is the sum of the monomials;
for any other parity the scheme is refused. The evaluation in written numbers gives the same sum,
when the coefficients are integers and quotients. -/
theorem horner_eq_sum (hp : p.IsRational) (parity : Parity) (calls : Calls Rat)
    (hx : env.lookup name = some (.number x)) :
    ((∀ m ∈ p.coefficients, parity.Admits m.1) →
      ∃ e, p.horner name parity = .ok e ∧
        e.evaluate Rational.arithmetic calls env = .ok (.number (p.sum x), env)) ∧
    ((¬ ∀ m ∈ p.coefficients, parity.Admits m.1) →
      p.horner name parity = .error .requirement) ∧
    ((∀ m ∈ p.coefficients, m.2.rational? = some m.2.value) →
      ∀ n : Number, n.rational? = some x →
        ∃ r, p.evaluateAt n = .ok r ∧ r.rational? = some (p.sum x)) :=
  ⟨fun hparity => exists_horner hp hparity hx, horner_eq_error,
    fun hwritten _ hn => exists_evaluateAt hp hwritten hn⟩

/-- An odd polynomial with gaps between its degrees. -/
def oddSample : Polynomial Number := .ofList [(7, .integer (-2)), (3, .ratio (1 / 2))]

/-- Both ways of evaluation, and the parity that the degrees do not have. -/
theorem horner_oddSample :
    (∃ e, oddSample.horner "x" .odd = .ok e ∧
      e.evaluate Rational.arithmetic (fun _ => none) [("x", .number (2 / 3))] =
        .ok (.number (68 / 2187), [("x", .number (2 / 3))])) ∧
    oddSample.horner "x" .even = .error .requirement ∧
    ∃ r, oddSample.evaluateAt (.ratio (2 / 3)) = .ok r ∧ r.rational? = some (68 / 2187) := by
  have hexact : ∀ m ∈ oddSample.coefficients, m.2.rational? = some m.2.value := by
    decide +kernel
  have hp : oddSample.IsRational :=
    ⟨nodup_ofList _, by decide, fun m hm => Number.toRat_of_rational? (hexact m hm)⟩
  have hsum : oddSample.sum (2 / 3) = 68 / 2187 := by decide +kernel
  have hx : [("x", Value.number (2 / 3 : Rat))].lookup "x" = some (.number (2 / 3)) := rfl
  rw [← hsum]
  exact ⟨(horner_eq_sum hp .odd _ hx).1 (by decide),
    (horner_eq_sum hp .even (fun _ => none) hx).2.1 (by decide),
    (horner_eq_sum hp .odd (fun _ => none) hx).2.2 hexact _ rfl⟩

end Polynomial

end Elementary
