import Mathlib.Algebra.Order.BigOperators.Group.List
import Mathlib.Algebra.Order.Field.Basic
import Mathlib.Logic.Equiv.Basic
import Mathlib.Tactic.FieldSimp
import Mathlib.Tactic.LinearCombination
import Elementary.Proofs.Fit.Levelling

/-!
# Elimination in exact arithmetic

In the exact arithmetic of an ordered field, elimination finds the solution of every system that
has exactly one, whatever its right-hand sides. Such a system has no row of zeros, and a row that
does not begin with zero, so that a pivot is found; and what is left once a pivot has been taken
off has exactly one solution too.

## Main definitions

* `Fit.fieldScalars`: the exact arithmetic of an ordered field.
* `Fit.Matrix.IsSolution`: the solutions of a system.
* `Fit.Matrix.IsRegular`: the systems with exactly one solution for all right-hand sides.

## Main results

* `Fit.Matrix.isSolution_cons_iff`: one step of elimination.
* `Fit.Matrix.IsRegular.exists_pivot`: a pivot is found.
* `Fit.Matrix.IsRegular.exists_solve?`: elimination finds the solution.
-/

namespace Elementary.Fit

/-- The **exact arithmetic of an ordered field**. -/
def fieldScalars (K : Type) [Field K] [LinearOrder K] : Scalars K where
  ofInt n := n
  add := (· + ·)
  sub := (· - ·)
  mul := (· * ·)
  div := (· / ·)
  neg x := -x
  pow x n := x ^ n
  sum xs := xs.foldl (· + ·) 0
  lt x y := decide (x < y)

/-- The rationals compute exactly. -/
theorem exactScalars_eq_fieldScalars : exactScalars = fieldScalars Rat := rfl

/-- The **product** of two lists of numbers: the sum of the products of their entries. -/
def dot {κ : Type} (S : Scalars κ) (xs ys : List κ) : κ := S.sum (List.zipWith S.mul xs ys)

section

variable {K : Type} [Field K] [LinearOrder K] {a x y : K} {as xs ys : List K}

@[simp] theorem fieldScalars_ofInt (n : Int) : (fieldScalars K).ofInt n = n := rfl

@[simp] theorem fieldScalars_sub (x y : K) : (fieldScalars K).sub x y = x - y := rfl

@[simp] theorem fieldScalars_mul (x y : K) : (fieldScalars K).mul x y = x * y := rfl

@[simp] theorem fieldScalars_div (x y : K) : (fieldScalars K).div x y = x / y := rfl

@[simp] theorem fieldScalars_pow (x : K) (n : Nat) : (fieldScalars K).pow x n = x ^ n := rfl

@[simp] theorem fieldScalars_zero : (fieldScalars K).zero = 0 := Int.cast_zero

theorem fieldScalars_sum (xs : List K) : (fieldScalars K).sum xs = xs.sum :=
  List.sum_eq_foldl.symm

theorem fieldScalars_lt : (fieldScalars K).lt x y = true ↔ x < y := decide_eq_true_iff

theorem fieldScalars_le : (fieldScalars K).le x y = true ↔ x ≤ y := by
  rw [Scalars.le, Bool.not_eq_true', ← Bool.not_eq_true, fieldScalars_lt, not_lt]

@[simp] theorem dot_nil_left (xs : List K) : dot (fieldScalars K) [] xs = 0 := rfl

@[simp] theorem dot_nil_right (xs : List K) : dot (fieldScalars K) xs [] = 0 := by
  rw [dot, List.zipWith_nil_right]
  rfl

@[simp] theorem dot_cons (a x : K) (as xs : List K) :
    dot (fieldScalars K) (a :: as) (x :: xs) = a * x + dot (fieldScalars K) as xs := by
  rw [dot, dot, fieldScalars_sum, fieldScalars_sum, List.zipWith_cons_cons, List.sum_cons,
    fieldScalars_mul]

variable [IsStrictOrderedRing K]

@[simp] theorem fieldScalars_abs (x : K) : (fieldScalars K).abs x = |x| := by
  rw [Scalars.abs, fieldScalars_zero]
  split
  · next h => exact (abs_of_neg (fieldScalars_lt.mp h)).symm
  · next h => exact (abs_of_nonneg (not_lt.mp (mt fieldScalars_lt.mpr h))).symm

end

namespace Matrix

/-- The **solutions of a system**: a number for each row, which solve all of them. -/
def IsSolution {κ : Type} (S : Scalars κ) (rows : Matrix κ) (xs : List κ) : Prop :=
  xs.length = rows.length ∧ ∀ row ∈ rows, dot S row.1 xs = row.2

/-- A square system is **regular** when it has exactly one solution, whatever its right-hand sides
are. -/
structure IsRegular {κ : Type} (S : Scalars κ) (rows : Matrix κ) : Prop where
  square : ∀ row ∈ rows, row.1.length = rows.length
  solvable : ∀ rows' : Matrix κ, rows'.map Prod.fst = rows.map Prod.fst →
    ∃! xs, IsSolution S rows' xs

/-! ### Exchanging rows -/

section

variable {α β : Type} {l : List α} {i : Nat}

theorem swapFirst_map (f : α → β) (l : List α) (i : Nat) :
    (swapFirst l i).map f = swapFirst (l.map f) i := by
  rw [swapFirst, swapFirst, List.getElem?_map, List.getElem?_map]
  cases l[0]? with
  | none => rfl
  | some a =>
    cases l[i]? with
    | none => rfl
    | some b => simp only [Option.map_some, List.map_set]

theorem getElem?_swapFirst (hi : i < l.length) (k : Nat) :
    (swapFirst l i)[k]? = l[Equiv.swap 0 i k]? := by
  have hzero : 0 < l.length := by omega
  rw [swapFirst, List.getElem?_eq_getElem hzero, List.getElem?_eq_getElem hi]
  simp only [List.getElem?_set, List.length_set, Equiv.swap_apply_def]
  grind

/-- Exchanging two elements twice changes nothing. -/
theorem swapFirst_swapFirst (hi : i < l.length) : swapFirst (swapFirst l i) i = l := by
  refine List.ext_getElem? fun k => ?_
  rw [getElem?_swapFirst (by rwa [length_swapFirst]), getElem?_swapFirst hi, Equiv.swap_apply_self]

theorem mem_swapFirst_iff (hi : i < l.length) {a : α} : a ∈ swapFirst l i ↔ a ∈ l := by
  refine ⟨mem_of_mem_swapFirst, fun ha => ?_⟩
  rw [← swapFirst_swapFirst hi] at ha
  exact mem_of_mem_swapFirst ha

/-- The element that is exchanged **comes first**. -/
theorem exists_swapFirst_eq_cons {a : α} (ha : l[i]? = some a) :
    ∃ rest, swapFirst l i = a :: rest := by
  obtain ⟨hi, -⟩ := List.getElem?_eq_some_iff.mp ha
  have hhead := getElem?_swapFirst hi 0
  rw [Equiv.swap_apply_left, ha, ← List.head?_eq_getElem?] at hhead
  exact List.head?_eq_some_iff.mp hhead

end

section

variable {κ : Type} {S : Scalars κ} {rows : Matrix κ} {i : Nat} {xs : List κ}

theorem isSolution_swapFirst_iff (hi : i < rows.length) :
    IsSolution S (swapFirst rows i) xs ↔ IsSolution S rows xs := by
  simp only [IsSolution, length_swapFirst, mem_swapFirst_iff hi]

/-- **Exchanging rows** keeps a system regular. -/
theorem IsRegular.swapFirst (h : IsRegular S rows) (hi : i < rows.length) :
    IsRegular S (swapFirst rows i) where
  square row hrow := by
    rw [length_swapFirst]
    exact h.square row (mem_of_mem_swapFirst hrow)
  solvable rows' hrows' := by
    have hlength : rows'.length = rows.length := by
      simpa only [List.length_map, length_swapFirst] using congrArg List.length hrows'
    have hi' : i < rows'.length := hlength ▸ hi
    have hcoefficients : (Matrix.swapFirst rows' i).map Prod.fst = rows.map Prod.fst := by
      rw [swapFirst_map, hrows', swapFirst_map, swapFirst_swapFirst (by rwa [List.length_map])]
    simpa only [isSolution_swapFirst_iff hi'] using h.solvable _ hcoefficients

end

variable {K : Type} [Field K] [LinearOrder K] {rows rest pivots : Matrix K}
  {pivot row : List K × K} {a b x : K} {p r xs ys : List K}

/-! ### One step of elimination -/

/-- The product with a row that a multiple of another was taken off. -/
theorem dot_zipWith_sub (factor : K) (hr : r.length = xs.length) (hp : p.length = xs.length) :
    dot (fieldScalars K) (List.zipWith (fun a b => a - factor * b) r p) xs =
      dot (fieldScalars K) r xs - factor * dot (fieldScalars K) p xs := by
  induction xs generalizing r p with
  | nil => simp only [dot_nil_right, mul_zero, sub_zero]
  | cons x xs ih =>
    obtain ⟨a, r, rfl⟩ := List.exists_cons_of_length_eq_add_one hr
    obtain ⟨b, p, rfl⟩ := List.exists_cons_of_length_eq_add_one hp
    rw [List.zipWith_cons_cons, dot_cons, dot_cons, dot_cons,
      ih (Nat.succ.inj hr) (Nat.succ.inj hp)]
    ring

theorem eliminate_cons (a c : K) (p r : List K) (b d : K) :
    eliminate (fieldScalars K) (a :: p, b) (c :: r, d) =
      (List.zipWith (fun x y => x - c / a * y) r p, d - c / a * b) := rfl

/-- **One row of a step of elimination**: below a solved pivot row, a row is solved exactly when
the eliminated row is. -/
theorem dot_eliminate_iff (ha : a ≠ 0) (hp : p.length = xs.length)
    (hrow : row.1.length = xs.length + 1) (hpivot : a * x + dot (fieldScalars K) p xs = b) :
    dot (fieldScalars K) (eliminate (fieldScalars K) (a :: p, b) row).1 xs =
        (eliminate (fieldScalars K) (a :: p, b) row).2 ↔
      dot (fieldScalars K) row.1 (x :: xs) = row.2 := by
  obtain ⟨c, r, hcr⟩ := List.exists_cons_of_length_eq_add_one hrow
  obtain ⟨coefficients, d⟩ := row
  obtain rfl : coefficients = c :: r := hcr
  rw [eliminate_cons, dot_zipWith_sub _ (Nat.succ.inj hrow) hp, dot_cons, ← hpivot]
  have hcancel : c / a * (a * x) = c * x := by field_simp
  constructor
  · intro h
    linear_combination h - hcancel
  · intro h
    linear_combination h + hcancel

/-- **One step of elimination**: a system is solved when its first row is, and what is left by the
elimination. -/
theorem isSolution_cons_iff (ha : a ≠ 0) (hp : p.length = rest.length)
    (hrest : ∀ row ∈ rest, row.1.length = rest.length + 1) :
    IsSolution (fieldScalars K) ((a :: p, b) :: rest) (x :: xs) ↔
      IsSolution (fieldScalars K) (rest.map (eliminate (fieldScalars K) (a :: p, b))) xs ∧
        x = (b - dot (fieldScalars K) p xs) / a := by
  have hx : x = (b - dot (fieldScalars K) p xs) / a ↔ a * x + dot (fieldScalars K) p xs = b := by
    rw [eq_div_iff ha, eq_sub_iff_add_eq, mul_comm]
  rw [hx]
  simp only [IsSolution, List.length_cons, List.length_map, List.forall_mem_cons, List.forall_mem_map,
    dot_cons, Nat.add_right_cancel_iff]
  constructor
  · rintro ⟨hlength, hpivot, hrows⟩
    exact ⟨⟨hlength, fun row hrow => (dot_eliminate_iff ha (hp.trans hlength.symm)
      (hlength ▸ hrest row hrow) hpivot).mpr (hrows row hrow)⟩, hpivot⟩
  · rintro ⟨⟨hlength, hrows⟩, hpivot⟩
    exact ⟨hlength, hpivot, fun row hrow => (dot_eliminate_iff ha (hp.trans hlength.symm)
      (hlength ▸ hrest row hrow) hpivot).mp (hrows row hrow)⟩

/-- What is left by an elimination can have **any right-hand sides**. -/
theorem exists_map_eliminate (a : K) (p : List K) (b : K) (rest : Matrix K) {rest' : Matrix K}
    (h : rest'.map Prod.fst =
      (rest.map (eliminate (fieldScalars K) (a :: p, b))).map Prod.fst) :
    ∃ rows : Matrix K, rows.map Prod.fst = rest.map Prod.fst ∧
      rows.map (eliminate (fieldScalars K) (a :: p, 0)) = rest' := by
  induction rest generalizing rest' with
  | nil => exact ⟨[], rfl, (List.map_eq_nil_iff.mp h).symm⟩
  | cons row rest ih =>
    obtain ⟨row', rest', rfl, hrow, hrest⟩ := List.map_eq_cons_iff.mp h
    obtain ⟨rows, hrows, hmap⟩ := ih hrest
    refine ⟨(row.1, row'.2) :: rows, by rw [List.map_cons, hrows, List.map_cons], ?_⟩
    rw [List.map_cons, hmap]
    refine congrArg (· :: rest') (Prod.ext ?_ ?_)
    · exact hrow.symm
    · simp [eliminate]

/-- **What is left by an elimination** is regular. -/
theorem IsRegular.eliminate (h : IsRegular (fieldScalars K) ((a :: p, b) :: rest)) (ha : a ≠ 0) :
    IsRegular (fieldScalars K) (rest.map (Matrix.eliminate (fieldScalars K) (a :: p, b))) := by
  have hp : p.length = rest.length :=
    Nat.succ.inj (h.square (a :: p, b) List.mem_cons_self)
  have hrest : ∀ row ∈ rest, row.1.length = rest.length + 1 := fun row hrow =>
    h.square row (List.mem_cons_of_mem _ hrow)
  refine ⟨fun row hrow => ?_, fun rest' hrest' => ?_⟩
  · obtain ⟨row, hmem, rfl⟩ := List.mem_map.mp hrow
    have hr := hrest row hmem
    obtain ⟨c, r, hcr⟩ := List.exists_cons_of_length_eq_add_one hr
    rw [hcr, List.length_cons, Nat.add_right_cancel_iff] at hr
    rw [List.length_map, Matrix.eliminate, hcr, List.length_zipWith, List.tail_cons, List.tail_cons,
      hr, hp, min_self]
  · obtain ⟨rows, hrows, rfl⟩ := exists_map_eliminate a p b rest hrest'
    have hlength : rows.length = rest.length := by
      simpa only [List.length_map] using congrArg List.length hrows
    have hwidth : ∀ row ∈ rows, row.1.length = rows.length + 1 := by
      intro row hrow
      have hmem := List.mem_map_of_mem (f := Prod.fst) hrow
      rw [hrows] at hmem
      obtain ⟨row', hrow', heq⟩ := List.mem_map.mp hmem
      rw [← heq, hlength, hrest row' hrow']
    have hstep (x : K) (xs : List K) : IsSolution (fieldScalars K) ((a :: p, 0) :: rows) (x :: xs) ↔
        _ := isSolution_cons_iff ha (hp.trans hlength.symm) hwidth
    obtain ⟨xs, hxs, hunique⟩ := h.solvable ((a :: p, 0) :: rows) (by
      rw [List.map_cons, List.map_cons, hrows])
    obtain ⟨x, xs, rfl⟩ := List.exists_cons_of_length_eq_add_one hxs.1
    refine ⟨xs, ((hstep x xs).mp hxs).1, fun ys hys => ?_⟩
    exact (List.cons.inj (hunique _ ((hstep _ ys).mpr ⟨hys, rfl⟩))).2

/-! ### A pivot is found -/

/-- The **first entry** of a row. -/
def leading (row : List K × K) : K := (row.1.head?).getD (fieldScalars K).zero

theorem IsRegular.length_pos_of_mem {κ : Type} {S : Scalars κ} {rows : Matrix κ}
    {row : List κ × κ} (h : IsRegular S rows) (hrow : row ∈ rows) : 0 < row.1.length := by
  rw [h.square row hrow]
  exact List.length_pos_of_mem hrow

theorem dot_eq_zero (h : ∀ a ∈ xs, a = 0) (ys : List K) : dot (fieldScalars K) xs ys = 0 := by
  induction xs generalizing ys with
  | nil => exact dot_nil_left ys
  | cons x xs ih =>
    obtain ⟨hx, hxs⟩ := List.forall_mem_cons.mp h
    cases ys with
    | nil => exact dot_nil_right _
    | cons y ys => rw [dot_cons, hx, ih hxs ys, zero_mul, zero_add]

/-- No row of a regular system has only **zeros**: with a right-hand side of one it could not be
solved. -/
theorem IsRegular.exists_ne_zero (h : IsRegular (fieldScalars K) rows) (hrow : row ∈ rows) :
    ∃ a ∈ row.1, a ≠ 0 := by
  by_contra hzero
  push Not at hzero
  obtain ⟨xs, hxs, -⟩ := h.solvable (rows.map fun row => (row.1, 1)) (by rw [List.map_map]; rfl)
  have hone := hxs.2 (row.1, 1) (List.mem_map_of_mem hrow)
  rw [dot_eq_zero hzero] at hone
  exact zero_ne_one hone

/-- Some row of a regular system **does not begin with zero**: otherwise the first number of a
solution would be arbitrary. -/
theorem IsRegular.exists_leading_ne_zero (h : IsRegular (fieldScalars K) rows) (hne : rows ≠ []) :
    ∃ row ∈ rows, leading row ≠ 0 := by
  by_contra hzero
  push Not at hzero
  obtain ⟨xs, hxs, hunique⟩ := h.solvable rows rfl
  obtain ⟨n, hn⟩ := Nat.exists_eq_add_one_of_ne_zero (mt List.length_eq_zero_iff.mp hne)
  obtain ⟨x, xs, rfl⟩ := List.exists_cons_of_length_eq_add_one (hxs.1.trans hn)
  have hother : IsSolution (fieldScalars K) rows ((x + 1) :: xs) := by
    refine ⟨hxs.1, fun row hrow => ?_⟩
    obtain ⟨c, r, hcr⟩ := List.exists_cons_of_length_pos (h.length_pos_of_mem hrow)
    have hc := hzero row hrow
    have hsolved := hxs.2 row hrow
    rw [leading, hcr] at hc
    rw [hcr, dot_cons, show c = 0 from hc, zero_mul] at hsolved ⊢
    exact hsolved
  have heq := (List.cons.inj (hunique _ hother)).1
  exact one_ne_zero (add_eq_left.mp heq)

/-- A fold that **keeps to an invariant** gives a result. -/
theorem exists_foldlM_eq_some {α β : Type} {step : β → α → Option β} {P : α → Prop}
    {Inv : List α → β → Prop}
    (hstep : ∀ l a b, P a → Inv l b → ∃ b', step b a = some b' ∧ Inv (l ++ [a]) b')
    {rest : List α} (hrest : ∀ a ∈ rest, P a) {l : List α} {b : β} (hb : Inv l b) :
    ∃ b', rest.foldlM step b = some b' ∧ Inv (l ++ rest) b' := by
  induction rest generalizing l b with
  | nil => exact ⟨b, rfl, (List.append_nil l).symm ▸ hb⟩
  | cons a rest ih =>
    obtain ⟨ha, hrest⟩ := List.forall_mem_cons.mp hrest
    obtain ⟨b', hb', hinv⟩ := hstep l a b ha hb
    obtain ⟨c, hc, hend⟩ := ih hrest hinv
    exact ⟨c, by rw [List.foldlM_cons, hb']; exact hc, by rwa [List.append_assoc] at hend⟩

/-- One step of the **choice of a pivot**: the row chosen so far with its relative size, and the
number of rows that were looked at. -/
def pivotStep {κ : Type} (S : Scalars κ) (tolerance : κ) (best : Option (Nat × κ) × Nat)
    (row : List κ × κ) : Option (Option (Nat × κ) × Nat) :=
  let total := S.sum (row.1.map S.abs)
  let current := S.mul (S.div (S.ofInt 1) total) (S.abs ((row.1.head?).getD S.zero))
  if S.le total tolerance then none
  else some (if S.lt ((best.1.map Prod.snd).getD S.zero) current then some (best.2, current)
    else best.1, best.2 + 1)

/-- A pivot is chosen **row by row**. -/
theorem choosePivot?_eq {κ : Type} (S : Scalars κ) (tolerance : κ) (rows : Matrix κ) :
    choosePivot? S tolerance rows =
      (rows.foldlM (pivotStep S tolerance) (none, 0)).bind fun best => best.1.map Prod.fst := by
  simp only [choosePivot?]
  refine congrArg₂ Option.bind (congrArg (fun step => rows.foldlM step (none, 0)) ?_) ?_
  · funext best row
    rw [pivotStep]
    split <;> rfl
  · funext best
    cases best.1 <;> rfl

/-- What is known of the row **chosen among some rows**: it does not begin with zero; when none is
chosen, all of them do. -/
def IsChosen (rows : Matrix K) : Option (Nat × K) → Prop
  | none => ∀ row ∈ rows, leading row = 0
  | some (i, size) => 0 < size ∧ ∃ row, rows[i]? = some row ∧ leading row ≠ 0

section

variable [IsStrictOrderedRing K]

/-- The magnitudes of a row that has an entry other than zero have a **positive sum**. -/
theorem sum_abs_pos {row : List K} (hrow : ∃ a ∈ row, a ≠ 0) :
    0 < (fieldScalars K).sum (row.map (fieldScalars K).abs) := by
  obtain ⟨a, ha, hne⟩ := hrow
  rw [fieldScalars_sum]
  have hle := List.single_le_sum (l := row.map (fieldScalars K).abs) (by simp) |a|
    (List.mem_map.mpr ⟨a, ha, fieldScalars_abs a⟩)
  exact (abs_pos.mpr hne).trans_le hle

/-- **One more row** is looked at. -/
theorem exists_pivotStep (rows : Matrix K) (row : List K × K) (best : Option (Nat × K) × Nat)
    (hrow : ∃ a ∈ row.1, a ≠ 0) (hbest : best.2 = rows.length ∧ IsChosen rows best.1) :
    ∃ best', pivotStep (fieldScalars K) 0 best row = some best' ∧
      best'.2 = (rows ++ [row]).length ∧ IsChosen (rows ++ [row]) best'.1 := by
  obtain ⟨chosen, index⟩ := best
  obtain ⟨rfl, hchosen⟩ := hbest
  have htotal := sum_abs_pos hrow
  rw [pivotStep, if_neg (by rw [fieldScalars_le]; exact htotal.not_ge)]
  generalize (fieldScalars K).sum (row.1.map (fieldScalars K).abs) = total at htotal
  have hsize : (fieldScalars K).mul ((fieldScalars K).div ((fieldScalars K).ofInt 1) total)
      ((fieldScalars K).abs ((row.1.head?).getD (fieldScalars K).zero)) =
        1 / total * |leading row| := by
    simp [leading]
  rw [hsize]
  have hpositive : 0 < 1 / total * |leading row| ↔ leading row ≠ 0 := by
    rw [mul_pos_iff_of_pos_left (one_div_pos.mpr htotal), abs_pos]
  refine ⟨_, rfl, by rw [List.length_append, List.length_singleton], ?_⟩
  split
  · next hlarger =>
    have hlarger := fieldScalars_lt.mp hlarger
    have hfirst : 0 ≤ (chosen.map Prod.snd).getD (fieldScalars K).zero := by
      cases chosen with
      | none => simp
      | some found => exact hchosen.1.le
    have hcurrent := hfirst.trans_lt hlarger
    exact ⟨hcurrent, row, by simp, hpositive.mp hcurrent⟩
  · next hlarger =>
    cases chosen with
    | none =>
      rw [fieldScalars_lt, Option.map_none, Option.getD_none, fieldScalars_zero, hpositive,
        not_not] at hlarger
      exact List.forall_mem_append.mpr ⟨hchosen, List.forall_mem_singleton.mpr hlarger⟩
    | some found =>
      obtain ⟨hfound, row', hrow', hne⟩ := hchosen
      obtain ⟨hi, -⟩ := List.getElem?_eq_some_iff.mp hrow'
      exact ⟨hfound, row', by rwa [List.getElem?_append_left hi], hne⟩

/-- **A row is chosen as pivot** that does not begin with zero, when there is one and no row has only
zeros. -/
theorem exists_choosePivot? (hrows : ∀ row ∈ rows, ∃ a ∈ row.1, a ≠ 0)
    (hleading : ∃ row ∈ rows, leading row ≠ 0) :
    ∃ i row, choosePivot? (fieldScalars K) 0 rows = some i ∧ rows[i]? = some row ∧
      leading row ≠ 0 := by
  obtain ⟨⟨chosen, count⟩, hfold, -, hchosen⟩ := exists_foldlM_eq_some exists_pivotStep hrows
    (l := []) (b := (none, 0)) ⟨rfl, nofun⟩
  rw [choosePivot?_eq, hfold]
  cases chosen with
  | none =>
    obtain ⟨row, hrow, hne⟩ := hleading
    exact (hne (hchosen row hrow)).elim
  | some found =>
    obtain ⟨-, row, hrow, hne⟩ := hchosen
    exact ⟨found.1, row, rfl, hrow, hne⟩

/-- **A pivot is found** in a regular system. -/
theorem IsRegular.exists_pivot (h : IsRegular (fieldScalars K) rows) (hne : rows ≠ []) :
    ∃ i row, (if rows.length = 1 then some 0 else choosePivot? (fieldScalars K) 0 rows) = some i ∧
      rows[i]? = some row ∧ leading row ≠ 0 := by
  have hleading := h.exists_leading_ne_zero hne
  split
  · next hone =>
    obtain ⟨row, rfl⟩ := List.length_eq_one_iff.mp hone
    obtain ⟨row', hrow', hrow⟩ := hleading
    exact ⟨0, row, rfl, rfl, List.mem_singleton.mp hrow' ▸ hrow⟩
  · exact exists_choosePivot? (fun row hrow => h.exists_ne_zero hrow) hleading

end

/-! ### The solution -/

/-- **One pivot** is taken: the row that was chosen comes first, and is taken off the others. -/
theorem triangularize?_eq {κ : Type} {S : Scalars κ} {tolerance : κ} {rows rest : Matrix κ}
    {pivot : List κ × κ} {i fuel : Nat} {pivots : Matrix κ}
    (hchosen : (if rows.length = 1 then some 0 else choosePivot? S tolerance rows) = some i)
    (hswapped : Matrix.swapFirst rows i = pivot :: rest) :
    triangularize? S tolerance (fuel + 1) rows pivots =
      if S.le (S.abs ((pivot.1.head?).getD S.zero)) tolerance then none
      else triangularize? S tolerance fuel (rest.map (Matrix.eliminate S pivot))
        (pivot :: pivots) := by
  rw [triangularize?]
  split at hchosen
  all_goals
    next hcount =>
      simp only [hcount, if_true, if_false, hchosen, Option.bind_eq_bind, Option.bind_some, hswapped]

/-- What is left of a right-hand side when the products are taken off. -/
theorem foldl_zip_sub (p xs : List K) (b : K) :
    (List.zip p xs).foldl (fun r z => r - z.1 * z.2) b = b - dot (fieldScalars K) p xs := by
  induction p generalizing xs b with
  | nil => rw [dot_nil_left, sub_zero, List.zip_nil_left, List.foldl_nil]
  | cons a p ih =>
    cases xs with
    | nil => rw [dot_nil_right, sub_zero, List.zip_nil_right, List.foldl_nil]
    | cons x xs => rw [List.zip_cons_cons, List.foldl_cons, ih, dot_cons, sub_sub]

/-- **The last pivot** of a triangular system gives the first number of its solution. -/
theorem backSubstitute_append_singleton (found : Matrix K) (a : K) (p : List K) (b : K) :
    backSubstitute (fieldScalars K) (found ++ [(a :: p, b)]) =
      (b - dot (fieldScalars K) p (backSubstitute (fieldScalars K) found)) / a ::
        backSubstitute (fieldScalars K) found := by
  rw [backSubstitute, List.foldl_append, List.foldl_cons, List.foldl_nil]
  exact congrArg (· / a :: _) (foldl_zip_sub p _ b)

variable [IsStrictOrderedRing K]

/-- **Elimination** takes as many pivots as the system has rows, and from them its solution is
computed. -/
theorem IsRegular.exists_triangularize? (h : IsRegular (fieldScalars K) rows)
    {fuel : Nat} (hfuel : rows.length = fuel) (pivots : Matrix K) :
    ∃ found, triangularize? (fieldScalars K) 0 fuel rows pivots = some (found ++ pivots) ∧
      IsSolution (fieldScalars K) rows (backSubstitute (fieldScalars K) found) := by
  induction fuel generalizing rows pivots with
  | zero =>
    obtain rfl := List.length_eq_zero_iff.mp hfuel
    exact ⟨[], rfl, rfl, nofun⟩
  | succ fuel ih =>
    obtain ⟨i, ⟨coefficients, b⟩, hchosen, hrow, hne⟩ :=
      h.exists_pivot (List.ne_nil_of_length_eq_add_one hfuel)
    obtain ⟨rest, hswapped⟩ := exists_swapFirst_eq_cons hrow
    obtain ⟨hi, -⟩ := List.getElem?_eq_some_iff.mp hrow
    obtain ⟨a, p, rfl⟩ :=
      List.exists_cons_of_length_pos (h.length_pos_of_mem (List.mem_of_getElem? hrow))
    have hregular := h.swapFirst hi
    rw [hswapped] at hregular
    have hrest : rest.length = fuel := by
      have hlength := length_swapFirst rows i
      rw [hswapped, List.length_cons, hfuel] at hlength
      exact Nat.succ.inj hlength
    obtain ⟨found, hfound, hsolution⟩ := ih (hregular.eliminate hne)
      (by rw [List.length_map, hrest]) ((a :: p, b) :: pivots)
    refine ⟨found ++ [(a :: p, b)], ?_, ?_⟩
    · have hpivot : ¬(fieldScalars K).le ((fieldScalars K).abs a) 0 = true := by
        rw [fieldScalars_le, fieldScalars_abs, abs_nonpos_iff]
        exact hne
      rw [triangularize?_eq hchosen hswapped]
      exact (if_neg hpivot).trans (hfound.trans (congrArg some (List.append_cons _ _ _)))
    · rw [← isSolution_swapFirst_iff hi, hswapped, backSubstitute_append_singleton,
        isSolution_cons_iff (show a ≠ 0 from hne) (Nat.succ.inj (hregular.square _ List.mem_cons_self))
          fun row hrow => hregular.square row (List.mem_cons_of_mem _ hrow)]
      exact ⟨hsolution, rfl⟩

/-- **Elimination finds the solution** of a regular system. -/
theorem IsRegular.exists_solve? (h : IsRegular (fieldScalars K) rows) :
    ∃ xs, solve? (fieldScalars K) 0 rows = some xs ∧
      ∀ ys, IsSolution (fieldScalars K) rows ys ↔ ys = xs := by
  obtain ⟨found, hfound, hsolution⟩ := h.exists_triangularize? rfl []
  refine ⟨backSubstitute (fieldScalars K) found, ?_, fun ys => ⟨fun hys => ?_, ?_⟩⟩
  · rw [solve?, fieldScalars_mul, mul_zero, hfound, List.append_nil]
    rfl
  · exact (h.solvable rows rfl).unique hys hsolution
  · rintro rfl
    exact hsolution

end Matrix

end Elementary.Fit
