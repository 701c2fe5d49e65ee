import Elementary.Proofs.Fit.Scalars

/-!
# Solutions of levelled systems

Elimination takes one row for each pivot, so that it ends with as many pivots as the system has
rows, unless a pivot is too small. What is left is to solve the rows from the last one up. So a
solution has one number for each row.

## Main definitions

* `Fit.Matrix.HasNumbers`: the systems of numbers.

## Main results

* `Fit.Matrix.triangularize?_eq_some`: the pivot rows of a system.
* `Fit.Matrix.solve?_eq_some`: a solution has a number for each row.
* `Fit.hasNumbers_levelledSystem`: the levelled system of a reference.
-/

namespace Elementary.Fit

variable {κ : Type} {S : Scalars κ} {IsNumber : κ → Prop} {value : κ → Rat}

namespace Matrix

variable {rows pivots pivots' : Matrix κ} {row pivot : List κ × κ} {epsilon tolerance : κ}
  {xs : List κ}

/-- A **row of numbers**. -/
def RowHasNumbers (IsNumber : κ → Prop) (row : List κ × κ) : Prop :=
  (∀ a ∈ row.1, IsNumber a) ∧ IsNumber row.2

/-- A **system of numbers**. -/
def HasNumbers (IsNumber : κ → Prop) (rows : Matrix κ) : Prop :=
  ∀ row ∈ rows, RowHasNumbers IsNumber row

/-! ### The pivot rows -/

theorem length_swapFirst {α : Type} (l : List α) (i : Nat) : (swapFirst l i).length = l.length := by
  rw [swapFirst]
  split
  · rw [List.length_set, List.length_set]
  · rfl

/-- Exchanging two elements brings in no other. -/
theorem mem_of_mem_swapFirst {α : Type} {l : List α} {i : Nat} {a : α} (ha : a ∈ swapFirst l i) :
    a ∈ l := by
  rw [swapFirst] at ha
  split at ha
  · next b c hb hc =>
    rcases List.mem_or_eq_of_mem_set ha with ha | rfl
    · rcases List.mem_or_eq_of_mem_set ha with ha | rfl
      · exact ha
      · exact List.mem_of_getElem? hc
    · exact List.mem_of_getElem? hb
  · exact ha

section

variable (hS : S.HasValues IsNumber value)

include hS

theorem isNumber_head? (h : ∀ x ∈ xs, IsNumber x) : IsNumber ((xs.head?).getD S.zero) := by
  cases xs with
  | nil => exact hS.zero
  | cons x xs => exact h x List.mem_cons_self

theorem rowHasNumbers_eliminate (hpivot : RowHasNumbers IsNumber pivot)
    (hrow : RowHasNumbers IsNumber row) : RowHasNumbers IsNumber (eliminate S pivot row) := by
  have hfactor := hS.div (isNumber_head? hS hrow.1) (isNumber_head? hS hpivot.1)
  refine ⟨Scalars.forall_mem_zipWith fun a ha p hp => ?_, ?_⟩
  · exact hS.sub (hrow.1 a (List.mem_of_mem_tail ha))
      (hS.mul hfactor (hpivot.1 p (List.mem_of_mem_tail hp)))
  · exact hS.sub hrow.2 (hS.mul hfactor hpivot.2)

omit hS in
/-- **One step of elimination** takes a row of the system as pivot. -/
theorem exists_of_triangularize? {fuel : Nat} (hrows : rows ≠ [])
    (h : triangularize? S tolerance (fuel + 1) rows pivots = some pivots') :
    ∃ chosen pivot rest, swapFirst rows chosen = pivot :: rest ∧
      triangularize? S tolerance fuel (rest.map (eliminate S pivot)) (pivot :: pivots) =
        some pivots' := by
  rw [triangularize?] at h
  split at h
  all_goals
    obtain ⟨chosen, -, h⟩ := Option.bind_eq_some_iff.mp h
    dsimp only at h
    split at h
    · next hswapped =>
      have hlength := length_swapFirst rows chosen
      rw [hswapped, List.length_nil] at hlength
      exact absurd (List.length_eq_zero_iff.mp hlength.symm) hrows
    · next pivot rest hswapped =>
      split at h
      · cases h
      · exact ⟨chosen, pivot, rest, hswapped, h⟩

/-- **The pivot rows** are as many as the rows, and rows of numbers. -/
theorem triangularize?_eq_some {fuel : Nat} (hlength : rows.length = fuel)
    (hrows : HasNumbers IsNumber rows) (hpivots : HasNumbers IsNumber pivots)
    (h : triangularize? S tolerance fuel rows pivots = some pivots') :
    pivots'.length = fuel + pivots.length ∧ HasNumbers IsNumber pivots' := by
  induction fuel generalizing rows pivots with
  | zero =>
    cases h
    exact ⟨(Nat.zero_add _).symm, hpivots⟩
  | succ fuel ih =>
    obtain ⟨chosen, pivot, rest, hswapped, h⟩ :=
      exists_of_triangularize? (List.ne_nil_of_length_eq_add_one hlength) h
    have hcount := length_swapFirst rows chosen
    rw [hswapped, List.length_cons, hlength] at hcount
    have hmem : HasNumbers IsNumber (pivot :: rest) := fun row hrow =>
      hrows row (mem_of_mem_swapFirst (hswapped ▸ hrow))
    obtain ⟨hpivot, hrest⟩ := List.forall_mem_cons.mp hmem
    have heliminated : HasNumbers IsNumber (rest.map (eliminate S pivot)) := by
      intro row hrow
      obtain ⟨row, hmem, rfl⟩ := List.mem_map.mp hrow
      exact rowHasNumbers_eliminate hS hpivot (hrest row hmem)
    obtain ⟨hpivots', hnumbers⟩ := ih (by rw [List.length_map]; omega) heliminated
      (List.forall_mem_cons.mpr ⟨hpivot, hpivots⟩) h
    exact ⟨by rw [hpivots', List.length_cons]; omega, hnumbers⟩

/-! ### The solution -/

/-- What is left of a right-hand side is a number. -/
theorem isNumber_foldl_sub {zs : List (κ × κ)} {right : κ} (hright : IsNumber right)
    (hzs : ∀ z ∈ zs, IsNumber z.1 ∧ IsNumber z.2) :
    IsNumber (zs.foldl (fun r z => S.sub r (S.mul z.1 z.2)) right) := by
  induction zs generalizing right with
  | nil => exact hright
  | cons z zs ih =>
    obtain ⟨hz, hzs⟩ := List.forall_mem_cons.mp hzs
    exact ih (hS.sub hright (hS.mul hz.1 hz.2)) hzs

/-- **Solving from the last row up** adds a number for each row. -/
theorem backSubstitute_spec (hpivots : HasNumbers IsNumber pivots) :
    (backSubstitute S pivots).length = pivots.length ∧
      ∀ x ∈ backSubstitute S pivots, IsNumber x := by
  have hfold : ∀ (pivots : Matrix κ) (solution : List κ), HasNumbers IsNumber pivots →
      (∀ x ∈ solution, IsNumber x) →
        ∀ xs, xs = pivots.foldl (fun solution row =>
          S.div ((List.zip row.1.tail solution).foldl (fun r z => S.sub r (S.mul z.1 z.2)) row.2)
            ((row.1.head?).getD S.zero) :: solution) solution →
          xs.length = pivots.length + solution.length ∧ ∀ x ∈ xs, IsNumber x := by
    intro pivots
    induction pivots with
    | nil =>
      rintro solution - hsolution _ rfl
      exact ⟨(Nat.zero_add _).symm, hsolution⟩
    | cons row pivots ih =>
      rintro solution hpivots hsolution xs hxs
      obtain ⟨hrow, hpivots⟩ := List.forall_mem_cons.mp hpivots
      have hzip : ∀ z ∈ List.zip row.1.tail solution, IsNumber z.1 ∧ IsNumber z.2 := fun z hz =>
        ⟨hrow.1 _ (List.mem_of_mem_tail (List.of_mem_zip hz).1), hsolution _ (List.of_mem_zip hz).2⟩
      have hrest := isNumber_foldl_sub hS hrow.2 hzip
      have hnew := hS.div hrest (isNumber_head? hS hrow.1)
      obtain ⟨hcount, hnumbers⟩ :=
        ih _ hpivots (List.forall_mem_cons.mpr ⟨hnew, hsolution⟩) xs hxs
      refine ⟨?_, hnumbers⟩
      rw [hcount, List.length_cons, List.length_cons]
      omega
  exact hfold pivots [] hpivots nofun _ rfl

/-- **A solution** has a number for each row of the system. -/
theorem solve?_eq_some (hrows : HasNumbers IsNumber rows)
    (h : solve? S epsilon rows = some xs) : xs.length = rows.length ∧ ∀ x ∈ xs, IsNumber x := by
  obtain ⟨pivots, hpivots, h⟩ := Option.bind_eq_some_iff.mp h
  obtain rfl := Option.some.inj h
  have hnone : HasNumbers IsNumber ([] : Matrix κ) := fun _ h => absurd h List.not_mem_nil
  obtain ⟨hcount, hnumbers⟩ := triangularize?_eq_some hS rfl hrows hnone hpivots
  obtain ⟨hlength, hsolution⟩ := backSubstitute_spec hS hnumbers
  exact ⟨hlength.trans hcount, hsolution⟩

end

end Matrix

/-- **The levelled system** of a reference of numbers has a row of numbers for each point. -/
theorem hasNumbers_levelledSystem (hS : S.HasValues IsNumber value) {degrees : List Int}
    {reference : List (κ × κ)} (h : ∀ p ∈ reference, IsNumber p.1 ∧ IsNumber p.2) :
    (levelledSystem S degrees reference).HasNumbers IsNumber := by
  intro row hrow
  rw [levelledSystem, List.mem_mapIdx] at hrow
  obtain ⟨j, hj, rfl⟩ := hrow
  obtain ⟨hplace, htarget⟩ := h _ (List.getElem_mem hj)
  refine ⟨fun a ha => ?_, htarget⟩
  rcases List.mem_append.mp ha with ha | ha
  · exact hS.basis degrees hplace a ha
  · obtain rfl := List.mem_singleton.mp ha
    exact hS.ofInt _

end Elementary.Fit
