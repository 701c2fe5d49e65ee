import Elementary.Proofs.Fit.Exchange
import Elementary.Proofs.Fit.Levelling
import Elementary.Proofs.Fit.Solver
import Elementary.Proofs.Polynomial.Basic

/-!
# What a fit guarantees

A fit is given up when its target has no finite value somewhere, when a levelled system is
singular, when the error alternates too seldom, or when the exchanges do not converge; and it is
refused when the request makes no sense. Else its result carries an error that is exceeded at no
point of the grid. For an odd or even target it is not exceeded at the mirrored points either,
because the polynomial is computed there as the negation of what it is, or as the same.

## Main definitions

* `Failure.IsApproximation`: the failures of fits that are given up.
* `Fit.Request.Evaluates`: targets that fail only where no value exists.
* `Fit.Request.IsMirroredAt`: the places at which a target is seen to have its parity.
* `Fit.Request.Guarantees`: what a result guarantees.

## Main results

* `Fit.Problem.level_settles`, `Fit.Problem.extremaOf_settles`: the two halves of an exchange.
* `Fit.Problem.exchange_ends`: all ends of an exchange.
* `Fit.Request.solve_guarantees`: all ends of a fit.
-/

namespace Elementary

/-- The failures of **fits that are given up**. -/
def Failure.IsApproximation (f : Failure) : Prop := ∃ why, f = .approximation why

namespace Fit

open BigFloat Computation

variable {r : Request} {p : Problem} {fit : Result} {s : Array Event} {x : BigFloat}
  {coefficients : List BigFloat} {reference : List BigFloat}

/-! ### Targets -/

/-- A target **evaluates** when it fails only where a value does not exist. -/
def Request.Evaluates (r : Request) : Prop :=
  ∃ e, r.target = .expr e ∧ ∀ x : BigFloat, x.IsFinite → ∀ f,
    (Reference.arithmetic r.workingDigits).evaluateWith [] e
      [(r.argument, .number (.real x))] = .error f → f.isArithmetic = true

/-- **A target** that evaluates has a finite value at a place, or the fit is given up. -/
theorem Request.targetAt_settles (hr : r.Evaluates) (hx : x.IsFinite) :
    Settles (r.targetAt x) IsFinite Failure.IsApproximation := by
  obtain ⟨e, he, hevaluates⟩ := hr
  rw [targetAt, he]
  dsimp only
  split
  · exact .ok ⟨_, rfl⟩
  · exact .error ⟨_, rfl⟩
  · next f hf =>
    rw [if_pos (hevaluates x hx f hf)]
    exact .error ⟨_, rfl⟩

/-- What is done for a request ends as it does without messages. -/
theorem Request.traced_ends {α : Type} {a : Except Failure α} {Q : α → Prop} {E : Failure → Prop}
    (ha : Settles a Q E) (s : Array Event) :
    Ends (r.traced a) s (fun v _ => Q v) fun f _ => E f := by
  rw [traced.eq_def]
  split
  · exact .pure ha
  · refine (Traced.abort_ends _ _ _ _).mono (fun _ _ h => h) ?_
    rintro _ _ rfl
    exact ha
  · exact Traced.reported_ends ha s

/-! ### Places -/

theorem Request.bits_pos (r : Request) : 0 < r.bits := by
  rw [bits, workingBits]
  omega

/-- The arithmetic of a request computes with finite numbers. -/
theorem Request.hasValues (r : Request) : r.scalars.HasValues IsFinite BigFloat.value :=
  hasValues_bigScalars r.bits

theorem isFinite_cosineOfTurn (bits numerator denominator : Nat) :
    (cosineOfTurn bits numerator denominator).IsFinite := by
  obtain ⟨d, hd⟩ : (BigFloat.div bits (.ofInt numerator) (.ofInt denominator)).IsFinite :=
    (isFinite_ofInt _).div (isFinite_ofInt _)
  rw [cosineOfTurn, hd]
  dsimp only
  split
  · exact isFinite_zero
  · split
    · exact isFinite_ofInt 1
    · split
      · exact isFinite_ofInt (-1)
      · exact isFinite_roundedBy _ _ _ _

theorem isFinite_chebyshevPoint (r : Request) {low high : BigFloat} (hlow : low.IsFinite)
    (hhigh : high.IsFinite) (numerator denominator : Nat) :
    (chebyshevPoint r.scalars r.bits low high numerator denominator).IsFinite := by
  have hS := r.hasValues
  have htwo := hS.ofInt 2
  exact hS.sub (hS.div (hS.add hlow hhigh) htwo)
    (hS.mul (hS.div (hS.sub hhigh hlow) htwo) (isFinite_cosineOfTurn _ _ _))

theorem isFinite_max {y : BigFloat} (hx : x.IsFinite) (hy : y.IsFinite) : (x.max y).IsFinite := by
  rw [BigFloat.max]
  split
  · exact hy
  · exact hx

/-- **The interval** on which a target is fitted is finite. -/
theorem isFinite_foldedInterval (bits : Nat) (parity : Parity) {low high : BigFloat}
    (hlow : low.IsFinite) (hhigh : high.IsFinite) :
    (foldedInterval bits parity low high).1.IsFinite ∧
      (foldedInterval bits parity low high).2.IsFinite := by
  have hneglow : (low.round bits).negate.IsFinite := hlow.round.negate
  have hneghigh : (high.round bits).negate.IsFinite := hhigh.round.negate
  cases parity with
  | none => exact ⟨hlow, hhigh⟩
  | odd | even =>
    rw [foldedInterval]
    dsimp only
    split
    · exact ⟨isFinite_zero, isFinite_max hneglow hhigh⟩
    · split
      · exact ⟨hneghigh, hneglow⟩
      · exact ⟨hlow, hhigh⟩

/-- The **places of a grid** on an interval. -/
def Request.gridPlace (r : Request) (low high : BigFloat) (k : Nat) : BigFloat :=
  chebyshevPoint r.scalars r.bits low high k (gridSize r.terms.toNat - 1)

/-- A problem whose **grid was sampled**: at each of its places the target has a finite value. -/
structure Problem.IsSampled (p : Problem) : Prop where
  low : p.low.IsFinite
  high : p.high.IsFinite
  places : p.grid.toList.map Prod.fst =
    (List.range (gridSize p.terms)).map (p.request.gridPlace p.low p.high)
  targets : ∀ q ∈ p.grid.toList, p.request.targetAt q.1 = .ok q.2 ∧ q.2.IsFinite

theorem Problem.IsSampled.isFinite_place (hp : p.IsSampled) {q : BigFloat × BigFloat}
    (hq : q ∈ p.grid.toList) : q.1.IsFinite := by
  have hplace := List.mem_map_of_mem (f := Prod.fst) hq
  rw [hp.places] at hplace
  obtain ⟨k, -, hk⟩ := List.mem_map.mp hplace
  exact hk ▸ isFinite_chebyshevPoint _ hp.low hp.high _ _

/-- **The problem** of a request is sampled, or the target fails at some place. -/
theorem Request.problem_ends_of_settles {E : Failure → Prop}
    (htarget : ∀ x, x.IsFinite → Settles (r.targetAt x) IsFinite E) (low high : Rat)
    (s : Array Event) :
    Ends (r.problem low high) s (fun p _ => p.request = r ∧ p.IsSampled) fun f _ => E f := by
  obtain ⟨hlow, hhigh⟩ := isFinite_foldedInterval r.bits r.parity (isFinite_ofRat r.bits low)
    (isFinite_ofRat r.bits high)
  rw [problem]
  generalize hfolded : foldedInterval r.bits r.parity (.ofRat r.bits low) (.ofRat r.bits high) =
    folded at hlow hhigh
  obtain ⟨low, high⟩ := folded
  dsimp only at hlow hhigh ⊢
  have hplace : ∀ k, (r.gridPlace low high k).IsFinite := fun k =>
    isFinite_chebyshevPoint r hlow hhigh _ _
  refine Ends.bind (Ends.mapM (R := fun k q => q.1 = r.gridPlace low high k ∧
    r.targetAt q.1 = .ok q.2 ∧ q.2.IsFinite) (fun k _ s => ?_) s) fun grid s hgrid => .pure ⟨rfl, ?_⟩
  · exact (traced_ends (htarget _ (hplace k)).and_eq s).bind fun t s ht => .pure ⟨rfl, ht⟩
  · have hplaces : List.Forall₂ (· = ·) (grid.map Prod.fst)
        ((List.range (gridSize r.terms.toNat)).map (r.gridPlace low high)) := by
      rw [List.forall₂_map_left_iff, List.forall₂_map_right_iff]
      refine hgrid.flip.imp ?_
      exact fun q k h => h.1
    refine ⟨hlow, hhigh, List.forall₂_eq_eq_eq ▸ hplaces, fun q hq => ?_⟩
    obtain ⟨k, -, h⟩ := exists_of_forall₂ hgrid.flip hq
    exact h.2

/-- **The problem** of a request is sampled, or the fit is given up. -/
theorem Request.problem_ends (hr : r.Evaluates) (low high : Rat) (s : Array Event) :
    Ends (r.problem low high) s (fun p _ => p.request = r ∧ p.IsSampled)
      fun f _ => f.IsApproximation :=
  problem_ends_of_settles (fun _ hx => targetAt_settles hr hx) low high s

/-! ### One exchange -/

/-- The first reference has a place more than there are terms, and all are finite. -/
theorem Problem.firstReference_spec (hp : p.IsSampled) :
    p.firstReference.length = p.terms + 1 ∧ ∀ x ∈ p.firstReference, x.IsFinite := by
  have hsymmetric : ∀ denominator, ∀ x ∈ (List.range (p.terms + 1)).map fun k =>
      p.request.scalars.mul p.high (cosineOfTurn p.request.bits k denominator), x.IsFinite := by
    intro denominator x hx
    obtain ⟨k, -, rfl⟩ := List.mem_map.mp hx
    exact p.request.hasValues.mul hp.high (isFinite_cosineOfTurn _ _ _)
  rw [firstReference]
  dsimp only
  refine ⟨?_, fun x hx => ?_⟩
  · rw [List.length_mergeSort]
    split <;> rw [List.length_map, List.length_range]
  · rw [List.mem_mergeSort] at hx
    split at hx
    · exact hsymmetric _ x hx
    · exact hsymmetric _ x hx
    · obtain ⟨k, -, rfl⟩ := List.mem_map.mp hx
      exact isFinite_chebyshevPoint _ hp.low hp.high _ _

/-- **Levelling out** the error on a reference gives a coefficient for each term. -/
theorem Problem.level_settles (hr : p.request.Evaluates) (hlength : reference.length = p.terms + 1)
    (hreference : ∀ x ∈ reference, x.IsFinite) :
    Settles (p.level reference) (fun found =>
      found.1.length = p.terms ∧ (∀ c ∈ found.1, c.IsFinite) ∧ found.2.IsFinite)
      Failure.IsApproximation := by
  have htargets : Settles (reference.mapM fun x => do return (x, ← p.request.targetAt x))
      (List.Forall₂ (fun _ q => q.1.IsFinite ∧ q.2.IsFinite) reference) Failure.IsApproximation :=
    .mapM fun x hx => (Request.targetAt_settles hr (hreference x hx)).bind fun t ht =>
      .ok ⟨hreference x hx, ht⟩
  rw [level]
  refine htargets.bind fun targets htargets => ?_
  have hrows := @hasNumbers_levelledSystem _ _ _ _ p.request.hasValues p.degrees _ fun q hq =>
    (exists_of_forall₂ htargets.flip hq).choose_spec.2
  dsimp only
  split
  · next solution hsolution =>
    obtain ⟨hcount, hnumbers⟩ :=
      Matrix.solve?_eq_some (hasValues_bigScalars p.solvingBits) hrows hsolution
    rw [levelledSystem, List.length_mapIdx, ← htargets.length_eq, hlength] at hcount
    refine .ok ⟨?_, fun c hc => hnumbers c (List.mem_of_mem_dropLast hc), ?_⟩
    · rw [List.length_dropLast, hcount, Nat.add_sub_cancel]
    · cases hlast : solution.getLast? with
      | none => exact isFinite_zero
      | some level => exact hnumbers level (List.mem_of_getLast? hlast)
  · exact .error ⟨_, rfl⟩

/-- The error at a finite place is finite. -/
theorem Problem.errorAt_settles (hr : p.request.Evaluates) (hc : ∀ c ∈ coefficients, c.IsFinite)
    (hx : x.IsFinite) :
    Settles (p.errorAt coefficients x) IsFinite Failure.IsApproximation :=
  (Request.targetAt_settles hr hx).bind fun _ ht =>
    .ok (p.request.hasValues.sub ht (p.request.hasValues.valueAt p.degrees hc hx))

/-- The error at a place of the grid is the one that is sampled there. -/
theorem Problem.errorAt_of_mem (hp : p.IsSampled) (coefficients : List BigFloat)
    {q : BigFloat × BigFloat} (hq : q ∈ p.grid.toList) :
    p.errorAt coefficients q.1 = .ok (p.request.scalars.sub q.2
      (valueAt p.request.scalars p.degrees coefficients q.1)) := by
  rw [errorAt, (hp.targets q hq).1]
  rfl

theorem Problem.isFinite_goldenRatio (p : Problem) : p.goldenRatio.IsFinite := by
  have hS := p.request.hasValues
  exact hS.div (hS.sub (IsFinite.sqrt (isFinite_ofInt 5)) (hS.ofInt 1)) (hS.ofInt 2)

/-- **The extrema** of the error of some coefficients are finite, and at no place of the grid is
the error larger than all of them. -/
theorem Problem.extremaOf_settles (hr : p.request.Evaluates) (hp : p.IsSampled)
    (hc : ∀ c ∈ coefficients, c.IsFinite) :
    Settles (p.extremaOf coefficients) (fun peaks =>
      (∀ peak ∈ peaks, peak.HasNumbers IsFinite) ∧
        ∀ q ∈ p.grid.toList, ∃ e : Dyadic, p.errorAt coefficients q.1 = .ok (.finite e) ∧
          (e.toRat = 0 ∨ ∃ peak ∈ peaks, |e.toRat| ≤
            p.request.scalars.size BigFloat.value peak.error)) Failure.IsApproximation := by
  have hS := p.request.hasValues
  have herror : ∀ q ∈ p.grid.toList, ∃ e : Dyadic, p.request.scalars.sub q.2
      (valueAt p.request.scalars p.degrees coefficients q.1) = .finite e ∧
        Fits p.request.bits e.toRat := by
    intro q hq
    obtain ⟨t, ht⟩ := (hp.targets q hq).2
    obtain ⟨v, hv⟩ := hS.valueAt p.degrees hc (hp.isFinite_place hq)
    rw [ht, hv]
    exact ⟨_, rfl, fits_roundDyadic p.request.bits_pos _⟩
  refine (extrema_settles hS p.isFinite_goldenRatio
    (fun x hx => errorAt_settles hr hc hx) fun peak hpeak => ?_).mono fun peaks hpeaks =>
      ⟨hpeaks.1, fun q hq => ?_⟩
  · rw [Array.toList_map, List.mem_map] at hpeak
    obtain ⟨q, hq, rfl⟩ := hpeak
    obtain ⟨e, he, -⟩ := herror q hq
    exact ⟨hp.isFinite_place hq, e, he⟩
  · obtain ⟨e, he, hfits⟩ := herror q hq
    refine ⟨e, (errorAt_of_mem hp coefficients hq).trans (congrArg _ he), ?_⟩
    have hmem : (⟨q.1, .finite e⟩ : Peak BigFloat) ∈ (p.grid.map fun q =>
        (⟨q.1, p.request.scalars.sub q.2
          (valueAt p.request.scalars p.degrees coefficients q.1)⟩ : Peak BigFloat)).toList := by
      rw [Array.toList_map, List.mem_map]
      exact ⟨q, hq, by rw [he]⟩
    have := hpeaks.2 _ hmem
    rwa [value_finite, Request.scalars, size_bigScalars hfits] at this

/-- **The largest error** among some extrema is finite, and none of them exceeds it. -/
theorem Problem.largestError_spec (p : Problem) {peaks : List (Peak BigFloat)}
    (hpeaks : ∀ peak ∈ peaks, peak.HasNumbers IsFinite) :
    ∃ largest : Dyadic, p.largestError peaks = .finite largest ∧ 0 ≤ largest.toRat ∧
      ∀ peak ∈ peaks, p.request.scalars.size BigFloat.value peak.error ≤ largest.toRat := by
  have hS := p.request.hasValues
  have hmagnitudes : ∀ x ∈ peaks.map fun peak => p.request.scalars.abs peak.error, x.IsFinite := by
    intro x hx
    obtain ⟨peak, hpeak, rfl⟩ := List.mem_map.mp hx
    exact hS.abs (hpeaks peak hpeak).error
  obtain ⟨⟨largest, hlargest⟩, hzero, hle⟩ := hS.le_foldl_max isFinite_zero hmagnitudes
  rw [hlargest] at hzero hle
  refine ⟨largest, ?_, hzero, fun peak hpeak => hle _ (List.mem_map_of_mem hpeak)⟩
  rw [largestError, ← hlargest, List.foldl_map]

/-! ### Mirrored places -/

/-- A target **shows its parity** at a place when its value at the mirrored place is the same, or the
negated one. -/
def Request.IsMirroredAt (r : Request) (x : BigFloat) : Prop :=
  match r.parity with
  | .even => r.targetAt x.negate = r.targetAt x
  | .odd => r.targetAt x.negate = BigFloat.negate <$> r.targetAt x
  | .none => False

/-- **An even polynomial** has the same value at a mirrored place. -/
theorem valueAt_negate_even (bits terms : Nat) (hx : x.IsFinite) :
    valueAt (bigScalars bits) (Parity.even.degrees terms) coefficients x.negate =
      valueAt (bigScalars bits) (Parity.even.degrees terms) coefficients x := by
  have hbasis : basis (bigScalars bits) (Parity.even.degrees terms) x.negate =
      basis (bigScalars bits) (Parity.even.degrees terms) x := by
    refine List.map_congr_left fun d hd => ?_
    obtain ⟨i, -, rfl⟩ := List.mem_map.mp hd
    exact pow_negate_of_even hx ⟨i, show (2 * (i : Int)).toNat = i + i by omega⟩
  rw [valueAt, valueAt, hbasis]

theorem zipWith_mul_negate (bits : Nat) {ys : List BigFloat} (hc : ∀ c ∈ coefficients, c.IsFinite)
    (hys : ∀ y ∈ ys, y.IsFinite) :
    List.zipWith (bigScalars bits).mul coefficients (ys.map negate) =
      (List.zipWith (bigScalars bits).mul coefficients ys).map negate := by
  induction coefficients generalizing ys with
  | nil => rfl
  | cons c cs ih =>
    cases ys with
    | nil => rfl
    | cons y ys =>
      obtain ⟨hc, hcs⟩ := List.forall_mem_cons.mp hc
      obtain ⟨hy, hys⟩ := List.forall_mem_cons.mp hys
      exact congrArg₂ List.cons (mul_negate hc hy) (ih hcs hys)

/-- **An odd polynomial** has the negated value at a mirrored place. -/
theorem valueAt_negate_odd (bits terms : Nat) (hc : ∀ c ∈ coefficients, c.IsFinite)
    (hx : x.IsFinite) :
    valueAt (bigScalars bits) (Parity.odd.degrees terms) coefficients x.negate =
      (valueAt (bigScalars bits) (Parity.odd.degrees terms) coefficients x).negate := by
  have hS := hasValues_bigScalars bits
  have hbasis : basis (bigScalars bits) (Parity.odd.degrees terms) x.negate =
      (basis (bigScalars bits) (Parity.odd.degrees terms) x).map negate := by
    rw [basis, basis, List.map_map]
    refine List.map_congr_left fun d hd => ?_
    obtain ⟨i, -, rfl⟩ := List.mem_map.mp hd
    exact pow_negate_of_odd hx ⟨i, show (2 * (i : Int) + 1).toNat = 2 * i + 1 by omega⟩
  have hfinite := hS.basis (Parity.odd.degrees terms) hx
  rw [valueAt, valueAt, hbasis]
  generalize basis (bigScalars bits) (Parity.odd.degrees terms) x = ys at hfinite
  rw [zipWith_mul_negate bits hc hfinite]
  exact sum_map_negate (Scalars.forall_mem_zipWith fun c hc' y hy =>
    hS.mul (hc c hc') (hfinite y hy))

/-- **The error at a mirrored place** has the same magnitude where the target shows its parity. -/
theorem Problem.errorAt_negate {t : BigFloat} {e : Dyadic} (hc : ∀ c ∈ coefficients, c.IsFinite)
    (hx : x.IsFinite) (ht : p.request.targetAt x = .ok t) (htfinite : t.IsFinite)
    (he : p.errorAt coefficients x = .ok (.finite e)) (hmirrored : p.request.IsMirroredAt x) :
    ∃ e' : Dyadic, p.errorAt coefficients x.negate = .ok (.finite e') ∧ |e'.toRat| = |e.toRat| := by
  rw [errorAt, ht] at he
  replace he := Except.ok.inj he
  have hS := p.request.hasValues
  have hvalue := hS.valueAt p.degrees hc hx
  rw [Request.IsMirroredAt, ht] at hmirrored
  rw [degrees] at he hvalue
  rw [errorAt, degrees]
  cases hparity : p.request.parity with
  | none =>
    rw [hparity] at hmirrored
    exact hmirrored.elim
  | even =>
    rw [hparity] at hmirrored he
    rw [show p.request.targetAt x.negate = .ok t from hmirrored]
    refine ⟨e, ?_, rfl⟩
    rw [ok_bind, Request.scalars, valueAt_negate_even _ _ hx]
    exact congrArg Except.ok he
  | odd =>
    rw [hparity] at hmirrored he hvalue
    rw [show p.request.targetAt x.negate = .ok t.negate from hmirrored]
    refine ⟨-e, ?_, by rw [Dyadic.toRat_neg, abs_neg]⟩
    rw [ok_bind, Request.scalars, valueAt_negate_odd _ _ hc hx]
    exact congrArg Except.ok ((sub_negate htfinite hvalue).trans (congrArg negate he))

/-! ### What a result guarantees -/

/-- What a result **guarantees** that is the fit of a sampled problem: its polynomial has the degrees
that were asked for; the largest error is exceeded at no place of the grid, nor at a mirrored one
where the target shows its parity; and it was found to be no more than noise, or hardly more than
the levelled one, after so many exchanges. -/
structure Request.Guarantees (r : Request) (p : Problem) (fit : Result)
    (coefficients : List BigFloat) (largest level : Dyadic) : Prop where
  polynomial : fit.polynomial.coefficients = (r.parity.degrees r.terms.toNat).zip
    (coefficients.map fun c => .big c r.workingDigits.toNat)
  degrees : fit.polynomial.degrees = r.parity.degrees r.terms.toNat
  error : fit.error = .big (.finite largest) r.workingDigits.toNat
  levelled : fit.levelled = .big (.finite level) r.workingDigits.toNat
  places : p.grid.toList.map Prod.fst =
    (List.range (gridSize r.terms.toNat)).map (r.gridPlace p.low p.high)
  sampled : ∀ x ∈ p.grid.toList.map Prod.fst, ∃ e : Dyadic,
    p.errorAt coefficients x = .ok (.finite e) ∧ |e.toRat| ≤ largest.toRat
  mirrored : ∀ x ∈ p.grid.toList.map Prod.fst, r.IsMirroredAt x → ∃ e : Dyadic,
    p.errorAt coefficients x.negate = .ok (.finite e) ∧ |e.toRat| ≤ largest.toRat
  converged : BigFloat.le (.finite largest) p.noise = true ∨
    (r.scalars.sub (.finite largest) (.finite level)).le
      (r.scalars.mul tolerance (.finite largest)) = true
  iterations : 1 ≤ fit.iterations ∧ fit.iterations ≤ maxExchanges

variable {largest level : Dyadic}

/-- The polynomial of a result has the degrees that were asked for, with the coefficients under
them. -/
theorem Problem.polynomial_result (hterms : coefficients.length = p.terms) (iterations : Nat) :
    let polynomial := (p.result coefficients (.finite largest) (.finite level) iterations).polynomial
    polynomial.coefficients = (p.request.parity.degrees p.terms).zip
        (coefficients.map fun c => .big c p.request.workingDigits.toNat) ∧
      polynomial.degrees = p.request.parity.degrees p.terms := by
  have hlength : (coefficients.map fun c =>
      Number.big c p.request.workingDigits.toNat).length = p.terms := by
    rw [List.length_map, hterms]
  rw [← hlength]
  simp only [result, degrees, ← hlength]
  exact ⟨Polynomial.ofList_zip_coefficients _ _, Polynomial.degrees_ofList_zip _ _⟩

/-- **A result that converged** is guaranteed when no error of the grid exceeds the largest one. -/
theorem Problem.guarantees_result (hp : p.IsSampled) (hterms : coefficients.length = p.terms)
    (hc : ∀ c ∈ coefficients, c.IsFinite)
    (hbound : ∀ q ∈ p.grid.toList, ∃ e : Dyadic,
      p.errorAt coefficients q.1 = .ok (.finite e) ∧ |e.toRat| ≤ largest.toRat)
    (hconverged : p.converged (.finite largest) (.finite level) = true) {done : Nat}
    (hdone : done < maxExchanges) :
    p.request.Guarantees p (p.result coefficients (.finite largest) (.finite level) (done + 1))
      coefficients largest level where
  polynomial := (p.polynomial_result hterms (done + 1)).1
  degrees := (p.polynomial_result hterms (done + 1)).2
  error := rfl
  levelled := rfl
  places := hp.places
  sampled x hx := by
    obtain ⟨q, hq, rfl⟩ := List.mem_map.mp hx
    exact hbound q hq
  mirrored x hx hmirrored := by
    obtain ⟨q, hq, rfl⟩ := List.mem_map.mp hx
    obtain ⟨e, he, hbelow⟩ := hbound q hq
    obtain ⟨ht, htfinite⟩ := hp.targets q hq
    obtain ⟨e', he', habs⟩ := errorAt_negate hc (hp.isFinite_place hq) ht htfinite he hmirrored
    exact ⟨e', he', habs.trans_le hbelow⟩
  converged := (Bool.or_eq_true _ _).mp hconverged
  iterations := ⟨Nat.le_add_left 1 done, hdone⟩

/-- **All ends of an exchange**: what it gives is guaranteed, or the fit is given up. -/
theorem Problem.exchange_ends (hr : p.request.Evaluates) (hp : p.IsSampled) {left done : Nat}
    (hcount : done + left = maxExchanges) (hlength : reference.length = p.terms + 1)
    (hreference : ∀ x ∈ reference, x.IsFinite) (s : Array Event) :
    Ends (p.exchange left done reference) s (fun fit _ => ∃ coefficients largest level,
      p.request.Guarantees p fit coefficients largest level) fun f _ => f.IsApproximation := by
  induction left generalizing done reference s with
  | zero => exact Request.traced_ends (.error ⟨_, rfl⟩) s
  | succ left ih =>
    rw [exchange]
    refine (Request.traced_ends (level_settles hr hlength hreference) s).bind ?_
    rintro ⟨coefficients, level⟩ s ⟨hterms, hc, hlevel⟩
    refine (Request.traced_ends (extremaOf_settles hr hp hc) s).bind fun peaks s hextrema => ?_
    obtain ⟨hpeaks, hcover⟩ := hextrema
    obtain ⟨largest, hlargest, hzero, hle⟩ := p.largestError_spec hpeaks
    obtain ⟨level, hlevel⟩ := p.request.hasValues.abs hlevel
    dsimp only
    rw [hlargest, hlevel]
    refine (Traced.report_ends _ _ s _).bind fun _ s _ => ?_
    split
    · next hconverged =>
      have hbound : ∀ q ∈ p.grid.toList, ∃ e : Dyadic,
          p.errorAt coefficients q.1 = .ok (.finite e) ∧ |e.toRat| ≤ largest.toRat := by
        intro q hq
        obtain ⟨e, he, hbelow⟩ := hcover q hq
        refine ⟨e, he, ?_⟩
        rcases hbelow with h | ⟨peak, hpeak, h⟩
        · rwa [h, abs_zero]
        · exact h.trans (hle peak hpeak)
      exact .pure ⟨coefficients, largest, level,
        guarantees_result hp hterms hc hbound hconverged (by omega)⟩
    · split
      · exact Request.traced_ends (.error ⟨_, rfl⟩) s
      · next henough =>
        refine ih (by omega) ?_ (fun x hx => ?_) s
        · rw [List.length_map, length_trim (Nat.le_of_not_lt henough)]
        · obtain ⟨peak, hpeak, rfl⟩ := List.mem_map.mp hx
          exact (hpeaks peak (mem_of_mem_trim hpeak)).place

/-! ### All ends of a fit -/

/-- The problem of a request does not depend on earlier messages. -/
theorem Request.steady_problem (r : Request) (low high : Rat) : (r.problem low high).Steady :=
  (Traced.steady_mapM (fun _ => (steady_traced _).bind fun _ => Traced.steady_pure _) _).bind
    fun _ => Traced.steady_pure _

/-- **All ends of a fit**: for a target that fails only where no value exists, on an interval whose
ends have exact values, the fit is given up or its result is guaranteed. -/
theorem Request.solve_guarantees {low high : Rat} (hlow : r.low.toRat = .ok low)
    (hhigh : r.high.toRat = .ok high) (hr : r.Evaluates) :
    (∃ why, r.solve.outcome = .error (.approximation why)) ∨
      ∃ p fit coefficients largest level, (r.problem low high).outcome = .ok p ∧
        r.solve.outcome = .ok fit ∧ r.Guarantees p fit coefficients largest level := by
  have hends : Ends r.solve #[] (fun fit _ => ∃ p coefficients largest level,
      (r.problem low high).outcome = .ok p ∧ r.Guarantees p fit coefficients largest level)
      fun f _ => f.IsApproximation := by
    rw [solve, hlow, hhigh]
    refine Traced.abortIf_ends (fun _ _ => ⟨_, rfl⟩) fun _ => ?_
    refine Traced.abortIf_ends (fun _ _ => ⟨_, rfl⟩) fun _ => ?_
    refine Ends.bind (Q := fun a _ => a = low) (.of_ok rfl rfl) fun a s ha => ?_
    refine Ends.bind (Q := fun b _ => b = high) (.of_ok rfl rfl) fun b s hb => ?_
    subst ha hb
    refine Traced.abortIf_ends (fun _ _ => ⟨_, rfl⟩) fun _ => ?_
    refine (Traced.report_ends _ _ _ _).bind fun _ s _ => ?_
    have hproblem := (problem_ends hr a b s).and_run.mono (fun _ _ h => h) fun _ _ h => h.2
    refine hproblem.bind fun p s₁ hend => ?_
    obtain ⟨hrun, hrequest, hp⟩ := hend
    obtain ⟨hlength, hfinite⟩ := Problem.firstReference_spec hp
    have hexchange := Problem.exchange_ends (hrequest ▸ hr) hp (Nat.zero_add _) hlength hfinite s₁
    refine hexchange.bind fun fit s₂ hend => ?_
    obtain ⟨coefficients, largest, level, hfit⟩ := hend
    refine (Traced.report_ends _ _ _ _).bind fun _ s₃ _ => .pure ?_
    have houtcome := (r.steady_problem _ _).outcome_eq_ok hrun
    exact ⟨p, coefficients, largest, level, houtcome, hrequest ▸ hfit⟩
  cases houtcome : r.solve.outcome with
  | ok fit =>
    obtain ⟨p, coefficients, largest, level, hp, hfit⟩ := hends.ok (Prod.ext houtcome rfl)
    exact .inr ⟨p, fit, coefficients, largest, level, hp, rfl, hfit⟩
  | error f =>
    obtain ⟨why, rfl⟩ := hends.error (Prod.ext houtcome rfl)
    exact .inl ⟨why, rfl⟩

/-- The fit of the identity on the interval from minus one to one, which is odd. -/
def identityRequest : Request where
  target := .expr (.node (.var "x" none) [])
  argument := "x"
  terms := 1
  low := .integer (-1)
  high := .integer 1
  parity := .odd
  digits := 30

theorem evaluates_identityRequest : identityRequest.Evaluates :=
  ⟨_, rfl, fun x _ f h => by
    have hvalue : (Reference.arithmetic identityRequest.workingDigits).evaluateWith []
        (.node (.var "x" none) []) [("x", .number (.real x))] = .ok (.number (.real x)) := rfl
    cases hvalue.symm.trans h⟩

theorem solve_identityRequest :
    (identityRequest.low.toRat = .ok (-1) ∧ identityRequest.high.toRat = .ok 1 ∧
      identityRequest.Evaluates) ∧
    ((∃ why, identityRequest.solve.outcome = .error (.approximation why)) ∨
      ∃ p fit coefficients largest level, (identityRequest.problem (-1) 1).outcome = .ok p ∧
        identityRequest.solve.outcome = .ok fit ∧
        identityRequest.Guarantees p fit coefficients largest level) :=
  ⟨⟨rfl, rfl, evaluates_identityRequest⟩,
    Request.solve_guarantees rfl rfl evaluates_identityRequest⟩

end Fit

end Elementary
