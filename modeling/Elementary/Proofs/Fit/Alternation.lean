import Elementary.Proofs.Fit.Probes
import Elementary.Proofs.Fit.Runs

/-!
# When the extrema of an error alternate

Each extremum stands for a run of one sign of the samples on the grid. It is the largest sample of
the run, or a place between the grid points next to it where the error has a larger magnitude. The
magnitudes alone are compared, so that an error that leaps between grid points may be found with the
opposite sign, and the extrema need not alternate. They do when the error leaps nowhere between the
grid points next to a kept sample to a larger magnitude of the opposite sign; and they come in
increasing order when between neighbouring grid points it changes its sign at most once.

## Main definitions

* `Fit.Scalars.HasSigns`: an arithmetic whose negations and magnitudes are exact.
* `Fit.StandsFor`: what an extremum is for the sample that was kept of a run.
* `Fit.IsSpikeless`, `Fit.CrossesOnce`: the errors whose extrema alternate, in increasing order.

## Main results

* `Fit.refine_between`: a search stays between its ends, and finds errors as they are computed.
* `Fit.extrema_standFor`: an extremum for each kept sample.
* `Fit.Problem.extremaOf_runs`: the extrema of a fit, and when they alternate.
* `Fit.not_isAlternation_extremaOf`: extrema that do not alternate.
-/

namespace Elementary.Fit

variable {κ : Type} {S : Scalars κ} {IsNumber : κ → Prop} {value : κ → Rat} {ratio : κ}
  {error height : κ → Except Failure κ} {E : Failure → Prop} {grid : Array (Peak κ)}

/-- An arithmetic whose **negations and magnitudes are exact**, and whose numbers are known by their
values. -/
structure Scalars.HasSigns (S : Scalars κ) (IsNumber : κ → Prop) (value : κ → Rat) : Prop where
  hasValues : S.HasValues IsNumber value
  neg_neg : ∀ {x}, IsNumber x → S.neg (S.neg x) = x
  size_eq : ∀ {x}, IsNumber x → S.size value x = |value x|
  value_injective : ∀ {x y}, IsNumber x → IsNumber y → value x = value y → x = y

/-! ### A search stays between its ends -/

/-- A place **between two values**, with the error that is computed there. -/
structure Peak.IsProbe (IsNumber : κ → Prop) (value : κ → Rat) (height : κ → Except Failure κ)
    (l u : Rat) (q : Peak κ) : Prop where
  numbers : q.HasNumbers IsNumber
  between : value q.place ∈ Set.uIcc l u
  computed : height q.place = .ok q.error

/-- A search **between two values**. -/
structure Bracket.IsBetween (IsNumber : κ → Prop) (value : κ → Rat) (height : κ → Except Failure κ)
    (l u : Rat) (b : Bracket κ) : Prop where
  low : IsNumber b.low ∧ value b.low ∈ Set.uIcc l u
  high : IsNumber b.high ∧ value b.high ∈ Set.uIcc l u
  left : b.left.IsProbe IsNumber value height l u
  right : b.right.IsProbe IsNumber value height l u

section

variable (hS : S.HasValues IsNumber value) (hratio : IsNumber ratio)
  (hprobes : ProbesBetween S IsNumber value ratio)
  (hheight : ∀ x, IsNumber x → Settles (height x) IsNumber E)

include hS hratio hprobes hheight

/-- **A new probe** of an interval between two values lies between them. -/
theorem probe_settles {l u : Rat} {low high : κ} (hlow : IsNumber low ∧ value low ∈ Set.uIcc l u)
    (hhigh : IsNumber high ∧ value high ∈ Set.uIcc l u) {x : κ}
    (hx : x = Bracket.lowProbe S ratio low high ∨ x = Bracket.highProbe S ratio low high) :
    Settles (height x) (fun e => Peak.IsProbe IsNumber value height l u ⟨x, e⟩) E := by
  obtain ⟨hlowNumber, hhighNumber⟩ := isNumber_probes hS hratio hlow.1 hhigh.1
  obtain ⟨hlowBetween, hhighBetween⟩ := hprobes low high hlow.1 hhigh.1
  have hsub := Set.uIcc_subset_uIcc hlow.2 hhigh.2
  rcases hx with rfl | rfl
  · exact (hheight _ hlowNumber).and_eq.mono fun e ⟨hcomputed, he⟩ =>
      ⟨⟨hlowNumber, he⟩, hsub hlowBetween, hcomputed⟩
  · exact (hheight _ hhighNumber).and_eq.mono fun e ⟨hcomputed, he⟩ =>
      ⟨⟨hhighNumber, he⟩, hsub hhighBetween, hcomputed⟩

/-- **One step of a search** stays between the values between which it is. -/
theorem step_between {l u : Rat} {b : Bracket κ} (hb : b.IsBetween IsNumber value height l u) :
    Settles (b.step S ratio height) (Bracket.IsBetween IsNumber value height l u) E := by
  have hleft : IsNumber b.left.place ∧ value b.left.place ∈ Set.uIcc l u :=
    ⟨hb.left.numbers.place, hb.left.between⟩
  have hright : IsNumber b.right.place ∧ value b.right.place ∈ Set.uIcc l u :=
    ⟨hb.right.numbers.place, hb.right.between⟩
  rw [Bracket.step]
  split
  · exact (probe_settles hS hratio hprobes hheight hb.low hright (.inl rfl)).bind fun e he =>
      .ok ⟨hb.low, hright, he, hb.left⟩
  · exact (probe_settles hS hratio hprobes hheight hleft hb.high (.inr rfl)).bind fun e he =>
      .ok ⟨hleft, hb.high, hb.right, he⟩

/-- **A search** stays between the values between which it begins. -/
theorem steps_between {l u : Rat} (count : Nat) {b : Bracket κ}
    (hb : b.IsBetween IsNumber value height l u) :
    Settles (b.steps S ratio height count) (Bracket.IsBetween IsNumber value height l u) E := by
  induction count generalizing b with
  | zero => exact .ok hb
  | succ count ih =>
    exact (step_between hS hratio hprobes hheight hb).bind fun b hb => ih hb

end

/-- The sign that a search gives to an error is **taken back** at its end. -/
theorem Scalars.HasSigns.signed_signed (hS : S.HasSigns IsNumber value) (positive : Bool) {x : κ}
    (hx : IsNumber x) : S.signed positive (S.signed positive x) = x := by
  cases positive with
  | true => rfl
  | false => exact hS.neg_neg hx

section

variable (hS : S.HasSigns IsNumber value) (hratio : IsNumber ratio)
  (hprobes : ProbesBetween S IsNumber value ratio)
  (herror : ∀ x, IsNumber x → Settles (error x) IsNumber E)

include hS hratio hprobes herror

/-- **A golden-section search** finds a place between its ends, with the error that is computed
there. -/
theorem refine_between (count : Nat) (positive : Bool) {low high : κ} (hlow : IsNumber low)
    (hhigh : IsNumber high) :
    Settles (refine S ratio count error positive low high)
      (Peak.IsProbe IsNumber value error (value low) (value high)) E := by
  have hvalues := hS.hasValues
  have hheight : ∀ x, IsNumber x →
      Settles (do return S.signed positive (← error x)) IsNumber E := fun x hx =>
    (herror x hx).bind fun e he => .ok (hvalues.signed positive he)
  have hlow' : IsNumber low ∧ value low ∈ Set.uIcc (value low) (value high) :=
    ⟨hlow, Set.left_mem_uIcc⟩
  have hhigh' : IsNumber high ∧ value high ∈ Set.uIcc (value low) (value high) :=
    ⟨hhigh, Set.right_mem_uIcc⟩
  have hstart : Settles (Bracket.start S ratio (fun x => do return S.signed positive (← error x))
      low high) (Bracket.IsBetween IsNumber value
        (fun x => do return S.signed positive (← error x)) (value low) (value high)) E :=
    (probe_settles hvalues hratio hprobes hheight hlow' hhigh' (.inl rfl)).bind fun left hleft =>
      (probe_settles hvalues hratio hprobes hheight hlow' hhigh' (.inr rfl)).bind
        fun right hright => .ok ⟨hlow', hhigh', hleft, hright⟩
  refine hstart.bind fun first hfirst => ?_
  refine (steps_between hvalues hratio hprobes hheight count hfirst).bind fun last hlast => ?_
  have hbest : (last.best S).IsProbe IsNumber value
      (fun x => do return S.signed positive (← error x)) (value low) (value high) := by
    rw [Bracket.best]
    split
    · exact hlast.left
    · exact hlast.right
  obtain ⟨e, he, hsigned⟩ := bind_eq_ok.mp hbest.computed
  have hnumber : IsNumber e := by
    have := herror _ hbest.numbers.place
    rwa [he] at this
  have hsame : S.signed positive (last.best S).error = e := by
    rw [← Except.ok.inj hsigned, hS.signed_signed positive hnumber]
  exact .ok ⟨⟨hbest.numbers.place, hsame ▸ hnumber⟩, hbest.between, by rw [hsame]; exact he⟩

end

/-! ### What the extrema stand for -/

/-- The **numbered samples** of a grid. -/
def samples (grid : Array (Peak κ)) : List (Nat × κ) :=
  grid.toList.mapIdx fun i p => (i, p.error)

theorem mem_samples_iff {s : Nat × κ} :
    s ∈ samples grid ↔ ∃ p, grid[s.1]? = some p ∧ p.error = s.2 := by
  rw [samples, List.mem_mapIdx]
  constructor
  · rintro ⟨i, hi, rfl⟩
    exact ⟨grid.toList[i], by simp_all, rfl⟩
  · rintro ⟨p, hp, hs⟩
    obtain ⟨hi, hget⟩ := Array.getElem?_eq_some_iff.mp hp
    exact ⟨s.1, by simpa using hi, Prod.ext rfl (by simpa [hget] using hs)⟩

/-- What an extremum **is for a sample** that was kept: the sample itself, or a place between the
grid points next to it where the error that is computed has a larger magnitude. -/
structure StandsFor (IsNumber : κ → Prop) (value : κ → Rat) (error : κ → Except Failure κ)
    (grid : Array (Peak κ)) (peak : Peak κ) (s : Nat × κ) : Prop where
  numbers : peak.HasNumbers IsNumber
  computed : error peak.place = .ok peak.error
  origin : (grid[s.1]? = some peak ∧ peak.error = s.2) ∨
    (|value s.2| < |value peak.error| ∧ ∃ before after, 0 < s.1 ∧
      grid[s.1 - 1]? = some before ∧ grid[s.1 + 1]? = some after ∧
        value peak.place ∈ Set.uIcc (value before.place) (value after.place))

/-- The magnitude of an extremum is **at least that of the sample** that it stands for. -/
theorem StandsFor.abs_le {peak : Peak κ} {s : Nat × κ}
    (h : StandsFor IsNumber value error grid peak s) : |value s.2| ≤ |value peak.error| := by
  rcases h.origin with ⟨-, hs⟩ | ⟨hlt, -⟩
  · rw [hs]
  · exact hlt.le

section

variable (hS : S.HasSigns IsNumber value) (hratio : IsNumber ratio)
  (hprobes : ProbesBetween S IsNumber value ratio)
  (herror : ∀ x, IsNumber x → Settles (error x) IsNumber E)
  (hgrid : ∀ p ∈ grid.toList, p.HasNumbers IsNumber ∧ error p.place = .ok p.error)

include hS hratio hprobes herror hgrid

/-- **There is an extremum for each sample that was kept**, in the same order. -/
theorem extrema_standFor :
    Settles (extrema S ratio error grid)
      (fun peaks => List.Forall₂ (StandsFor IsNumber value error grid) peaks
        (signRuns S (samples grid))) E := by
  have hget : ∀ {i : Nat} {p : Peak κ}, grid[i]? = some p →
      p.HasNumbers IsNumber ∧ error p.place = .ok p.error := fun {i p} h =>
    hgrid p (Array.mem_toList_iff.mpr (Array.mem_of_getElem? h))
  rw [extrema]
  refine Settles.filterMapM_some fun s hs => ?_
  obtain ⟨i, e⟩ := s
  obtain ⟨sampled, hsampled, rfl⟩ := mem_samples_iff.mp (mem_of_mem_signRuns hs)
  simp only at hsampled
  obtain ⟨hnumbers, hcomputed⟩ := hget hsampled
  have hown : ∃ peak, some sampled = some peak ∧
      StandsFor IsNumber value error grid peak (i, sampled.error) :=
    ⟨sampled, rfl, hnumbers, hcomputed, .inl ⟨hsampled, rfl⟩⟩
  simp only [hsampled]
  split
  · exact .ok hown
  · next hpos =>
    split
    · next before after hbefore hafter =>
      refine (refine_between hS hratio hprobes herror _ _ (hget hbefore).1.place
        (hget hafter).1.place).bind fun found hfound => ?_
      split
      · next hlt =>
        have hlarger : |value sampled.error| < |value found.error| := by
          rw [← hS.size_eq hnumbers.error, ← hS.size_eq hfound.numbers.error]
          exact (hS.hasValues.lt_iff (hS.hasValues.abs hnumbers.error)
            (hS.hasValues.abs hfound.numbers.error)).mp hlt
        exact .ok ⟨found, rfl, hfound.numbers, hfound.computed, .inr ⟨hlarger, before, after,
          Nat.pos_of_ne_zero hpos, hbefore, hafter, hfound.between⟩⟩
      · exact .ok hown
    · exact .ok hown

end

/-! ### When the extrema alternate -/

/-- An error that **leaps nowhere to the other sign**: between the grid points next to a sample that
is kept, its magnitude is nowhere larger than that of the sample with the opposite sign. -/
def IsSpikeless (S : Scalars κ) (IsNumber : κ → Prop) (value : κ → Rat)
    (error : κ → Except Failure κ) (grid : Array (Peak κ)) : Prop :=
  ∀ s ∈ signRuns S (samples grid), ∀ before after : Peak κ, 0 < s.1 →
    grid[s.1 - 1]? = some before → grid[s.1 + 1]? = some after → ∀ x e : κ, IsNumber x →
      value x ∈ Set.uIcc (value before.place) (value after.place) → error x = .ok e →
        value e * value s.2 < 0 → |value e| ≤ |value s.2|

/-- An error that **changes its sign at most once** between neighbouring grid points: where it has
the sign of the left one lies left of where it has the sign of the right one. -/
def CrossesOnce (IsNumber : κ → Prop) (value : κ → Rat) (error : κ → Except Failure κ)
    (grid : Array (Peak κ)) : Prop :=
  ∀ (i : Nat) (left right : Peak κ), grid[i]? = some left → grid[i + 1]? = some right →
    value left.error * value right.error < 0 → ∀ x y d e : κ, IsNumber x → IsNumber y →
      value x ∈ Set.Icc (value left.place) (value right.place) →
      value y ∈ Set.Icc (value left.place) (value right.place) →
        error x = .ok d → error y = .ok e → 0 < value d * value left.error →
          0 < value e * value right.error → value x < value y

/-- A grid with **strictly increasing places**. -/
def IsIncreasing (value : κ → Rat) (grid : Array (Peak κ)) : Prop :=
  ∀ (i j : Nat) (p q : Peak κ), grid[i]? = some p → grid[j]? = some q → i < j →
    value p.place < value q.place

/-- The samples come in the **order of the grid**. -/
theorem pairwise_samples (grid : Array (Peak κ)) :
    (samples grid).Pairwise fun s t => s.1 < t.1 := by
  rw [samples, List.pairwise_iff_getElem]
  intro i j hi hj hij
  simpa only [List.getElem_mapIdx] using hij

/-- **The samples that are kept** are not zero, alternate in sign, and come in the order of the
grid. -/
theorem signRuns_spec (hS : S.HasValues IsNumber value)
    (hnumbers : ∀ s ∈ samples grid, IsNumber s.2) :
    (∀ s ∈ signRuns S (samples grid), value s.2 ≠ 0) ∧
      (signRuns S (samples grid)).IsChain fun s t => s.1 < t.1 ∧ OppositeSigns value s t := by
  obtain ⟨runs, hruns, hkept⟩ := exists_runs hS hnumbers
  refine ⟨fun s hs => ?_, ?_⟩
  · obtain ⟨run, hrun, hmem, -⟩ := exists_of_forall₂ hkept hs
    exact left_ne_zero_of_mul ((hruns.oneSign run hrun).2 s hmem s hmem).ne'
  · have hopposite := isChain_of_forall₂ (U := OppositeSigns value) hkept
      (fun s t run run' hs ht h => h s hs.1 t ht.1) hruns.alternate
    have hordered := ((pairwise_samples grid).sublist (sublist_signRuns S (samples grid))).isChain
    rw [List.isChain_iff_getElem] at hopposite hordered ⊢
    exact fun i hi => ⟨hordered i hi, hopposite i hi⟩

section

variable {peak peak' : Peak κ} {s t : Nat × κ}

/-- Without leaps an extremum has **the sign of its sample**. -/
theorem StandsFor.sign_pos (h : StandsFor IsNumber value error grid peak s)
    (hspikeless : IsSpikeless S IsNumber value error grid) (hs : s ∈ signRuns S (samples grid))
    (hs0 : value s.2 ≠ 0) : 0 < value peak.error * value s.2 := by
  rcases h.origin with ⟨-, hown⟩ | ⟨hlt, before, after, hpos, hbefore, hafter, hbetween⟩
  · rw [hown]
    exact mul_self_pos.mpr hs0
  · by_contra hle
    rcases (not_lt.mp hle).lt_or_eq with hneg | hzero
    · exact hlt.not_ge (hspikeless s hs before after hpos hbefore hafter peak.place peak.error
        h.numbers.place hbetween h.computed hneg)
    · rw [(mul_eq_zero.mp hzero).resolve_right hs0, abs_zero] at hlt
      exact hlt.not_ge (abs_nonneg _)

/-- An extremum lies **between the grid points** next to its sample. -/
theorem StandsFor.place_le (h : StandsFor IsNumber value error grid peak s)
    (hincreasing : IsIncreasing value grid) {k : Nat} {q : Peak κ} (hq : grid[k]? = some q) :
    (k < s.1 → value q.place ≤ value peak.place) ∧
      (s.1 < k → value peak.place ≤ value q.place) := by
  rcases h.origin with ⟨hown, -⟩ | ⟨-, before, after, hpos, hbefore, hafter, hbetween⟩
  · exact ⟨fun hlt => (hincreasing k s.1 q peak hq hown hlt).le,
      fun hlt => (hincreasing s.1 k peak q hown hq hlt).le⟩
  · have hends := hincreasing _ _ before after hbefore hafter (by omega)
    rw [Set.uIcc_of_le hends.le] at hbetween
    have hle : ∀ {i j : Nat} {p p' : Peak κ}, grid[i]? = some p → grid[j]? = some p' → i ≤ j →
        value p.place ≤ value p'.place := by
      intro i j p p' hp hp' hij
      rcases Nat.lt_or_eq_of_le hij with hlt | rfl
      · exact (hincreasing i j p p' hp hp' hlt).le
      · rw [Option.some.inj (hp.symm.trans hp')]
    exact ⟨fun hlt => (hle hq hbefore (by omega)).trans hbetween.1,
      fun hlt => hbetween.2.trans (hle hafter hq (by omega))⟩

/-- **Two extrema of opposite signs that follow each other** come in the order of their samples, when
the error crosses zero at most once between neighbouring grid points. -/
theorem StandsFor.place_lt (hS : S.HasSigns IsNumber value)
    (h : StandsFor IsNumber value error grid peak s)
    (h' : StandsFor IsNumber value error grid peak' t) (hincreasing : IsIncreasing value grid)
    (hcrosses : CrossesOnce IsNumber value error grid) (hs : s ∈ samples grid)
    (ht : t ∈ samples grid) (hlt : s.1 < t.1) (hopposite : OppositeSigns value s t)
    (hsign : 0 < value peak.error * value s.2) (hsign' : 0 < value peak'.error * value t.2)
    (hpeaks : value peak.error * value peak'.error < 0) :
    value peak.place < value peak'.place := by
  have hne : value peak.place ≠ value peak'.place := by
    intro heq
    have hplace := hS.value_injective h.numbers.place h'.numbers.place heq
    have herror := h.computed
    rw [hplace, h'.computed] at herror
    rw [Except.ok.inj herror] at hpeaks
    exact hpeaks.not_ge (mul_self_nonneg _)
  obtain ⟨a, ha, has⟩ := mem_samples_iff.mp hs
  obtain ⟨b, hb, hbt⟩ := mem_samples_iff.mp ht
  rcases Nat.lt_or_eq_of_le (Nat.succ_le_of_lt hlt) with hfar | hnext
  · -- a grid point lies between them
    obtain ⟨hsize, -⟩ := Array.getElem?_eq_some_iff.mp hb
    have hr : grid[s.1 + 1]? = some grid[s.1 + 1] := Array.getElem?_eq_getElem (by omega)
    exact lt_of_le_of_ne (((h.place_le hincreasing hr).2 (Nat.lt_succ_self _)).trans
      ((h'.place_le hincreasing hr).1 hfar)) hne
  · have hleft := (h'.place_le hincreasing ha).1 hlt
    have hright := (h.place_le hincreasing hb).2 hlt
    rcases le_or_gt (value peak.place) (value a.place) with hle | hgt
    · exact lt_of_le_of_ne (hle.trans hleft) hne
    rcases le_or_gt (value b.place) (value peak'.place) with hle | hgt'
    · exact lt_of_le_of_ne (hright.trans hle) hne
    -- both lie between the two neighbouring grid points
    rw [← hnext] at hb
    refine hcrosses s.1 a b ha hb ?_ peak.place peak'.place peak.error peak'.error h.numbers.place
      h'.numbers.place ⟨hgt.le, hright⟩ ⟨hleft, hgt'.le⟩ h.computed h'.computed ?_ ?_
    · rw [has, hbt]
      exact hopposite
    · rwa [has]
    · rwa [hbt]

end

/-- Numbers with the signs of two opposite ones are opposite. -/
theorem mul_neg_of_signs {a b c d : Rat} (ha : 0 < a * c) (hb : 0 < b * d) (h : c * d < 0) :
    a * b < 0 := by
  have hproduct : 0 < a * b * (c * d) := by
    rw [mul_mul_mul_comm]
    exact mul_pos ha hb
  exact neg_of_mul_pos_left hproduct h.le

/-- **Extrema alternate** when the error leaps nowhere to the other sign; and they come in increasing
order when it crosses zero at most once between neighbouring grid points. -/
theorem isAlternation_of_standsFor (hS : S.HasSigns IsNumber value)
    (hnumbers : ∀ s ∈ samples grid, IsNumber s.2) {peaks : List (Peak κ)}
    (h : List.Forall₂ (StandsFor IsNumber value error grid) peaks (signRuns S (samples grid)))
    (hspikeless : IsSpikeless S IsNumber value error grid) :
    peaks.IsChain (fun p q => value p.error * value q.error < 0) ∧
      (IsIncreasing value grid → CrossesOnce IsNumber value error grid →
        IsAlternation value peaks) := by
  obtain ⟨hnonzero, hchain⟩ := signRuns_spec hS.hasValues hnumbers
  have hsigned : List.Forall₂ (fun peak s => (StandsFor IsNumber value error grid peak s ∧
      s ∈ samples grid) ∧ 0 < value peak.error * value s.2) peaks (signRuns S (samples grid)) :=
    (forall₂_and_mem h).imp fun peak s ⟨hstands, hs⟩ => ⟨⟨hstands, mem_of_mem_signRuns hs⟩,
      hstands.sign_pos hspikeless hs (hnonzero s hs)⟩
  have hsigns : peaks.IsChain fun p q => value p.error * value q.error < 0 := by
    refine isChain_of_forall₂ hsigned ?_ hchain
    rintro p q s t ⟨-, hp⟩ ⟨-, hq⟩ ⟨-, hopposite⟩
    exact mul_neg_of_signs hp hq hopposite
  refine ⟨hsigns, fun hincreasing hcrosses => ⟨fun p hp => ?_, hsigns, ?_⟩⟩
  · obtain ⟨s, -, -, hpos⟩ := exists_of_forall₂ hsigned hp
    exact left_ne_zero_of_mul hpos.ne'
  · have hplaces : peaks.IsChain fun p q => value p.place < value q.place := by
      refine isChain_of_forall₂ hsigned ?_ hchain
      rintro p q s t ⟨⟨hp, hs⟩, hsign⟩ ⟨⟨hq, ht⟩, hsign'⟩ ⟨hlt, hopposite⟩
      exact hp.place_lt hS hq hincreasing hcrosses hs ht hlt hopposite hsign hsign'
        (mul_neg_of_signs hsign hsign' hopposite)
    have htrans : IsTrans (Peak κ) fun p q => value p.place < value q.place :=
      ⟨fun _ _ _ => lt_trans⟩
    exact List.isChain_iff_pairwise.mp hplaces

/-! ### The extrema of a fit -/

open BigFloat

variable {r : Request} {p : Problem} {coefficients : List BigFloat}

/-- The numbers of a working precision have **exact signs**. -/
theorem hasSigns_isRounded {bits : Nat} (hbits : 0 < bits) :
    (bigScalars bits).HasSigns (IsRounded bits) BigFloat.value where
  hasValues := hasValues_isRounded hbits
  neg_neg := neg_neg_bigScalars
  size_eq := by
    rintro _ ⟨d, rfl, hd⟩
    exact size_bigScalars hd
  value_injective := by
    rintro _ _ ⟨d, rfl, -⟩ ⟨d', rfl, -⟩ h
    exact congrArg BigFloat.finite (Dyadic.toRat_inj.mp h)

/-- The **errors on the grid** of a problem. -/
def Problem.sampledErrors (p : Problem) (coefficients : List BigFloat) : Array (Peak BigFloat) :=
  p.grid.map fun q => ⟨q.1, p.request.scalars.sub q.2
    (valueAt p.request.scalars p.degrees coefficients q.1)⟩

/-- A target that has a value has a **finite** one. -/
theorem Request.targetAt_settles_isFinite (r : Request) (x : BigFloat) :
    Settles (r.targetAt x) IsFinite fun _ => True := by
  rw [targetAt]
  split
  · exact .error trivial
  · split
    · exact .ok ⟨_, rfl⟩
    · exact .error trivial
    · split <;> exact .error trivial

/-- A problem that is posed is **sampled**. -/
theorem Request.isSampled_of_outcome {low high : Rat} (h : (r.problem low high).outcome = .ok p) :
    p.request = r ∧ p.IsSampled :=
  (Request.problem_ends_of_settles (fun x _ => r.targetAt_settles_isFinite x) low high #[]).ok
    (Prod.ext h rfl)

/-- A problem is **given up** when its target has no value at some place. -/
def Problem.LacksTarget (p : Problem) (f : Failure) : Prop :=
  ∃ x : BigFloat, x.IsRounded p.request.bits ∧ p.request.targetAt x = .error f

/-- **The error at a place** is a number of the working precision, unless the target has no value
there. -/
theorem Problem.errorAt_settles_isRounded (hc : ∀ c ∈ coefficients, c.IsFinite) (x : BigFloat)
    (hx : x.IsRounded p.request.bits) :
    Settles (p.errorAt coefficients x) (IsRounded p.request.bits) p.LacksTarget := by
  have htarget := p.request.targetAt_settles_isFinite x
  rw [errorAt]
  cases hvalue : p.request.targetAt x with
  | error f => exact .error ⟨x, hx, hvalue⟩
  | ok t =>
    rw [hvalue] at htarget
    exact .ok (isRounded_sub p.request.bits_pos htarget
      (p.request.hasValues.valueAt p.degrees hc hx.isFinite))

/-- The places of a sampled grid are **numbers of the working precision**, with the errors that are
computed there. -/
theorem Problem.sampledErrors_spec (hp : p.IsSampled) (hc : ∀ c ∈ coefficients, c.IsFinite)
    {q : Peak BigFloat} (hq : q ∈ (p.sampledErrors coefficients).toList) :
    q.HasNumbers (IsRounded p.request.bits) ∧ p.errorAt coefficients q.place = .ok q.error := by
  rw [sampledErrors, Array.toList_map, List.mem_map] at hq
  obtain ⟨q, hq, rfl⟩ := hq
  have hplace : q.1.IsRounded p.request.bits := by
    have hmem := List.mem_map_of_mem (f := Prod.fst) hq
    rw [hp.places] at hmem
    obtain ⟨k, -, hk⟩ := List.mem_map.mp hmem
    have hS := p.request.hasValues
    rw [← hk]
    exact isRounded_sub p.request.bits_pos (hS.div (hS.add hp.low hp.high) (hS.ofInt 2))
      (hS.mul (hS.div (hS.sub hp.high hp.low) (hS.ofInt 2)) (isFinite_cosineOfTurn _ _ _))
  exact ⟨⟨hplace, isRounded_sub p.request.bits_pos (hp.targets q hq).2
    (p.request.hasValues.valueAt p.degrees hc hplace.isFinite)⟩, errorAt_of_mem hp coefficients hq⟩

/-- **The extrema of a fit.** Unless the target has no value at some place, there is one extremum for
each run of one sign of the errors on the grid, in the same order. Its error is the one that is
computed at its place, is not zero, and has a magnitude of at least that of every error of the run.
It has the sign of the run, and so the extrema alternate, when the error leaps nowhere next to a kept
sample to a larger magnitude of the opposite sign. They come in strictly increasing order when
moreover the grid does, and the error crosses zero at most once between neighbouring grid points. -/
theorem Problem.extremaOf_runs (hdigits : 0 ≤ p.request.digits) (hp : p.IsSampled)
    (hc : ∀ c ∈ coefficients, c.IsFinite) :
    Settles (p.extremaOf coefficients) (fun peaks => ∃ runs,
      AreRuns BigFloat.value (samples (p.sampledErrors coefficients)) runs ∧
      List.Forall₂ (fun peak run => p.errorAt coefficients peak.place = .ok peak.error ∧
        peak.error.value ≠ 0 ∧ ∀ s ∈ run, |s.2.value| ≤ |peak.error.value|) peaks runs ∧
      (IsSpikeless p.request.scalars (IsRounded p.request.bits) BigFloat.value
          (p.errorAt coefficients) (p.sampledErrors coefficients) →
        List.Forall₂ (fun peak run => ∀ s ∈ run, 0 < peak.error.value * s.2.value) peaks runs ∧
        peaks.IsChain (fun q q' => q.error.value * q'.error.value < 0) ∧
        (IsIncreasing BigFloat.value (p.sampledErrors coefficients) →
          CrossesOnce (IsRounded p.request.bits) BigFloat.value (p.errorAt coefficients)
            (p.sampledErrors coefficients) →
          IsAlternation BigFloat.value peaks))) p.LacksTarget := by
  have hbits := Request.three_le_bits hdigits
  have hS : p.request.scalars.HasSigns (IsRounded p.request.bits) BigFloat.value :=
    hasSigns_isRounded p.request.bits_pos
  obtain ⟨hratio, hnonneg, hle⟩ := p.goldenRatio_spec hbits
  have hgrid := fun q hq => p.sampledErrors_spec (q := q) hp hc hq
  have hnumbers : ∀ s ∈ samples (p.sampledErrors coefficients), s.2.IsRounded p.request.bits := by
    intro s hs
    obtain ⟨q, hq, hqs⟩ := mem_samples_iff.mp hs
    exact hqs ▸ (hgrid q (Array.mem_toList_iff.mpr (Array.mem_of_getElem? hq))).1.error
  refine (extrema_standFor hS hratio (probesBetween_of_le hbits hratio hnonneg hle)
    (errorAt_settles_isRounded hc) hgrid).mono fun peaks hpeaks => ?_
  obtain ⟨runs, hruns, hkept⟩ := exists_runs hS.hasValues hnumbers
  have hnonzero := (signRuns_spec hS.hasValues hnumbers).1
  have hrunNumbers : ∀ run ∈ runs, ∀ s ∈ run, s.2.IsRounded p.request.bits := fun run hrun s hs =>
    hnumbers s (List.mem_filter.mp (hruns.flatten ▸ List.mem_flatten.mpr ⟨run, hrun, hs⟩)).1
  -- an extremum, the sample that it stands for, and the run of which that sample was kept
  have hstands := forall₂_and_mem (forall₂_comp hpeaks hkept)
  refine ⟨runs, hruns, hstands.imp ?_, fun hspikeless => ⟨hstands.imp ?_,
    isAlternation_of_standsFor hS hnumbers hpeaks hspikeless⟩⟩
  · rintro peak run ⟨⟨s, hs, hpeak, hmem, hlargest⟩, hrun⟩
    have hpos := abs_pos.mpr (hnonzero s hs)
    refine ⟨hpeak.computed, abs_pos.mp (hpos.trans_le hpeak.abs_le), fun t ht => ?_⟩
    have hle := hlargest t ht
    rw [hS.size_eq (hrunNumbers run hrun t ht), hS.size_eq (hrunNumbers run hrun s hmem)] at hle
    exact hle.trans hpeak.abs_le
  · rintro peak run ⟨⟨s, hs, hpeak, hmem, -⟩, hrun⟩ t ht
    have hsign : SameSign BigFloat.value (s.1, peak.error) s :=
      hpeak.sign_pos hspikeless hs (hnonzero s hs)
    exact hsign.trans ((hruns.oneSign run hrun).2 s hmem t ht)

/-! ### Extrema that do not alternate -/

/-- A step from one to minus one, with a spike that leaps to the other sign around the sample at
minus one half, where the step is two. -/
def spikeTarget : Expr :=
  let x : Expr := .node (.var "x" none) []
  let num (q : Rat) : Expr := .node (.constant (.ratio q)) []
  let distance (q : Rat) : Expr := .node .absolute [.node .addition [x, num q]]
  let below (e : Expr) (q : Rat) : Expr := .node (.comparison .less) [e, num q]
  .node .select [below (distance (1 / 2)) (1 / 1000), num 2,
    .node .select [below (distance (1 / 2)) (21 / 500),
      .node .subtraction [num (-10), distance (12 / 25)],
      .node .select [below x 0, num 1, num (-1)]]]

/-- The fit of the spike by a constant. -/
def spikeRequest : Request where
  target := .expr spikeTarget
  argument := "x"
  terms := 1
  low := .integer (-1)
  high := .integer 1
  parity := .none
  digits := 30

/-- Whether a problem is posed where the extrema for the coefficient zero are **two negative
errors**. -/
def findsTwoNegative : Except Failure Problem → Bool
  | .ok p =>
    match p.extremaOf [.zero] with
    | .ok [q, q'] => q.error.value < 0 ∧ q'.error.value < 0
    | _ => false
  | .error _ => false

theorem exists_of_findsTwoNegative {o : Except Failure Problem} (h : findsTwoNegative o = true) :
    ∃ p q q', o = .ok p ∧ p.extremaOf [.zero] = .ok [q, q'] ∧ q.error.value < 0 ∧
      q'.error.value < 0 := by
  cases o with
  | error f => cases h
  | ok p =>
    rw [findsTwoNegative] at h
    split at h
    · next q q' hextrema => exact ⟨p, q, q', rfl, hextrema, of_decide_eq_true h⟩
    · cases h

set_option maxRecDepth 100000 in
theorem findsTwoNegative_spikeRequest :
    findsTwoNegative (spikeRequest.problem (-1) 1).outcome = true := by
  decide +kernel

/-- **The spike is sampled**, and two negative errors are found. -/
theorem exists_extremaOf_spikeRequest :
    ∃ p q q', (spikeRequest.problem (-1) 1).outcome = .ok p ∧ p.request = spikeRequest ∧
      p.IsSampled ∧ p.extremaOf [.zero] = .ok [q, q'] ∧ q.error.value < 0 ∧ q'.error.value < 0 := by
  obtain ⟨p, q, q', houtcome, hextrema, hnegative⟩ :=
    exists_of_findsTwoNegative findsTwoNegative_spikeRequest
  obtain ⟨hrequest, hsampled⟩ := Request.isSampled_of_outcome houtcome
  exact ⟨p, q, q', houtcome, hrequest, hsampled, hextrema, hnegative⟩

/-- What is found of the spike has the computed errors, which are the largest of their runs. -/
theorem extremaOf_runs_spike :
    ∃ p peaks, (spikeRequest.problem (-1) 1).outcome = .ok p ∧ p.extremaOf [.zero] = .ok peaks ∧
      (0 ≤ p.request.digits ∧ p.IsSampled ∧ ∀ c ∈ [BigFloat.zero], c.IsFinite) ∧
      ∃ runs, AreRuns BigFloat.value (samples (p.sampledErrors [.zero])) runs ∧
        List.Forall₂ (fun peak run => p.errorAt [.zero] peak.place = .ok peak.error ∧
          peak.error.value ≠ 0 ∧ ∀ s ∈ run, |s.2.value| ≤ |peak.error.value|) peaks runs := by
  obtain ⟨p, q, q', houtcome, hrequest, hsampled, hextrema, -⟩ := exists_extremaOf_spikeRequest
  have hdigits : 0 ≤ p.request.digits := hrequest ▸ (by decide : 0 ≤ spikeRequest.digits)
  have hc : ∀ c ∈ [BigFloat.zero], c.IsFinite := fun c hc =>
    (List.mem_singleton.mp hc) ▸ isFinite_zero
  have hruns := Problem.extremaOf_runs hdigits hsampled hc
  rw [hextrema] at hruns
  obtain ⟨runs, hareRuns, hpeaks, -⟩ := hruns
  exact ⟨p, _, houtcome, hextrema, ⟨hdigits, hsampled, hc⟩, runs, hareRuns, hpeaks⟩

/-- **The extrema of the spike do not alternate**: both errors are negative. -/
theorem not_isAlternation_extremaOf :
    ∃ p peaks, (spikeRequest.problem (-1) 1).outcome = .ok p ∧ p.extremaOf [.zero] = .ok peaks ∧
      ¬IsAlternation BigFloat.value peaks := by
  obtain ⟨p, q, q', houtcome, -, -, hextrema, hq, hq'⟩ := exists_extremaOf_spikeRequest
  refine ⟨p, [q, q'], houtcome, hextrema, fun h => ?_⟩
  have hsigns : q.error.value * q'.error.value < 0 := (List.isChain_cons_cons.mp h.signs).1
  exact hsigns.not_gt (mul_pos_of_neg_of_neg hq hq')

end Elementary.Fit
