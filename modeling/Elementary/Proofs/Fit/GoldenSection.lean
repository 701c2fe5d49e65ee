import Elementary.Fit.Extrema
import Elementary.Proofs.Computation
import Elementary.Proofs.Fit.Elimination

/-!
# What a golden-section search keeps

A step of a golden-section search gives up the end of the interval next to the lower probe, keeps
the higher probe and sets a new one. So the highest probe so far is always one of the two that the
search holds, whatever the error is: nothing is said here about the number of its maxima, and none
of the probes needs to lie left of the other. A new probe divides the interval between two places
of the search, and therefore all of them lie between the ends at which it began.

All this is in the exact arithmetic of an ordered field, with a new probe at any part of the
interval.

## Main definitions

* `Fit.heightOf`: the heights that a search compares.
* `Fit.Probes`: the places that a search probes.
* `Fit.Bracket.IsWithin`: a search all of whose places belong to a set.

## Main results

* `Fit.Bracket.best_le_of_step`, `Fit.Bracket.best_le_of_steps`: the best probe never gets lower.
* `Fit.refine_finds_highest`: a search finds the highest of its probes.
* `Fit.probes_iff`: a search probes the places at which it needs the error.
-/

namespace Elementary.Fit

variable {κ : Type} {S : Scalars κ} {ratio low high x : κ} {E : Failure → Prop}
  {height height' error error' : κ → Except Failure κ} {P : κ → Prop} {b b' : Bracket κ}
  {peak : Peak κ} {count n : Nat} {positive : Bool}

/-! ### Places that are probed -/

/-- The **height of a place**: the error there, negated unless the sign is positive. -/
def heightOf (S : Scalars κ) (error : κ → Except Failure κ) (positive : Bool) (x : κ) :
    Except Failure κ := do
  return S.signed positive (← error x)

theorem heightOf_eq_ok {h : κ} : heightOf S error positive x = .ok h ↔
    ∃ e, error x = .ok e ∧ S.signed positive e = h := by
  rw [heightOf, bind_eq_ok]
  exact exists_congr fun e => and_congr_right fun _ => ⟨Except.ok.inj, congrArg Except.ok⟩

theorem heightOf_eq_error {f : Failure} (h : heightOf S error positive x = .error f) :
    error x = .error f := by
  rcases bind_eq_error.mp h with h | ⟨e, -, h⟩
  · exact h
  · cases h

/-- A search **probes a place** when it is one of the two probes that the search holds at its
beginning or after some of its steps. -/
def Probes (S : Scalars κ) (ratio : κ) (count : Nat) (error : κ → Except Failure κ)
    (positive : Bool) (low high x : κ) : Prop :=
  ∃ first b n, Bracket.start S ratio (heightOf S error positive) low high = .ok first ∧
    n ≤ count ∧ first.steps S ratio (heightOf S error positive) n = .ok b ∧
      (x = b.left.place ∨ x = b.right.place)

/-- **What a search finds** is the better one of its last probes. -/
theorem refine_eq_ok :
    refine S ratio count error positive low high = .ok peak ↔
      ∃ first last, Bracket.start S ratio (heightOf S error positive) low high = .ok first ∧
        first.steps S ratio (heightOf S error positive) count = .ok last ∧
          peak = { last.best S with error := S.signed positive (last.best S).error } := by
  change (do
    let first ← Bracket.start S ratio (heightOf S error positive) low high
    let last ← first.steps S ratio (heightOf S error positive) count
    return { last.best S with error := S.signed positive (last.best S).error }) = _ ↔ _
  simp only [bind_eq_ok]
  constructor
  · rintro ⟨first, hfirst, last, hlast, hpeak⟩
    exact ⟨first, last, hfirst, hlast, (Except.ok.inj hpeak).symm⟩
  · rintro ⟨first, last, hfirst, hlast, rfl⟩
    exact ⟨first, hfirst, last, hlast, rfl⟩

namespace Bracket

/-- **What a step can do**: it keeps the higher probe, and sets a new one between the end that is
kept and the lower probe. -/
theorem step_eq_ok : b.step S ratio height = .ok b' ↔
    (S.lt b.right.error b.left.error = true ∧
      ∃ e, height (lowProbe S ratio b.low b.right.place) = .ok e ∧
        b' = ⟨b.low, b.right.place, ⟨lowProbe S ratio b.low b.right.place, e⟩, b.left⟩) ∨
    (S.lt b.right.error b.left.error = false ∧
      ∃ e, height (highProbe S ratio b.left.place b.high) = .ok e ∧
        b' = ⟨b.left.place, b.high, b.right, ⟨highProbe S ratio b.left.place b.high, e⟩⟩) := by
  rw [step]
  constructor
  · intro h
    split at h
    · next hlt =>
      obtain ⟨e, he, hb'⟩ := bind_eq_ok.mp h
      exact .inl ⟨hlt, e, he, (Except.ok.inj hb').symm⟩
    · next hlt =>
      obtain ⟨e, he, hb'⟩ := bind_eq_ok.mp h
      exact .inr ⟨Bool.not_eq_true _ ▸ hlt, e, he, (Except.ok.inj hb').symm⟩
  · rintro (⟨hlt, e, he, rfl⟩ | ⟨hlt, e, he, rfl⟩)
    · rw [if_pos hlt]
      exact bind_eq_ok.mpr ⟨e, he, rfl⟩
    · rw [if_neg (Bool.eq_false_iff.mp hlt)]
      exact bind_eq_ok.mpr ⟨e, he, rfl⟩

/-- Steps are made **one part after the other**. -/
theorem steps_add (S : Scalars κ) (ratio : κ) (height : κ → Except Failure κ) (m n : Nat)
    (b : Bracket κ) :
    b.steps S ratio height (m + n) = b.steps S ratio height m >>= steps S ratio height n := by
  induction m generalizing b with
  | zero =>
    rw [Nat.zero_add]
    rfl
  | succ m ih =>
    rw [Nat.succ_add, steps, steps, bind_assoc]
    exact bind_congr ih

/-- A search that has made its steps **has made fewer of them** before. -/
theorem exists_of_le (h : b.steps S ratio height count = .ok b') (hn : n ≤ count) :
    ∃ b₁, b.steps S ratio height n = .ok b₁ ∧ b₁.steps S ratio height (count - n) = .ok b' := by
  rw [← Nat.add_sub_of_le hn, steps_add] at h
  simpa only [Nat.add_sub_cancel_left] using bind_eq_ok.mp h

/-! ### Searches within a set -/

/-- A search **within a set of places**: its ends and its probes belong to the set, and the heights
of the probes are those that are computed there. -/
structure IsWithin (P : κ → Prop) (height : κ → Except Failure κ) (b : Bracket κ) : Prop where
  low : P b.low
  high : P b.high
  left : P b.left.place ∧ height b.left.place = .ok b.left.error
  right : P b.right.place ∧ height b.right.place = .ok b.right.error

/-- The better probe is **one of the two**. -/
theorem IsWithin.best (hb : b.IsWithin P height) (S : Scalars κ) :
    P (b.best S).place ∧ height (b.best S).place = .ok (b.best S).error := by
  rw [Bracket.best]
  split
  · exact hb.left
  · exact hb.right

section

variable (hprobes : ∀ x y, P x → P y → P (lowProbe S ratio x y) ∧ P (highProbe S ratio x y))
  (hfails : ∀ x, P x → ∀ f, height x = .error f → E f)

include hfails in
/-- **The height of a place** is computed, or fails. -/
theorem height_settles (hx : P x) :
    Settles (height x) (fun e => P x ∧ height x = .ok e) E := by
  cases h : height x with
  | ok e => exact .ok ⟨hx, rfl⟩
  | error f => exact .error (hfails x hx f h)

include hprobes hfails

/-- A search **begins** within every set that contains its ends and what divides them. -/
theorem start_within (hlow : P low) (hhigh : P high) :
    Settles (start S ratio height low high) (IsWithin P height) E := by
  obtain ⟨hc, hd⟩ := hprobes low high hlow hhigh
  exact (height_settles hfails hc).bind fun left hleft =>
    (height_settles hfails hd).bind fun right hright => .ok ⟨hlow, hhigh, hleft, hright⟩

/-- **A step** stays within the set. -/
theorem step_within (hb : b.IsWithin P height) :
    Settles (b.step S ratio height) (IsWithin P height) E := by
  rw [step]
  split
  · have hc := (hprobes _ _ hb.low hb.right.1).1
    exact (height_settles hfails hc).bind fun e he => .ok ⟨hb.low, hb.right.1, he, hb.left⟩
  · have hd := (hprobes _ _ hb.left.1 hb.high).2
    exact (height_settles hfails hd).bind fun e he => .ok ⟨hb.left.1, hb.high, hb.right, he⟩

/-- **All steps** stay within the set. -/
theorem steps_within (n : Nat) (hb : b.IsWithin P height) :
    Settles (b.steps S ratio height n) (IsWithin P height) E := by
  induction n generalizing b with
  | zero => exact .ok hb
  | succ n ih => exact (step_within hprobes hfails hb).bind fun b hb => ih hb

end

/-! ### The best probe -/

section

variable {K : Type} [Field K] [LinearOrder K] {ratio : K} {height : K → Except Failure K}
  {b b' : Bracket K}

/-- The better probe is **as high as both**. -/
theorem le_best (b : Bracket K) : b.left.error ≤ (b.best (fieldScalars K)).error ∧
    b.right.error ≤ (b.best (fieldScalars K)).error := by
  rw [best]
  split
  · next h => exact ⟨le_rfl, (fieldScalars_lt.mp h).le⟩
  · next h => exact ⟨not_lt.mp (mt fieldScalars_lt.mpr h), le_rfl⟩

/-- **A step never loses the better probe**: it is one of the two that are held next. -/
theorem best_le_of_step (h : b.step (fieldScalars K) ratio height = .ok b') :
    (b.best (fieldScalars K)).error ≤ (b'.best (fieldScalars K)).error := by
  rcases step_eq_ok.mp h with ⟨hlt, e, -, hb'⟩ | ⟨hlt, e, -, hb'⟩
  · have hkept : b'.right = b.left := by rw [hb']
    rw [best, if_pos hlt, ← hkept]
    exact b'.le_best.2
  · have hkept : b'.left = b.right := by rw [hb']
    rw [best, if_neg (Bool.eq_false_iff.mp hlt), ← hkept]
    exact b'.le_best.1

/-- **The best probe never gets lower**. -/
theorem best_le_of_steps (h : b.steps (fieldScalars K) ratio height n = .ok b') :
    (b.best (fieldScalars K)).error ≤ (b'.best (fieldScalars K)).error := by
  induction n generalizing b with
  | zero =>
    obtain rfl : b = b' := Except.ok.inj h
    exact le_rfl
  | succ n ih =>
    obtain ⟨b₁, hstep, hsteps⟩ := bind_eq_ok.mp h
    exact (best_le_of_step hstep).trans (ih hsteps)

end

end Bracket

/-! ### What a search finds -/

section

variable {K : Type} [Field K] [LinearOrder K] [IsStrictOrderedRing K] {ratio low high x y : K}

/-- **A probe divides** an interval, so that it lies between its ends. -/
theorem probes_mem (hratio : 0 ≤ ratio) (hratio' : ratio ≤ 1) (hx : x ∈ Set.Icc low high)
    (hy : y ∈ Set.Icc low high) :
    Bracket.lowProbe (fieldScalars K) ratio x y ∈ Set.Icc low high ∧
      Bracket.highProbe (fieldScalars K) ratio x y ∈ Set.Icc low high := by
  have hrest := sub_nonneg.mpr hratio'
  -- a part of one bound and the rest of the other
  have hpart : ∀ {r s : K}, r ∈ Set.Icc low high → s ∈ Set.Icc low high →
      ratio * r + (1 - ratio) * s ∈ Set.Icc low high := fun {r s} hr hs => by
    constructor
    · linarith only [mul_le_mul_of_nonneg_left hr.1 hratio, mul_le_mul_of_nonneg_left hs.1 hrest]
    · linarith only [mul_le_mul_of_nonneg_left hr.2 hratio, mul_le_mul_of_nonneg_left hs.2 hrest]
  have hlow : Bracket.lowProbe (fieldScalars K) ratio x y = ratio * x + (1 - ratio) * y := by
    change y - ratio * (y - x) = _
    ring
  have hhigh : Bracket.highProbe (fieldScalars K) ratio x y = ratio * y + (1 - ratio) * x := by
    change x + ratio * (y - x) = _
    ring
  exact ⟨hlow ▸ hpart hx hy, hhigh ▸ hpart hy hx⟩

omit [IsStrictOrderedRing K] in
/-- The sign of a height is **taken back**. -/
theorem fieldScalars_signed_signed (positive : Bool) (x : K) :
    (fieldScalars K).signed positive ((fieldScalars K).signed positive x) = x := by
  cases positive with
  | true => rfl
  | false => exact neg_neg x

/-- **A golden-section search finds the highest of its probes.** Whatever the error is, however many
steps are made, and at whatever part of an interval its probes are set, what is found lies between
the ends, carries the error that is computed there, and is at least as high as every place that was
probed. A search fails only where the error between the ends does. -/
theorem refine_finds_highest (hratio : 0 ≤ ratio) (hratio' : ratio ≤ 1) (hle : low ≤ high)
    (error : K → Except Failure K) (positive : Bool) (count : Nat) :
    Settles (refine (fieldScalars K) ratio count error positive low high)
      (fun peak => peak.place ∈ Set.Icc low high ∧ error peak.place = .ok peak.error ∧
        ∀ x, Probes (fieldScalars K) ratio count error positive low high x →
          ∃ e, error x = .ok e ∧
            (fieldScalars K).signed positive e ≤ (fieldScalars K).signed positive peak.error)
      (fun f => ∃ x ∈ Set.Icc low high, error x = .error f) := by
  have hprobes (x y : K) (hx : x ∈ Set.Icc low high) (hy : y ∈ Set.Icc low high) :=
    probes_mem hratio hratio' hx hy
  have hfails (x : K) (hx : x ∈ Set.Icc low high) (f : Failure)
      (hf : heightOf (fieldScalars K) error positive x = .error f) :
      ∃ x ∈ Set.Icc low high, error x = .error f :=
    ⟨x, hx, heightOf_eq_error hf⟩
  have hstart := Bracket.start_within hprobes hfails (Set.left_mem_Icc.mpr hle)
    (Set.right_mem_Icc.mpr hle)
  refine hstart.and_eq.bind fun first ⟨hfirst, hwithin⟩ => ?_
  refine (Bracket.steps_within hprobes hfails count hwithin).and_eq.bind
    fun last ⟨hlast, hlastWithin⟩ => .ok ?_
  obtain ⟨hplace, hheight⟩ := hlastWithin.best (fieldScalars K)
  obtain ⟨e, he, hsigned⟩ := heightOf_eq_ok.mp hheight
  rw [← hsigned, fieldScalars_signed_signed, hsigned]
  refine ⟨hplace, he, ?_⟩
  rintro x ⟨first', b, n, hfirst', hn, hb, hx⟩
  obtain rfl : first = first' := Except.ok.inj (hfirst.symm.trans hfirst')
  have hbWithin : b.IsWithin (· ∈ Set.Icc low high) (heightOf (fieldScalars K) error positive) := by
    have := Bracket.steps_within hprobes hfails n hwithin
    rwa [hb] at this
  -- the best probe of then is not above the last one
  obtain ⟨b', hb', hlater⟩ := Bracket.exists_of_le hlast hn
  obtain rfl : b = b' := Except.ok.inj (hb.symm.trans hb')
  have hle := Bracket.best_le_of_steps hlater
  rcases hx with rfl | rfl
  · obtain ⟨e', he', hsigned'⟩ := heightOf_eq_ok.mp hbWithin.left.2
    exact ⟨e', he', hsigned' ▸ b.le_best.1.trans hle⟩
  · obtain ⟨e', he', hsigned'⟩ := heightOf_eq_ok.mp hbWithin.right.2
    exact ⟨e', he', hsigned' ▸ b.le_best.2.trans hle⟩

/-- An error with three maxima between minus one and one. -/
def threeMaxima (x : Rat) : Except Failure Rat := .ok |(|x| - 1 / 2)|

/-- Four steps with probes a little beyond the middle, in which the two probes change sides: the
place that was probed second remains the best one. -/
theorem refine_finds_highest_threeMaxima :
    (0 ≤ (11 / 20 : Rat) ∧ (11 / 20 : Rat) ≤ 1 ∧ (-1 : Rat) ≤ 1) ∧
      refine (fieldScalars Rat) (11 / 20) 4 threeMaxima true (-1) 1 = .ok ⟨1 / 10, 2 / 5⟩ ∧
      ∀ x, Probes (fieldScalars Rat) (11 / 20) 4 threeMaxima true (-1) 1 x →
        ∃ e, threeMaxima x = .ok e ∧ e ≤ 2 / 5 := by
  have hbounds : 0 ≤ (11 / 20 : Rat) ∧ (11 / 20 : Rat) ≤ 1 ∧ (-1 : Rat) ≤ 1 := by norm_num
  have hhighest := refine_finds_highest hbounds.1 hbounds.2.1 hbounds.2.2 threeMaxima true 4
  have hfound : refine (fieldScalars Rat) (11 / 20) 4 threeMaxima true (-1) 1 =
      .ok ⟨1 / 10, 2 / 5⟩ := by
    decide +kernel
  rw [hfound] at hhighest
  exact ⟨hbounds, hfound, hhighest.2.2⟩

end

/-! ### Where a search needs the error -/

/-- A search **begins** with its two probes. -/
theorem Bracket.start_eq_ok : Bracket.start S ratio height low high = .ok b ↔
    ∃ l r, height (lowProbe S ratio low high) = .ok l ∧
      height (highProbe S ratio low high) = .ok r ∧
        b = ⟨low, high, ⟨lowProbe S ratio low high, l⟩, ⟨highProbe S ratio low high, r⟩⟩ := by
  simp only [start, bind_eq_ok]
  constructor
  · rintro ⟨l, hl, r, hr, hb⟩
    exact ⟨l, r, hl, hr, (Except.ok.inj hb).symm⟩
  · rintro ⟨l, r, hl, hr, rfl⟩
    exact ⟨l, hl, r, hr, rfl⟩

/-- Steps are the same for heights that are **the same at every probe**. -/
theorem Bracket.steps_congr (h : b.steps S ratio height n = .ok b')
    (hsame : ∀ m b₁, m ≤ n → b.steps S ratio height m = .ok b₁ →
      height' b₁.left.place = height b₁.left.place ∧
        height' b₁.right.place = height b₁.right.place) :
    b.steps S ratio height' n = .ok b' := by
  induction n generalizing b with
  | zero => exact h
  | succ n ih =>
    obtain ⟨b₁, hstep, hsteps⟩ := bind_eq_ok.mp h
    have hafter : ∀ m, b.steps S ratio height (m + 1) = b₁.steps S ratio height m := fun m => by
      rw [steps, hstep]
      rfl
    obtain ⟨hleft, hright⟩ := hsame 1 b₁ (Nat.succ_le_succ n.zero_le) (hafter 0)
    have hstep' : b.step S ratio height' = .ok b₁ := by
      rcases step_eq_ok.mp hstep with ⟨hlt, e, he, rfl⟩ | ⟨hlt, e, he, rfl⟩
      · exact step_eq_ok.mpr (.inl ⟨hlt, e, hleft.trans he, rfl⟩)
      · exact step_eq_ok.mpr (.inr ⟨hlt, e, hright.trans he, rfl⟩)
    rw [steps, hstep']
    refine ih hsteps fun m b₂ hm hb₂ => hsame (m + 1) b₂ (Nat.succ_le_succ hm) ?_
    rw [hafter, hb₂]

/-- **What is probed** can be computed. -/
theorem Probes.exists_error (h : Probes S ratio count error positive low high x) :
    ∃ e, error x = .ok e := by
  obtain ⟨first, b, n, hfirst, -, hb, hx⟩ := h
  have hprobes : ∀ x y : κ, True → True → True ∧ True := fun _ _ _ _ => ⟨trivial, trivial⟩
  have hfails : ∀ x, True → ∀ f, heightOf S error positive x = .error f → True :=
    fun _ _ _ _ => trivial
  have hstart : Settles (Bracket.start S ratio (heightOf S error positive) low high)
      (Bracket.IsWithin (fun _ => True) (heightOf S error positive)) fun _ => True :=
    Bracket.start_within hprobes hfails trivial trivial
  rw [hfirst] at hstart
  have hwithin : Settles (first.steps S ratio (heightOf S error positive) n)
      (Bracket.IsWithin (fun _ => True) (heightOf S error positive)) fun _ => True :=
    Bracket.steps_within hprobes hfails n hstart
  rw [hb] at hwithin
  rcases hx with rfl | rfl
  · exact (heightOf_eq_ok.mp hwithin.left.2).imp fun e he => he.1
  · exact (heightOf_eq_ok.mp hwithin.right.2).imp fun e he => he.1

/-- **A search depends on the error only where it probes**: it finds the same with another one that
is the same there, and probes the same places. -/
theorem refine_congr (hfound : refine S ratio count error positive low high = .ok peak)
    (hsame : ∀ x, Probes S ratio count error positive low high x → error' x = error x) :
    refine S ratio count error' positive low high = .ok peak ∧
      ∀ x, Probes S ratio count error' positive low high x ↔
        Probes S ratio count error positive low high x := by
  obtain ⟨first, last, hfirst, hlast, hpeak⟩ := refine_eq_ok.mp hfound
  have hheight : ∀ n b, n ≤ count →
      first.steps S ratio (heightOf S error positive) n = .ok b →
        heightOf S error' positive b.left.place = heightOf S error positive b.left.place ∧
          heightOf S error' positive b.right.place = heightOf S error positive b.right.place :=
    fun n b hn hb => by
      simp only [heightOf, hsame _ ⟨first, b, n, hfirst, hn, hb, .inl rfl⟩,
        hsame _ ⟨first, b, n, hfirst, hn, hb, .inr rfl⟩, and_self]
  have hfirst' : Bracket.start S ratio (heightOf S error' positive) low high = .ok first := by
    obtain ⟨hleft, hright⟩ := hheight 0 first count.zero_le rfl
    obtain ⟨l, r, hl, hr, rfl⟩ := Bracket.start_eq_ok.mp hfirst
    exact Bracket.start_eq_ok.mpr ⟨l, r, hleft.trans hl, hright.trans hr, rfl⟩
  have hsteps : ∀ n b, n ≤ count → first.steps S ratio (heightOf S error positive) n = .ok b →
      first.steps S ratio (heightOf S error' positive) n = .ok b := fun n b hn hb =>
    Bracket.steps_congr hb fun m b₁ hm => hheight m b₁ (hm.trans hn)
  refine ⟨refine_eq_ok.mpr ⟨first, last, hfirst', hsteps count last le_rfl hlast, hpeak⟩,
    fun x => ⟨?_, ?_⟩⟩
  · rintro ⟨first', b, n, hfirst'', hn, hb, hx⟩
    obtain rfl : first = first' := Except.ok.inj (hfirst'.symm.trans hfirst'')
    obtain ⟨b₁, hb₁, -⟩ := Bracket.exists_of_le hlast hn
    obtain rfl : b₁ = b := Except.ok.inj ((hsteps n b₁ hn hb₁).symm.trans hb)
    exact ⟨first, b₁, n, hfirst, hn, hb₁, hx⟩
  · rintro ⟨first', b, n, hfirst'', hn, hb, hx⟩
    obtain rfl : first = first' := Except.ok.inj (hfirst.symm.trans hfirst'')
    exact ⟨first, b, n, hfirst', hn, hsteps n b hn hb, hx⟩

/-- **A search probes the places at which it needs the error**: where the error fails, the search
finds nothing any more. -/
theorem probes_iff [DecidableEq κ]
    (hfound : refine S ratio count error positive low high = .ok peak) (f : Failure) :
    Probes S ratio count error positive low high x ↔
      ∀ found, refine S ratio count (Function.update error x (.error f)) positive low high ≠
        .ok found := by
  constructor
  · intro hx found hfound'
    have hsame : ∀ y,
        Probes S ratio count (Function.update error x (.error f)) positive low high y →
          error y = Function.update error x (.error f) y := fun y hy => by
      obtain ⟨e, he⟩ := hy.exists_error
      have hne : y ≠ x := by
        rintro rfl
        rw [Function.update_self] at he
        cases he
      rw [Function.update_of_ne hne]
    obtain ⟨e, he⟩ := (((refine_congr hfound' hsame).2 x).mp hx).exists_error
    rw [Function.update_self] at he
    cases he
  · intro hnothing
    by_contra hx
    refine hnothing peak (refine_congr hfound fun y hy => ?_).1
    have hne : y ≠ x := by
      rintro rfl
      exact hx hy
    exact Function.update_of_ne hne _ _

end Elementary.Fit
