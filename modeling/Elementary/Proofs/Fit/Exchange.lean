import Elementary.Proofs.Fit.Extrema

/-!
# The extrema that an exchange keeps

An exchange gives up the ends of an alternation, one at a time, until as many extrema are left as
the next reference has points. What is kept is a part of the alternation without gaps, so that it
alternates too. Of the two ends it is never the larger one that is given up, so that an extremum
with the largest error stays.

## Main definitions

* `Fit.IsAlternation`: extrema of alternating signs at increasing places.

## Main results

* `Fit.trim_induction`: what one step of an exchange keeps, the whole exchange keeps.
* `Fit.isInfix_trim`, `Fit.length_trim`: which extrema are kept, and how many.
* `Fit.exists_largest_mem_trim`: an extremum with the largest error is kept.
* `Fit.isAlternation_trim`: what an exchange keeps of an alternation at a working precision.
-/

namespace Elementary.Fit

variable {κ : Type} {S : Scalars κ} {IsNumber : κ → Prop} {value : κ → Rat} {count : Nat}
  {peaks kept : List (Peak κ)} {p first last : Peak κ}

/-- An **alternation**: errors other than zero, each of the sign opposite to the one before it, at
strictly increasing places. -/
structure IsAlternation (value : κ → Rat) (peaks : List (Peak κ)) : Prop where
  nonzero : ∀ p ∈ peaks, value p.error ≠ 0
  signs : peaks.IsChain fun p q => value p.error * value q.error < 0
  places : peaks.Pairwise fun p q => value p.place < value q.place

/-- A part of an alternation without gaps alternates. -/
theorem IsAlternation.of_isInfix (h : IsAlternation value peaks) (hkept : kept <:+: peaks) :
    IsAlternation value kept where
  nonzero p hp := h.nonzero p (hkept.subset hp)
  signs := h.signs.infix hkept
  places := h.places.sublist hkept.sublist

/-! ### One step of an exchange -/

/-- **The first extremum is given up** when its error is smaller than that of the last. -/
theorem trim_eq_tail (hlt : count < peaks.length) (hfirst : peaks.head? = some first)
    (hlast : peaks.getLast? = some last) (h : S.lt (S.abs first.error) (S.abs last.error) = true) :
    trim S count peaks = trim S count peaks.tail := by
  rw [trim, dif_pos hlt, hfirst, hlast]
  simp only [h, if_true]

/-- **The last extremum is given up** when its error is not larger than that of the first. -/
theorem trim_eq_dropLast (hlt : count < peaks.length) (hfirst : peaks.head? = some first)
    (hlast : peaks.getLast? = some last) (h : S.lt (S.abs first.error) (S.abs last.error) = false) :
    trim S count peaks = trim S count peaks.dropLast := by
  rw [trim, dif_pos hlt, hfirst, hlast]
  simp only [h, Bool.false_eq_true, if_false]

/-- Extrema that are not too many are all kept. -/
theorem trim_eq_self (hle : peaks.length ≤ count) : trim S count peaks = peaks := by
  rw [trim, dif_neg hle.not_gt]

/-- **What one step of an exchange keeps, the whole exchange keeps**: the induction on the steps. -/
theorem trim_induction (S : Scalars κ) (count : Nat)
    {motive : List (Peak κ) → List (Peak κ) → Prop}
    (stop : ∀ peaks, peaks.length ≤ count → motive peaks peaks)
    (tail : ∀ peaks first last kept, count < peaks.length → peaks.head? = some first →
      peaks.getLast? = some last → S.lt (S.abs first.error) (S.abs last.error) = true →
      motive peaks.tail kept → motive peaks kept)
    (dropLast : ∀ peaks first last kept, count < peaks.length → peaks.head? = some first →
      peaks.getLast? = some last → S.lt (S.abs first.error) (S.abs last.error) = false →
      motive peaks.dropLast kept → motive peaks kept)
    (peaks : List (Peak κ)) : motive peaks (trim S count peaks) := by
  induction peaks using trim.induct S count with
  | case1 peaks hlt first last hlast hfirst hsmaller ih =>
    rw [trim_eq_tail hlt hfirst hlast hsmaller]
    exact tail peaks first last _ hlt hfirst hlast hsmaller ih
  | case2 peaks hlt first last hlast hfirst hsmaller ih =>
    rw [trim_eq_dropLast hlt hfirst hlast (Bool.not_eq_true _ ▸ hsmaller)]
    exact dropLast peaks first last _ hlt hfirst hlast (Bool.not_eq_true _ ▸ hsmaller) ih
  | case3 peaks hlt hends =>
    obtain ⟨p, ps, rfl⟩ := List.exists_cons_of_length_pos (by omega : 0 < peaks.length)
    exact (hends p _ rfl List.getLast?_cons).elim
  | case4 peaks hle =>
    rw [trim_eq_self (Nat.le_of_not_lt hle)]
    exact stop peaks (Nat.le_of_not_lt hle)

/-! ### The whole exchange -/

/-- **What is kept** is a part of the extrema without gaps. -/
theorem isInfix_trim (S : Scalars κ) (count : Nat) (peaks : List (Peak κ)) :
    trim S count peaks <:+: peaks := by
  induction peaks using trim_induction S count with
  | stop peaks hle => exact List.infix_rfl
  | tail peaks first last kept hlt hfirst hlast hsmaller ih =>
    exact ih.trans (List.tail_suffix peaks).isInfix
  | dropLast peaks first last kept hlt hfirst hlast hsmaller ih =>
    exact ih.trans (List.dropLast_prefix peaks).isInfix

/-- An exchange keeps some of the extrema. -/
theorem mem_of_mem_trim (hp : p ∈ trim S count peaks) : p ∈ peaks :=
  (isInfix_trim S count peaks).subset hp

/-- An exchange keeps **as many extrema as it needs**. -/
theorem length_trim (h : count ≤ peaks.length) : (trim S count peaks).length = count := by
  induction peaks using trim_induction S count with
  | stop peaks hle => exact hle.antisymm h
  | tail peaks first last kept hlt hfirst hlast hsmaller ih =>
    exact ih (by rw [List.length_tail]; omega)
  | dropLast peaks first last kept hlt hfirst hlast hsmaller ih =>
    exact ih (by rw [List.length_dropLast]; omega)

/-- Among some extrema there is one with the **largest error**. -/
theorem exists_largest (S : Scalars κ) (value : κ → Rat) (h : 0 < peaks.length) :
    ∃ p ∈ peaks, ∀ q ∈ peaks, S.size value q.error ≤ S.size value p.error := by
  have hsizes : 0 < (peaks.map fun p => S.size value p.error).length := by rwa [List.length_map]
  obtain ⟨p, hp, hsize⟩ := List.mem_map.mp (List.maximum_of_length_pos_mem hsizes)
  refine ⟨p, hp, fun q hq => hsize ▸ ?_⟩
  exact List.le_maximum_of_length_pos_of_mem (List.mem_map_of_mem hq) hsizes

/-- **An extremum with the largest error is kept**: whichever end is given up, the other one stays,
and it is at least as large. -/
theorem exists_largest_mem_trim (hS : S.HasValues IsNumber value) (hcount : 0 < count)
    (hpeaks : ∀ p ∈ peaks, IsNumber p.error) (h : count ≤ peaks.length) :
    ∃ p ∈ trim S count peaks, ∀ q ∈ peaks, S.size value q.error ≤ S.size value p.error := by
  induction peaks using trim_induction S count with
  | stop peaks hle => exact exists_largest S value (by omega)
  | tail peaks first last kept hlt hfirst hlast hsmaller ih =>
    obtain ⟨rest, rfl⟩ := List.head?_eq_some_iff.mp hfirst
    obtain ⟨hfirst, hrest⟩ := List.forall_mem_cons.mp hpeaks
    rw [List.length_cons] at hlt
    obtain ⟨p, hp, hlargest⟩ := ih hrest (by rw [List.tail_cons]; omega)
    have hstays : last ∈ rest := by
      rw [List.getLast?_cons_of_ne_nil (List.ne_nil_of_length_pos (by omega))] at hlast
      exact List.mem_of_getLast? hlast
    have hle := ((hS.lt_iff (hS.abs hfirst) (hS.abs (hrest last hstays))).mp hsmaller).le
    exact ⟨p, hp, List.forall_mem_cons.mpr ⟨hle.trans (hlargest last hstays), hlargest⟩⟩
  | dropLast peaks first last kept hlt hfirst hlast hsmaller ih =>
    obtain ⟨rest, rfl⟩ := List.getLast?_eq_some_iff.mp hlast
    obtain ⟨hrest, hlast⟩ := List.forall_mem_append.mp hpeaks
    rw [List.length_append, List.length_singleton] at hlt
    rw [List.dropLast_concat] at ih
    obtain ⟨p, hp, hlargest⟩ := ih hrest (by omega)
    have hstays : first ∈ rest := by
      rw [List.head?_append_of_ne_nil _ (List.ne_nil_of_length_pos (by omega))] at hfirst
      exact List.mem_of_mem_head? hfirst
    have hle := (hS.lt_eq_false (hS.abs (hrest first hstays))
      (hS.abs (hlast last List.mem_cons_self))).mp hsmaller
    refine ⟨p, hp, List.forall_mem_append.mpr ⟨hlargest, fun q hq => ?_⟩⟩
    obtain rfl := List.mem_singleton.mp hq
    exact hle.trans (hlargest first hstays)

open BigFloat

/-- **The exchange keeps an alternation with the largest error.** Of an alternation that is long
enough, an exchange keeps as many extrema as the next reference has points. They are a part of it
without gaps, hence an alternation, and among them there is one whose error has the largest
magnitude of all. At the working precision magnitudes are absolute values. -/
theorem isAlternation_trim (bits : Nat) {terms : Nat} {peaks : List (Peak BigFloat)}
    (hterms : 1 ≤ terms) (hnumbers : ∀ p ∈ peaks, p.HasNumbers IsFinite)
    (halternation : IsAlternation BigFloat.value peaks) (hcount : terms + 1 ≤ peaks.length) :
    (trim (bigScalars bits) (terms + 1) peaks).length = terms + 1 ∧
      trim (bigScalars bits) (terms + 1) peaks <:+: peaks ∧
      IsAlternation BigFloat.value (trim (bigScalars bits) (terms + 1) peaks) ∧
      ∃ largest ∈ trim (bigScalars bits) (terms + 1) peaks,
        (∀ p ∈ peaks, (bigScalars bits).size BigFloat.value p.error ≤
          (bigScalars bits).size BigFloat.value largest.error) ∧
        ((∀ p ∈ peaks, Fits bits p.error.value) →
          ∀ p ∈ peaks, |p.error.value| ≤ |largest.error.value|) := by
  have hinfix := isInfix_trim (bigScalars bits) (terms + 1) peaks
  obtain ⟨largest, hlargest, hle⟩ := exists_largest_mem_trim (hasValues_bigScalars bits)
    (Nat.lt_of_lt_of_le hterms (Nat.le_succ terms)) (fun p hp => (hnumbers p hp).error) hcount
  refine ⟨length_trim hcount, hinfix, halternation.of_isInfix hinfix, largest, hlargest, hle, ?_⟩
  intro hfits
  have hsize : ∀ p ∈ peaks, (bigScalars bits).size BigFloat.value p.error = |p.error.value| := by
    intro p hp
    obtain ⟨d, hd⟩ := (hnumbers p hp).error
    have hfit := hfits p hp
    rw [hd] at hfit ⊢
    exact size_bigScalars hfit
  intro p hp
  rw [← hsize p hp, ← hsize largest (mem_of_mem_trim hlargest)]
  exact hle p hp

/-- An alternation with its largest error at **both ends**. -/
def tiedAlternation : List (Peak BigFloat) :=
  [⟨.ofInt 0, .ofInt 3⟩, ⟨.ofInt 1, .ofInt (-1)⟩, ⟨.ofInt 2, .ofInt 2⟩, ⟨.ofInt 4, .ofInt (-3)⟩]

theorem hasNumbers_tiedAlternation : ∀ p ∈ tiedAlternation, p.HasNumbers IsFinite := by
  simp only [tiedAlternation, List.forall_mem_cons]
  exact ⟨⟨⟨_, rfl⟩, ⟨_, rfl⟩⟩, ⟨⟨_, rfl⟩, ⟨_, rfl⟩⟩, ⟨⟨_, rfl⟩, ⟨_, rfl⟩⟩, ⟨⟨_, rfl⟩, ⟨_, rfl⟩⟩, nofun⟩

theorem isAlternation_tiedAlternation : IsAlternation BigFloat.value tiedAlternation where
  nonzero := by decide +kernel
  signs := by decide +kernel
  places := by decide +kernel

theorem isAlternation_trim_tiedAlternation :
    (1 ≤ 1 ∧ (∀ p ∈ tiedAlternation, p.HasNumbers IsFinite) ∧
      IsAlternation BigFloat.value tiedAlternation ∧ 1 + 1 ≤ tiedAlternation.length) ∧
    (trim (bigScalars 53) (1 + 1) tiedAlternation).length = 1 + 1 ∧
      trim (bigScalars 53) (1 + 1) tiedAlternation <:+: tiedAlternation ∧
      IsAlternation BigFloat.value (trim (bigScalars 53) (1 + 1) tiedAlternation) ∧
      ∃ largest ∈ trim (bigScalars 53) (1 + 1) tiedAlternation,
        (∀ p ∈ tiedAlternation, (bigScalars 53).size BigFloat.value p.error ≤
          (bigScalars 53).size BigFloat.value largest.error) ∧
        ((∀ p ∈ tiedAlternation, Fits 53 p.error.value) →
          ∀ p ∈ tiedAlternation, |p.error.value| ≤ |largest.error.value|) :=
  ⟨⟨le_rfl, hasNumbers_tiedAlternation, isAlternation_tiedAlternation, by decide⟩,
    isAlternation_trim 53 le_rfl hasNumbers_tiedAlternation isAlternation_tiedAlternation
      (by decide)⟩

end Elementary.Fit
