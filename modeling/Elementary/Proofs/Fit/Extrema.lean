import Elementary.Fit.Extrema
import Elementary.Proofs.Computation
import Elementary.Proofs.Fit.Scalars

/-!
# No sample exceeds the extrema

Of each run of one sign one sample is kept, and it may give way to a place between the grid points.
Zeros belong to no run, a sample of a run is no larger than the one that is kept, and what takes
the place of a sample is larger. So every sample of the grid that is not zero is at most some
extremum.

## Main results

* `Fit.exists_mem_signRuns`: no sample exceeds the kept one of its run.
* `Fit.refine_settles`: what a golden-section search finds.
* `Fit.extrema_settles`: no sample of a grid exceeds the extrema.
-/

namespace Elementary.Fit

variable {κ : Type} {S : Scalars κ} {IsNumber : κ → Prop} {value : κ → Rat}
  {ratio : κ} {error : κ → Except Failure κ} {E : Failure → Prop}

/-- A place and an error that are **numbers**. -/
structure Peak.HasNumbers (IsNumber : κ → Prop) (p : Peak κ) : Prop where
  place : IsNumber p.place
  error : IsNumber p.error

/-- A search between **numbers**. -/
structure Bracket.HasNumbers (IsNumber : κ → Prop) (b : Bracket κ) : Prop where
  low : IsNumber b.low
  high : IsNumber b.high
  left : b.left.HasNumbers IsNumber
  right : b.right.HasNumbers IsNumber

/-! ### Runs of one sign -/

/-- What is kept of the runs are samples. -/
theorem mem_of_mem_signRuns {ps : List (Nat × κ)} {q : Nat × κ} (hq : q ∈ signRuns S ps) :
    q ∈ ps := by
  induction ps with
  | nil => exact hq
  | cons p ps ih =>
    rw [signRuns] at hq
    split at hq
    · exact List.mem_cons_of_mem p (ih hq)
    · generalize signRuns S ps = runs at hq ih
      cases runs with
      | nil => exact List.mem_singleton.mp hq ▸ List.mem_cons_self
      | cons r rs =>
        simp only at hq
        split at hq
        · exact (List.mem_cons.mp hq).elim (· ▸ List.mem_cons_self)
            fun h => List.mem_cons_of_mem p (ih h)
        · split at hq
          · exact List.mem_cons_of_mem p (ih hq)
          · exact (List.mem_cons.mp hq).elim (· ▸ List.mem_cons_self)
              fun h => List.mem_cons_of_mem p (ih (List.mem_cons_of_mem r h))

section

variable (hS : S.HasValues IsNumber value)

include hS

/-- A number that is neither above nor below zero is zero. -/
theorem value_eq_zero {x : κ} (hx : IsNumber x)
    (h : (!S.lt S.zero x && !S.lt x S.zero) = true) : value x = 0 := by
  rw [Bool.and_eq_true, Bool.not_eq_true', Bool.not_eq_true', hS.lt_eq_false hS.zero hx,
    hS.lt_eq_false hx hS.zero, hS.value_zero] at h
  exact le_antisymm h.1 h.2

/-- **No sample exceeds the kept one of its run**; a sample that is zero belongs to none. -/
theorem exists_mem_signRuns {ps : List (Nat × κ)} (hps : ∀ p ∈ ps, IsNumber p.2) :
    ∀ p ∈ ps, value p.2 = 0 ∨ ∃ q ∈ signRuns S ps, S.size value p.2 ≤ S.size value q.2 := by
  induction ps with
  | nil => exact nofun
  | cons p ps ih =>
    obtain ⟨hp, hps⟩ := List.forall_mem_cons.mp hps
    have hsub : ∀ q ∈ signRuns S ps, IsNumber q.2 := fun q hq => hps q (mem_of_mem_signRuns hq)
    replace ih := ih hps
    rw [signRuns]
    split
    · next hzero => exact List.forall_mem_cons.mpr ⟨.inl (value_eq_zero hS hp hzero), ih⟩
    · generalize signRuns S ps = runs at ih hsub
      cases runs with
      | nil =>
        refine List.forall_mem_cons.mpr ⟨.inr ⟨p, List.mem_cons_self, le_rfl⟩, fun a ha => ?_⟩
        exact (ih a ha).imp_right fun ⟨q, hq, _⟩ => absurd hq List.not_mem_nil
      | cons r rs =>
        have hr : IsNumber r.2 := hsub r List.mem_cons_self
        simp only
        split
        · -- a run of its own is added in front
          refine List.forall_mem_cons.mpr ⟨.inr ⟨p, List.mem_cons_self, le_rfl⟩, fun a ha => ?_⟩
          exact (ih a ha).imp_right fun ⟨q, hq, hle⟩ => ⟨q, List.mem_cons_of_mem p hq, hle⟩
        · split
          · next hlt =>
            have hle := ((hS.lt_iff (hS.abs hp) (hS.abs hr)).mp hlt).le
            exact List.forall_mem_cons.mpr ⟨.inr ⟨r, List.mem_cons_self, hle⟩, ih⟩
          · next hlt =>
            have hle := (hS.lt_eq_false (hS.abs hp) (hS.abs hr)).mp (Bool.not_eq_true _ ▸ hlt)
            refine List.forall_mem_cons.mpr ⟨.inr ⟨p, List.mem_cons_self, le_rfl⟩, fun a ha => ?_⟩
            -- what the former kept sample bounds, the new one bounds too
            refine (ih a ha).imp_right fun ⟨q, hq, haq⟩ => ?_
            rcases List.mem_cons.mp hq with rfl | hq
            · exact ⟨p, List.mem_cons_self, haq.trans hle⟩
            · exact ⟨q, List.mem_cons_of_mem p hq, haq⟩

/-! ### Golden-section search -/

variable (hratio : IsNumber ratio) (herror : ∀ x, IsNumber x → Settles (error x) IsNumber E)

include hratio in
theorem isNumber_probes {low high : κ} (hlow : IsNumber low) (hhigh : IsNumber high) :
    IsNumber (Bracket.lowProbe S ratio low high) ∧
      IsNumber (Bracket.highProbe S ratio low high) := by
  have hpart := hS.mul hratio (hS.sub hhigh hlow)
  exact ⟨hS.sub hhigh hpart, hS.add hlow hpart⟩

include hratio herror

theorem start_settles {low high : κ} (hlow : IsNumber low) (hhigh : IsNumber high) :
    Settles (Bracket.start S ratio error low high) (Bracket.HasNumbers IsNumber) E := by
  obtain ⟨hc, hd⟩ := isNumber_probes hS hratio hlow hhigh
  refine (herror _ hc).bind fun left hleft => (herror _ hd).bind fun right hright => ?_
  exact .ok ⟨hlow, hhigh, ⟨hc, hleft⟩, ⟨hd, hright⟩⟩

/-- **A step of a search** keeps to numbers. -/
theorem step_settles {b : Bracket κ} (hb : b.HasNumbers IsNumber) :
    Settles (b.step S ratio error) (Bracket.HasNumbers IsNumber) E := by
  rw [Bracket.step]
  split
  · have hc := (isNumber_probes hS hratio hb.low hb.right.place).1
    exact (herror _ hc).bind fun e he => .ok ⟨hb.low, hb.right.place, ⟨hc, he⟩, hb.left⟩
  · have hd := (isNumber_probes hS hratio hb.left.place hb.high).2
    exact (herror _ hd).bind fun e he => .ok ⟨hb.left.place, hb.high, hb.right, ⟨hd, he⟩⟩

theorem steps_settles (count : Nat) {b : Bracket κ} (hb : b.HasNumbers IsNumber) :
    Settles (b.steps S ratio error count) (Bracket.HasNumbers IsNumber) E := by
  induction count generalizing b with
  | zero => exact .ok hb
  | succ count ih => exact (step_settles hS hratio herror hb).bind fun b hb => ih hb

/-- **A golden-section search** between numbers finds numbers, unless the error cannot be
computed. -/
theorem refine_settles (count : Nat) (positive : Bool) {low high : κ} (hlow : IsNumber low)
    (hhigh : IsNumber high) :
    Settles (refine S ratio count error positive low high) (Peak.HasNumbers IsNumber) E := by
  have hheight : ∀ x, IsNumber x →
      Settles (do return S.signed positive (← error x)) IsNumber E := fun x hx =>
    (herror x hx).bind fun e he => .ok (hS.signed positive he)
  refine (start_settles hS hratio hheight hlow hhigh).bind fun first hfirst => ?_
  refine (steps_settles hS hratio hheight count hfirst).bind fun last hlast => ?_
  have hbest : (last.best S).HasNumbers IsNumber := by
    rw [Bracket.best]
    split
    · exact hlast.left
    · exact hlast.right
  exact .ok ⟨hbest.place, hS.signed positive hbest.error⟩

/-! ### The extrema -/

/-- A sample **gives way** only to a place where the error is at least as large. -/
def GivesWay (S : Scalars κ) (IsNumber : κ → Prop) (value : κ → Rat) (s : Nat × κ)
    (o : Option (Peak κ)) : Prop :=
  ∃ peak, o = some peak ∧ peak.HasNumbers IsNumber ∧ S.size value s.2 ≤ S.size value peak.error

/-- **No sample of a grid exceeds the extrema**: one that is not zero is at most some extremum. -/
theorem extrema_settles {grid : Array (Peak κ)}
    (hgrid : ∀ p ∈ grid.toList, p.HasNumbers IsNumber) :
    Settles (extrema S ratio error grid) (fun peaks =>
      (∀ peak ∈ peaks, peak.HasNumbers IsNumber) ∧
        ∀ p ∈ grid.toList, value p.error = 0 ∨
          ∃ peak ∈ peaks, S.size value p.error ≤ S.size value peak.error) E := by
  have hget : ∀ {i : Nat} {p : Peak κ}, grid[i]? = some p → p.HasNumbers IsNumber := fun {i p} h =>
    hgrid p (Array.mem_toList_iff.mpr (Array.mem_of_getElem? h))
  rw [extrema]
  generalize hsamples : (grid.toList.mapIdx fun i p => (i, p.error)) = samples
  have hsample : ∀ s ∈ samples, ∃ p, grid[s.1]? = some p ∧ p.error = s.2 := by
    intro s hs
    rw [← hsamples, List.mem_mapIdx] at hs
    obtain ⟨i, hi, rfl⟩ := hs
    exact ⟨grid.toList[i], by simp_all, rfl⟩
  have hnumbers : ∀ s ∈ samples, IsNumber s.2 := by
    intro s hs
    obtain ⟨p, hp, hps⟩ := hsample s hs
    exact hps ▸ (hget hp).error
  refine (Settles.filterMapM (R := GivesWay S IsNumber value) fun s hs => ?kept).mono
    fun peaks hpeaks => ⟨fun peak hpeak => ?numbers, fun p hp => ?covered⟩
  case kept =>
    obtain ⟨i, e⟩ := s
    obtain ⟨sampled, hsampled, rfl⟩ := hsample (i, e) (mem_of_mem_signRuns hs)
    have hown : GivesWay S IsNumber value (i, sampled.error) (some sampled) :=
      ⟨sampled, rfl, hget hsampled, le_rfl⟩
    simp only at hsampled
    simp only [hsampled]
    split
    · exact .ok hown
    · split
      · next before after hbefore hafter =>
        refine (refine_settles hS hratio herror _ _ (hget hbefore).place (hget hafter).place).bind
          fun found hfound => ?_
        split
        · next hlt =>
          have hle := ((hS.lt_iff (hS.abs (hget hsampled).error) (hS.abs hfound.error)).mp hlt).le
          exact .ok ⟨found, rfl, hfound, hle⟩
        · exact .ok hown
      · exact .ok hown
  case numbers =>
    obtain ⟨s, -, _, heq, hpeak, -⟩ := hpeaks.1 peak hpeak
    exact Option.some.inj heq ▸ hpeak
  case covered =>
    obtain ⟨i, hi, rfl⟩ := List.getElem_of_mem hp
    have hmem : (i, grid.toList[i].error) ∈ samples := by
      rw [← hsamples, List.mem_mapIdx]
      exact ⟨i, hi, rfl⟩
    refine (exists_mem_signRuns hS hnumbers _ hmem).imp_right fun hkept => ?_
    obtain ⟨s, hs, hle⟩ := hkept
    rcases hpeaks.2 s hs with ⟨_, hnone, -⟩ | ⟨peak, hpeak, _, heq, -, hsize⟩
    · cases hnone
    · exact ⟨peak, hpeak, hle.trans (Option.some.inj heq ▸ hsize)⟩

end

end Elementary.Fit
