import Mathlib.Tactic.Linarith
import Elementary.Proofs.Fit.Exchange

/-!
# Runs of one sign

The samples of an error that are not zero fall into runs of one sign, neighbouring runs having
opposite signs. Of each run one sample is kept, in the same order: the largest one.

## Main definitions

* `Fit.AreRuns`: the runs of one sign of some samples.
* `Fit.IsLargest`: a largest sample of a run.

## Main results

* `Fit.exists_runs`: one largest sample is kept of each run.
* `Fit.sublist_signRuns`: the samples are kept in their order.
-/

namespace Elementary.Fit

variable {κ : Type} {S : Scalars κ} {IsNumber : κ → Prop} {value : κ → Rat} {p s t : Nat × κ}
  {samples run : List (Nat × κ)} {runs : List (List (Nat × κ))}

/-- Errors of **one sign**, none of them zero. -/
def SameSign (value : κ → Rat) (s t : Nat × κ) : Prop := 0 < value s.2 * value t.2

/-- Errors of **opposite signs**. -/
def OppositeSigns (value : κ → Rat) (s t : Nat × κ) : Prop := value s.2 * value t.2 < 0

/-- The **runs of one sign** of some samples: together the samples that are not zero, each with one
sign, and neighbouring ones with opposite signs. -/
structure AreRuns (value : κ → Rat) (samples : List (Nat × κ))
    (runs : List (List (Nat × κ))) : Prop where
  flatten : runs.flatten = samples.filter fun s => value s.2 ≠ 0
  oneSign : ∀ run ∈ runs, run ≠ [] ∧ ∀ s ∈ run, ∀ t ∈ run, SameSign value s t
  alternate : runs.IsChain fun run run' => ∀ s ∈ run, ∀ t ∈ run', OppositeSigns value s t

/-- A **largest sample** of a run. -/
def IsLargest (S : Scalars κ) (value : κ → Rat) (s : Nat × κ) (run : List (Nat × κ)) : Prop :=
  s ∈ run ∧ ∀ t ∈ run, S.size value t.2 ≤ S.size value s.2

/-- The samples are **kept in their order**. -/
theorem sublist_signRuns (S : Scalars κ) (samples : List (Nat × κ)) :
    (signRuns S samples).Sublist samples := by
  induction samples with
  | nil => exact .slnil
  | cons p ps ih =>
    rw [signRuns]
    split
    · exact ih.cons p
    · generalize signRuns S ps = kept at ih
      cases kept with
      | nil => exact ih.cons_cons p
      | cons q qs =>
        simp only
        split
        · exact ih.cons_cons p
        · split
          · exact ih.cons p
          · exact ((List.sublist_cons_self q qs).trans ih).cons_cons p

/-! ### One more sample in front -/

/-- A sample of the same sign as one of two opposite ones is opposite to the other. -/
theorem OppositeSigns.of_sameSign (hst : OppositeSigns value s t) (hsp : SameSign value s p) :
    OppositeSigns value p t := by
  rw [OppositeSigns] at *
  rw [SameSign] at hsp
  rcases pos_and_pos_or_neg_and_neg_of_mul_pos hsp with ⟨hs, hp⟩ | ⟨hs, hp⟩
  · exact mul_neg_of_pos_of_neg hp (neg_of_mul_neg_right hst hs.le)
  · exact mul_neg_of_neg_of_pos hp (pos_of_mul_neg_right hst hs.le)

theorem OppositeSigns.symm (h : OppositeSigns value s t) : OppositeSigns value t s := by
  rwa [OppositeSigns, mul_comm]

theorem SameSign.symm (h : SameSign value s t) : SameSign value t s := by
  rwa [SameSign, mul_comm]

theorem SameSign.trans (hst : SameSign value s t) (htp : SameSign value t p) :
    SameSign value s p := by
  rw [SameSign] at *
  rcases pos_and_pos_or_neg_and_neg_of_mul_pos htp with ⟨ht, hp⟩ | ⟨ht, hp⟩
  · exact mul_pos (pos_of_mul_pos_left hst ht.le) hp
  · exact mul_pos_of_neg_of_neg (neg_of_mul_pos_left hst ht.le) hp

/-- A sample that is **zero** belongs to no run. -/
theorem AreRuns.cons_zero (h : AreRuns value samples runs) (hp : value p.2 = 0) :
    AreRuns value (p :: samples) runs where
  flatten := by rw [h.flatten, List.filter_cons_of_neg (by simpa using hp)]
  oneSign := h.oneSign
  alternate := h.alternate

/-- A sample **begins a run** when it is opposite to the next one. -/
theorem AreRuns.cons_alone (h : AreRuns value samples runs) (hp : value p.2 ≠ 0)
    (hopposite : ∀ run ∈ runs.head?, ∀ t ∈ run, OppositeSigns value p t) :
    AreRuns value (p :: samples) ([p] :: runs) where
  flatten := by
    rw [List.flatten_cons, h.flatten, List.filter_cons_of_pos (by simpa using hp)]
    rfl
  oneSign := List.forall_mem_cons.mpr ⟨⟨List.cons_ne_nil p [], by
    simpa [SameSign] using mul_self_pos.mpr hp⟩, h.oneSign⟩
  alternate := by
    rw [List.isChain_cons]
    refine ⟨fun run hrun s hs t ht => ?_, h.alternate⟩
    obtain rfl := List.mem_singleton.mp hs
    exact hopposite run hrun t ht

/-- A sample **joins the first run** when it has its sign. -/
theorem AreRuns.cons_joined (h : AreRuns value samples (run :: runs)) (hs : s ∈ run)
    (hsame : SameSign value p s) : AreRuns value (p :: samples) ((p :: run) :: runs) where
  flatten := by
    have hp : value p.2 ≠ 0 := left_ne_zero_of_mul hsame.ne'
    rw [List.filter_cons_of_pos (by simpa using hp), ← h.flatten]
    rfl
  oneSign := by
    obtain ⟨⟨-, hrun⟩, hruns⟩ := List.forall_mem_cons.mp h.oneSign
    have hall : ∀ t ∈ run, SameSign value p t := fun t ht => hsame.trans (hrun s hs t ht)
    refine List.forall_mem_cons.mpr ⟨⟨List.cons_ne_nil p run, ?_⟩, hruns⟩
    refine List.forall_mem_cons.mpr ⟨List.forall_mem_cons.mpr ⟨?_, hall⟩, fun t ht => ?_⟩
    · exact hsame.trans hsame.symm
    · exact List.forall_mem_cons.mpr ⟨(hall t ht).symm, hrun t ht⟩
  alternate := by
    obtain ⟨hnext, hrest⟩ := List.isChain_cons.mp h.alternate
    refine List.isChain_cons.mpr ⟨fun run' hrun' => ?_, hrest⟩
    refine List.forall_mem_cons.mpr ⟨fun t ht => ?_, hnext run' hrun'⟩
    exact (hnext run' hrun' s hs t ht).of_sameSign hsame.symm

/-! ### The samples that are kept -/

/-- A number that is not found to be zero is not. -/
theorem value_ne_zero (hS : S.HasValues IsNumber value) {x : κ} (hx : IsNumber x)
    (h : ¬(!S.lt S.zero x && !S.lt x S.zero) = true) : value x ≠ 0 := by
  intro hzero
  rw [Bool.and_eq_true, Bool.not_eq_true', Bool.not_eq_true', hS.lt_eq_false hS.zero hx,
    hS.lt_eq_false hx hS.zero, hS.value_zero, hzero] at h
  exact h ⟨le_rfl, le_rfl⟩

/-- Whether two numbers other than zero have **one sign** is seen from which of them are above it. -/
theorem sameSign_or_oppositeSigns (hS : S.HasValues IsNumber value) (hs : IsNumber s.2)
    (ht : IsNumber t.2) (hs0 : value s.2 ≠ 0) (ht0 : value t.2 ≠ 0) :
    if (S.lt S.zero t.2 != S.lt S.zero s.2) = true then OppositeSigns value s t
    else SameSign value s t := by
  have hpos : ∀ {x : κ}, IsNumber x → (S.lt S.zero x = true ↔ 0 < value x) := fun hx => by
    rw [hS.lt_iff hS.zero hx, hS.value_zero]
  rw [OppositeSigns, SameSign]
  rcases lt_or_gt_of_ne hs0 with hsn | hsp
  · rw [Bool.eq_false_iff.mpr (mt (hpos hs).mp hsn.not_gt)]
    rcases lt_or_gt_of_ne ht0 with htn | htp
    · rw [Bool.eq_false_iff.mpr (mt (hpos ht).mp htn.not_gt)]
      exact mul_pos_of_neg_of_neg hsn htn
    · rw [(hpos ht).mpr htp]
      exact mul_neg_of_neg_of_pos hsn htp
  · rw [(hpos hs).mpr hsp]
    rcases lt_or_gt_of_ne ht0 with htn | htp
    · rw [Bool.eq_false_iff.mpr (mt (hpos ht).mp htn.not_gt)]
      exact mul_neg_of_pos_of_neg hsp htn
    · rw [(hpos ht).mpr htp]
      exact mul_pos hsp htp

/-- A sample that joins a run is its largest one, **or the largest one stays**. -/
theorem IsLargest.cons (hS : S.HasValues IsNumber value) (hp : IsNumber p.2) (hs : IsNumber s.2)
    (h : IsLargest S value s run) :
    if S.lt (S.abs p.2) (S.abs s.2) = true then IsLargest S value s (p :: run)
    else IsLargest S value p (p :: run) := by
  split
  · next hlt =>
    have hle := ((hS.lt_iff (hS.abs hp) (hS.abs hs)).mp hlt).le
    exact ⟨List.mem_cons_of_mem p h.1, List.forall_mem_cons.mpr ⟨hle, h.2⟩⟩
  · next hlt =>
    have hle := (hS.lt_eq_false (hS.abs hp) (hS.abs hs)).mp (Bool.not_eq_true _ ▸ hlt)
    exact ⟨List.mem_cons_self,
      List.forall_mem_cons.mpr ⟨le_rfl, fun t ht => (h.2 t ht).trans hle⟩⟩

/-- **One largest sample is kept of each run.** -/
theorem exists_runs (hS : S.HasValues IsNumber value) (hsamples : ∀ s ∈ samples, IsNumber s.2) :
    ∃ runs, AreRuns value samples runs ∧
      List.Forall₂ (IsLargest S value) (signRuns S samples) runs := by
  induction samples with
  | nil => exact ⟨[], ⟨rfl, List.forall_mem_nil _, .nil⟩, .nil⟩
  | cons p ps ih =>
    obtain ⟨hp, hps⟩ := List.forall_mem_cons.mp hsamples
    obtain ⟨runs, hruns, hkept⟩ := ih hps
    have hnumbers : ∀ q ∈ signRuns S ps, IsNumber q.2 := fun q hq =>
      hps q (mem_of_mem_signRuns hq)
    rw [signRuns]
    split
    · next hzero => exact ⟨runs, hruns.cons_zero (value_eq_zero hS hp hzero), hkept⟩
    · next hzero =>
      have hp0 := value_ne_zero hS hp hzero
      have hself : IsLargest S value p [p] :=
        ⟨List.mem_cons_self, fun t ht => (List.mem_singleton.mp ht) ▸ le_rfl⟩
      generalize signRuns S ps = kept at hkept hnumbers
      cases hkept with
      | nil =>
        have hnone : ∀ run ∈ ([] : List (List (Nat × κ))).head?, ∀ t ∈ run,
            OppositeSigns value p t := by simp
        exact ⟨[[p]], hruns.cons_alone hp0 hnone, .cons hself .nil⟩
      | @cons q run qs runs hq hqs =>
        have hqn := hnumbers q List.mem_cons_self
        obtain ⟨⟨-, hrun⟩, -⟩ := List.forall_mem_cons.mp hruns.oneSign
        have hq0 : value q.2 ≠ 0 := left_ne_zero_of_mul (hrun q hq.1 q hq.1).ne'
        have hsigns := sameSign_or_oppositeSigns hS hp hqn hp0 hq0
        simp only
        split
        · next hdiffer =>
          rw [if_pos hdiffer] at hsigns
          refine ⟨[p] :: run :: runs, hruns.cons_alone hp0 ?_, .cons hself (.cons hq hqs)⟩
          intro run' hrun' t ht
          obtain rfl := Option.mem_some_iff.mp hrun'
          exact (hsigns.symm.of_sameSign (hrun q hq.1 t ht)).symm
        · next hdiffer =>
          rw [if_neg hdiffer] at hsigns
          have hjoined := hruns.cons_joined hq.1 hsigns
          have hlargest := hq.cons hS hp hqn
          split
          · next hlt =>
            rw [if_pos hlt] at hlargest
            exact ⟨_, hjoined, .cons hlargest hqs⟩
          · next hlt =>
            rw [if_neg hlt] at hlargest
            exact ⟨_, hjoined, .cons hlargest hqs⟩

end Elementary.Fit
