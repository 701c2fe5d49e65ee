import Elementary.Fit.Solver
import Elementary.Proofs.Computation

/-!
# Results of fits

A fit that succeeds is the result of the request that was made, so that the polynomial becomes a
Horner scheme in the variable and for the parity that were asked for.

## Main results

* `Fit.Request.request_of_solve`: the request of a result.
* `Fit.Request.steady_solve`: a fit does not depend on earlier messages.
-/

namespace Elementary.Fit

open Computation

variable {r : Request} {p : Problem} {fit : Result} {s s' : Array Event}

/-- An exchange gives a result of the request of its problem. -/
theorem Problem.request_of_exchange {left done : Nat} {reference : List BigFloat}
    (h : runFrom (p.exchange left done reference) s = (.ok fit, s')) : fit.request = p.request := by
  induction left generalizing done reference s with
  | zero => cases h
  | succ left ih =>
    rw [exchange] at h
    obtain ⟨⟨coefficients, level⟩, s₁, -, hpeaks⟩ := runFrom_bind_eq_ok.mp h
    obtain ⟨peaks, s₂, -, hreport⟩ := runFrom_bind_eq_ok.mp hpeaks
    obtain ⟨-, s₃, -, hend⟩ := runFrom_bind_eq_ok.mp hreport
    split at hend
    · cases hend
      rfl
    · split at hend
      · cases hend
      · exact ih hend

/-- The problem of a request keeps it. -/
theorem Request.request_of_problem {low high : Rat}
    (h : runFrom (r.problem low high) s = (.ok p, s')) : p.request = r := by
  obtain ⟨grid, s₁, -, hend⟩ := runFrom_bind_eq_ok.mp h
  cases hend
  rfl

/-- **A fit** is the result of the request that was made. -/
theorem Request.request_of_solve (h : runFrom r.solve s = (.ok fit, s')) : fit.request = r := by
  rw [solve] at h
  split at h
  · cases h
  split at h
  · cases h
  obtain ⟨low, s₁, -, hlow⟩ := runFrom_bind_eq_ok.mp h
  obtain ⟨high, s₂, -, hhigh⟩ := runFrom_bind_eq_ok.mp hlow
  split at hhigh
  · cases hhigh
  obtain ⟨-, s₃, -, hreport⟩ := runFrom_bind_eq_ok.mp hhigh
  obtain ⟨p, s₄, hp, hexchange⟩ := runFrom_bind_eq_ok.mp hreport
  obtain ⟨fit', s₅, hfit, hlast⟩ := runFrom_bind_eq_ok.mp hexchange
  obtain ⟨-, s₆, -, hend⟩ := runFrom_bind_eq_ok.mp hlast
  cases hend
  rw [Problem.request_of_exchange hfit, Request.request_of_problem hp]

/-! ### Fits do not depend on messages -/

open Traced

theorem Request.steady_traced {α : Type} (x : Except Failure α) : (r.traced x).Steady := by
  rw [Request.traced.eq_def]
  split
  · exact steady_pure _
  · exact steady_abort _ _
  · exact steady_reported _

theorem Problem.steady_exchange (left done : Nat) (reference : List BigFloat) :
    (p.exchange left done reference).Steady := by
  induction left generalizing done reference with
  | zero => exact Request.steady_traced _
  | succ left ih =>
    rw [exchange]
    refine (Request.steady_traced _).bind fun (coefficients, level) => ?_
    refine (Request.steady_traced _).bind fun peaks => (steady_report _ _).bind fun _ => ?_
    split
    · exact steady_pure _
    · split
      · exact Request.steady_traced _
      · exact ih _ _

/-- **A fit** does not depend on what was reported before it. -/
theorem Request.steady_solve (r : Request) : r.solve.Steady := by
  have hproblem : ∀ low high, (r.problem low high).Steady := fun low high =>
    (steady_mapM (fun k => (Request.steady_traced _).bind fun y => steady_pure _) _).bind
      fun grid => steady_pure _
  rw [solve]
  refine steady_abortIf fun _ => steady_abortIf fun _ => ?_
  refine (steady_ofExcept _).bind fun low => (steady_ofExcept _).bind fun high => ?_
  refine steady_abortIf fun _ => ?_
  refine (steady_report _ _).bind fun _ => (hproblem low high).bind fun p => ?_
  refine (Problem.steady_exchange _ _ _).bind fun fit => ?_
  exact (steady_report _ _).bind fun _ => steady_pure fit

end Elementary.Fit
