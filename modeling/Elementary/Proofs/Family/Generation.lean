import Elementary.Proofs.Family.Closed
import Elementary.Proofs.Family.Generators

/-!
# The generation of libraries

A library is generated when the numbers of terms are there for the width and the fits succeed with
coefficients that have codings. A library that is generated was built from fits, and so it is
closed.

## Main definitions

* `Library.IsReady`: what has to be there for a library to be generated.

## Main results

* `Library.generate_ends`: how the generation of a library ends.
* `Library.generate_isClosed`: libraries are generated, and closed.
-/

namespace Elementary

open Computation

namespace Library

/-- What has to be there for a library **to be generated**: a number of terms of every kind, and
fits that succeed for all functions. -/
structure IsReady (s : Setting) (strategy : Strategy) : Prop where
  counts : s.HasCounts
  fits : ∀ F ∈ functions strategy, ∀ r ∈ F.requests s, r.Succeeds s.numberType

section Generators

variable {s : Setting} {E : Prop}

/-- Every test of a library can be built. -/
theorem isBuildable_of_mem_tests (s : Setting) (strategy : Strategy) :
    ∀ r ∈ tests s strategy, r.IsBuildable := by
  have hall : ∀ strategy ∈ [Strategy.singlePass, .quadrant], ∀ p ∈ [Precision.single, .double],
      ∀ v ∈ [false, true], ∀ r ∈ tests ⟨⟨p, v⟩, 0, .standard⟩ strategy, r.isBuildable = true := by
    decide +kernel
  obtain ⟨⟨p, v⟩, width, terms⟩ := s
  intro r hr
  refine TestCase.Request.isBuildable_spec (hall strategy ?_ p ?_ v ?_ r hr)
  · cases strategy <;> decide
  · cases p <;> decide
  · cases v <;> decide

/-- The functions and tests that each generator of a strategy is for. -/
def parts (s : Setting) (strategy : Strategy) :
    List (List LibraryFunction × List TestCase.Request) :=
  [match strategy with
    | .singlePass =>
      ([.sine .singlePass, .cosine .singlePass, .tangent, .sineCosine], Trigonometric.tests s 8 8)
    | .quadrant =>
      ([.sine .quadrant, .cosine .quadrant, .tangent, .sineCosine], Trigonometric.tests s 3 4),
    ([.arctangent, .arcsine, .arccosine], InverseTrigonometric.tests s),
    ([.exponential, .binaryExponential, .logarithm .natural, .logarithm .two, .logarithm .ten],
      Exponential.tests s),
    ([.hyperbolicSine, .hyperbolicCosine, .hyperbolicTangent], Hyperbolic.tests s),
    ([.reciprocal, .reciprocalRoot, .squareRoot], Root.tests s),
    ([.negateOnOdd, .length], Auxiliary.tests s)]

theorem functions_eq (s : Setting) (strategy : Strategy) :
    functions strategy = ((parts s strategy).map Prod.fst).flatten := by
  cases strategy <;> rfl

theorem tests_eq (s : Setting) (strategy : Strategy) :
    tests s strategy = ((parts s strategy).map Prod.snd).flatten := by
  cases strategy <;> rfl

/-- A **generator** of a family gives the functions and tests that it is for, unless something is
missing. -/
def IsGenerator (s : Setting) (E : Prop) (generator : String × (Setting → Traced Family))
    (part : List LibraryFunction × List TestCase.Request) : Prop :=
  ∀ events, Ends (generator.2 s) events (fun family _ => family.IsBuilt s part.1 part.2)
    fun _ _ => E

/-- **Every generator** of a strategy gives its functions and tests. -/
theorem isGenerator_families {strategy : Strategy}
    (hwidth : (s.numberType.precision.format.bitSize : Int) = s.width)
    (hcounts : E ∨ s.HasCounts) (h : AreSupplied s E (functions strategy)) :
    List.Forall₂ (IsGenerator s E) (families strategy) (parts s strategy) := by
  have hsupplied : ∀ part ∈ parts s strategy, AreSupplied s E part.1 := by
    intro part hpart F hF
    refine h F ?_
    rw [functions_eq s]
    exact List.mem_flatten.mpr ⟨_, List.mem_map_of_mem hpart, hF⟩
  have htests : ∀ part ∈ parts s strategy, ∀ r ∈ part.2, r.IsBuildable := by
    intro part hpart r hr
    refine isBuildable_of_mem_tests s strategy r ?_
    rw [tests_eq]
    exact List.mem_flatten.mpr ⟨_, List.mem_map_of_mem hpart, hr⟩
  have hothers : List.Forall₂ (IsGenerator s E) (families strategy).tail
      (parts s strategy).tail := by
    simp only [parts, List.forall_mem_cons] at hsupplied htests
    obtain ⟨-, h₂, h₃, h₄, h₅, h₆, -⟩ := hsupplied
    obtain ⟨-, t₂, t₃, t₄, t₅, t₆, -⟩ := htests
    exact .cons (inverseTrigonometric_ends hcounts h₂ t₂)
      (.cons (exponential_ends hwidth hcounts h₃ t₃) (.cons (hyperbolic_ends hcounts h₄ t₄)
      (.cons (root_ends hcounts h₅ t₅) (.cons (auxiliary_ends t₆) .nil))))
  cases strategy with
  | singlePass =>
    exact .cons (singlePass_ends hcounts (hsupplied _ List.mem_cons_self)
      (htests _ List.mem_cons_self)) hothers
  | quadrant =>
    exact .cons (quadrants_ends hcounts (hsupplied _ List.mem_cons_self)
      (htests _ List.mem_cons_self)) hothers

end Generators

/-- Families are put together one after the other. -/
theorem foldlM_families_ends {gs : List (String × (Setting → Traced Family))}
    {ps : List (List LibraryFunction × List TestCase.Request)} {s : Setting} {E : Prop}
    (h : List.Forall₂ (IsGenerator s E) gs ps)
    {library : Family} {Fs : List LibraryFunction} {rs : List TestCase.Request}
    (hlibrary : library.IsBuilt s Fs rs) (events : Array Event) :
    Ends (gs.foldlM (fun library (name, generator) => do
        Traced.report (.info "driver") ("generating family " ++ name)
        let family ← generator s
        return ⟨library.functions ++ family.functions, library.tests ++ family.tests⟩) library)
      events
      (fun library _ => library.IsBuilt s (Fs ++ (ps.map Prod.fst).flatten)
        (rs ++ (ps.map Prod.snd).flatten)) fun _ _ => E := by
  induction h generalizing library Fs rs events with
  | nil =>
    refine .pure ?_
    simpa using hlibrary
  | @cons g part gs ps hpart _ ih =>
    rw [List.foldlM_cons]
    have hstep : Ends (do
        Traced.report (.info "driver") ("generating family " ++ g.1)
        let family ← g.2 s
        return (⟨library.functions ++ family.functions, library.tests ++ family.tests⟩ : Family))
        events (fun library _ => library.IsBuilt s (Fs ++ part.1) (rs ++ part.2)) fun _ _ => E := by
      refine (Traced.report_ends _ _ _ _).bind fun _ _ _ => ?_
      refine (hpart _).bind fun family _ hfamily => ?_
      exact .pure ⟨List.rel_append hlibrary.builds hfamily.builds,
        List.rel_append hlibrary.describes hfamily.describes⟩
    refine hstep.bind fun library _ hlibrary => ?_
    simp only [List.map_cons, List.flatten_cons, ← List.append_assoc]
    exact ih hlibrary _

/-- A width, a number type and a strategy that **fit together** pass the check. -/
theorem check_ends {s : Setting} (strategy : Strategy)
    (hwidth : (s.numberType.precision.format.bitSize : Int) = s.width) (events : Array Event)
    (E : Failure → Array Event → Prop) :
    Ends (Configuration.check s.width s.numberType strategy.name) events
      (fun found _ => found = strategy) E := by
  have hwidths : Configuration.widths.contains s.width = true := by
    rw [← hwidth]
    cases s.numberType.precision <;> rfl
  have hname : Strategy.ofName? strategy.name = some strategy := by
    cases strategy <;> rfl
  rw [Configuration.check, if_pos hwidths, if_pos hwidth, hname]
  exact .pure rfl

/-- **How the generation of a library ends**: with a library that was built from fits, unless
something is missing. -/
theorem generate_ends {s : Setting} (strategy : Strategy)
    (hwidth : (s.numberType.precision.format.bitSize : Int) = s.width) (events : Array Event) :
    Ends (generate s strategy.name) events (fun library _ => Built s strategy library)
      fun _ _ => ¬ IsReady s strategy := by
  have hcounts : ¬ IsReady s strategy ∨ s.HasCounts :=
    (em (IsReady s strategy)).symm.imp_right IsReady.counts
  have hfits : AreSupplied s (¬ IsReady s strategy) (functions strategy) := fun F hF r hr =>
    (em (IsReady s strategy)).symm.imp_right fun hready => hready.fits F hF r hr
  refine (check_ends strategy hwidth _ _).bind fun found _ hfound => ?_
  subst hfound
  have hempty : (⟨[], []⟩ : Family).IsBuilt s [] [] := ⟨.nil, .nil⟩
  have hends := foldlM_families_ends (isGenerator_families hwidth hcounts hfits) hempty
  simp only [List.nil_append, ← functions_eq, ← tests_eq] at hends
  exact hends _

/-! ### Libraries of constant polynomials -/

/-- The result that a fit has when its polynomial is zero. -/
def zeroFit (r : Fit.Request) : Fit.Result := ⟨r, .ofList [], .integer 0, .integer 0, 0⟩

theorem hasScheme_zeroFit (nt : NumberType) (r : Fit.Request) : (zeroFit r).HasScheme nt := by
  have hzero := Expr.codable_zero nt
  obtain ⟨target, name, terms, low, high, parity, digits⟩ := r
  cases parity with
  | odd =>
    refine ⟨Expr.var name * Expr.constant 0, rfl, (Expr.codable_operation rfl).mpr ?_⟩
    exact List.forall_mem_cons.mpr ⟨(Expr.codable_operation rfl).mpr (List.forall_mem_nil _),
      List.forall_mem_singleton.mpr hzero⟩
  | even => exact ⟨Expr.constant 0, rfl, hzero⟩
  | none => exact ⟨Expr.constant 0, rfl, hzero⟩

/-- In every setting **every function can be built**. -/
theorem exists_builds (s : Setting) (F : LibraryFunction) : ∃ f, F.Builds s f := by
  have hschemes : ∀ fit ∈ (F.requests s).map zeroFit, fit.HasScheme s.numberType :=
    List.forall_mem_map.mpr fun r _ => hasScheme_zeroFit s.numberType r
  obtain ⟨ps, hps⟩ := exists_forall₂ hschemes
  have hrequests : ((F.requests s).map zeroFit).map (·.request) = F.requests s := by
    rw [List.map_map]
    exact List.map_id _
  have hcodable : ∀ e ∈ ps, False ∨ e.Codable s.numberType := fun e he =>
    have ⟨_, _, _, hcodable⟩ := exists_of_forall₂ hps.flip he
    .inr hcodable
  have hquantize := isGenerated_quantize 0 hrequests (hps.imp fun _ _ h => h.1) hcodable
  obtain ⟨f, -, -, hf⟩ := (hquantize #[]).exists_ok
  exact ⟨f, hf⟩

/-- A function with one fit **can be built from any result** of it whose scheme is codable, whatever
the number of refinements is. -/
theorem exists_buildsFrom_of_fit {s : Setting} {F : LibraryFunction} {fit : Fit.Result} {e : Expr}
    (hr : F.requests s = [fit.request]) (he : fit.expression = .ok e)
    (hcodable : e.Codable s.numberType) (k : Int) : ∃ f, F.BuildsFrom s k f ∧ f.fits = [fit] := by
  refine ⟨_, ⟨fit, e, hr, he, GeneratedFunction.quantizeFor_eq_ok_iff.mpr ⟨?_, rfl⟩⟩, rfl⟩
  exact (Expr.codable_operation rfl).mpr
    (LibraryFunction.codable_body (List.forall_mem_singleton.mpr hcodable) k)

/-- A function with one fit **can be built from it**. -/
theorem exists_buildsFrom {s : Setting} {F : LibraryFunction} {r : Fit.Request}
    (hr : F.requests s = [r]) (k : Int) : ∃ f, F.BuildsFrom s k f := by
  obtain ⟨e, he, hcodable⟩ := hasScheme_zeroFit s.numberType r
  obtain ⟨f, hf, -⟩ := exists_buildsFrom_of_fit (show F.requests s = [(zeroFit r).request] from hr) he hcodable k
  exact ⟨f, hf⟩

/-- In every setting **there are libraries that were built from fits**. -/
theorem exists_built (s : Setting) (strategy : Strategy) : ∃ library, Built s strategy library := by
  obtain ⟨fs, hfs⟩ := exists_forall₂ fun F (_ : F ∈ functions strategy) => exists_builds s F
  have hfamily := family_ends (E := False) hfs (isBuildable_of_mem_tests s strategy) #[]
  obtain ⟨library, -, -, hlibrary⟩ := hfamily.exists_ok
  exact ⟨library, hlibrary⟩

/-- **Libraries are generated, and they are closed.** A library is generated when the numbers of
terms are there and the fits succeed with coefficients that have codings. It is built from these
fits, and a library that is built from fits is closed, whatever polynomials the fits gave. -/
theorem generate_isClosed (s : Setting) (strategy : Strategy)
    (hwidth : (s.numberType.precision.format.bitSize : Int) = s.width) :
    (IsReady s strategy → ∃ library, (generate s strategy.name).outcome = .ok library) ∧
      (∀ library, (generate s strategy.name).outcome = .ok library → Built s strategy library) ∧
      ∀ library, Built s strategy library → IsClosed s.numberType library := by
  have hends := generate_ends (s := s) strategy hwidth #[]
  rw [Traced.outcome_eq]
  refine ⟨fun hready => ?_, fun library hlibrary => ?_, fun library hbuilt => hbuilt.isClosed⟩
  · rcases hrun : runFrom (generate s strategy.name) #[] with ⟨f | library, events⟩
    · exact absurd hready (hends.error hrun)
    · exact ⟨library, rfl⟩
  · exact hends.ok (Prod.ext hlibrary rfl)

/-- Vectors of double precision, with quadrants. -/
theorem generate_isClosed_vectors :
    ∃ library, Built ⟨⟨.double, true⟩, 64, .standard⟩ .quadrant library ∧
      IsClosed ⟨.double, true⟩ library := by
  obtain ⟨library, hbuilt⟩ := exists_built ⟨⟨.double, true⟩, 64, .standard⟩ .quadrant
  have hclosed := generate_isClosed ⟨⟨.double, true⟩, 64, .standard⟩ .quadrant rfl
  exact ⟨library, hbuilt, hclosed.2.2 library hbuilt⟩

end Library

end Elementary
