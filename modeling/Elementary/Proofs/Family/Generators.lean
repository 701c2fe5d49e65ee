import Elementary.Proofs.Family.Constants
import Elementary.Proofs.Fit.Solver

/-!
# The generators of functions and families

A generator looks up numbers of terms, makes fits, takes the schemes of their polynomials and
quantizes a body. It gives a function that is built from the fits, unless a number of terms is
missing, a fit fails, or a coefficient has no coding.

## Main definitions

* `Fit.Request.Succeeds`: fits that succeed with coefficients that have codings.
* `LibraryFunction.IsGenerated`: computations that generate a function.
* `LibraryFunction.BuildsFrom`: a function built from one fit.

## Main results

* `isGenerated_of_fit`: generators with one fit.
* `singlePass_ends`, `quadrants_ends`, and so on: the families.
-/

namespace Elementary

open Computation

/-! ### What the generators do

Each of the steps below may fail only if something is missing, for which `E` stands. -/

/-- Every number of terms is there for the width of a setting. -/
def Setting.HasCounts (s : Setting) : Prop :=
  ∀ kind, ∃ n, (s.terms.table kind).lookup s.width = some n

/-- A result whose polynomial has a scheme with **codings for all coefficients**. -/
def Fit.Result.HasScheme (nt : NumberType) (fit : Fit.Result) : Prop :=
  ∃ e, fit.expression = .ok e ∧ e.Codable nt

/-- A fit that **succeeds** with such a polynomial. -/
def Fit.Request.Succeeds (nt : NumberType) (r : Fit.Request) : Prop :=
  ∃ fit, r.solve.outcome = .ok fit ∧ fit.HasScheme nt

/-- The fits that a function asks for succeed, unless something is missing. -/
def LibraryFunction.IsSupplied (F : LibraryFunction) (s : Setting) (E : Prop) : Prop :=
  ∀ r ∈ F.requests s, E ∨ r.Succeeds s.numberType

section Steps

variable {s : Setting} {E : Prop} {r : Fit.Request} {fit : Fit.Result} {nt : NumberType}
  {F : LibraryFunction}

/-- A number of terms is looked up. -/
theorem count_ends (h : E ∨ s.HasCounts) (kind : TermKind) (events : Array Event) :
    Ends (s.count kind) events (fun n _ => n = s.counted kind) fun _ _ => E := by
  rw [Setting.count, TermTables.count, Setting.counted]
  cases hn : (s.terms.table kind).lookup s.width with
  | some n => exact .pure rfl
  | none =>
    refine (Traced.abort_ends _ _ _ _).mono (fun _ _ h => h) fun _ _ _ => ?_
    refine h.resolve_right fun hcounts => ?_
    obtain ⟨n, hsome⟩ := hcounts kind
    cases hn.symm.trans hsome

/-- A fit is made. -/
theorem fit_ends (h : E ∨ r.Succeeds nt) (events : Array Event) :
    Ends r.solve events (fun fit _ => fit.request = r ∧ (E ∨ fit.HasScheme nt)) fun _ _ => E := by
  rcases hrun : runFrom r.solve events with ⟨f | fit, events'⟩
  · refine .of_error hrun (h.resolve_right ?_)
    rintro ⟨fit, hfit, -⟩
    obtain ⟨events', hok⟩ := r.steady_solve.exists_runFrom hfit events
    cases hrun.symm.trans hok
  · refine .of_ok hrun ⟨Fit.Request.request_of_solve hrun, h.imp_right ?_⟩
    rintro ⟨fit', hfit, hscheme⟩
    cases hfit.symm.trans (r.steady_solve.outcome_eq_ok hrun)
    exact hscheme

/-- The scheme of a fit is taken. -/
theorem scheme_ends (h : E ∨ fit.HasScheme nt) (events : Array Event) :
    Ends (Setting.scheme fit) events
      (fun e _ => fit.expression = .ok e ∧ (E ∨ e.Codable nt)) fun _ _ => E := by
  refine (Traced.ofExcept_ends _ _).mono (fun e _ he => ⟨he, h.imp_right ?_⟩) fun f _ hf => ?_
  · rintro ⟨e', he', hcodable⟩
    cases he.symm.trans he'
    exact hcodable
  · refine h.resolve_right ?_
    rintro ⟨e, he, -⟩
    cases hf.symm.trans he

/-- A computation **generates a function**, unless something is missing. -/
def LibraryFunction.IsGenerated (F : LibraryFunction) (s : Setting) (E : Prop)
    (x : Traced GeneratedFunction) : Prop :=
  ∀ events, Ends x events (fun f _ => F.Builds s f) fun _ _ => E

/-- The body with the schemes of fits is quantized. -/
theorem isGenerated_quantize {fits : List Fit.Result} {ps : List Expr} (k : Int)
    (hrequests : fits.map (·.request) = F.requests s)
    (hschemes : List.Forall₂ (fun fit e => fit.expression = .ok e) fits ps)
    (hcodable : ∀ e ∈ ps, E ∨ e.Codable s.numberType) :
    F.IsGenerated s E
      (F.draft s (LibraryFunction.ingredients s.numberType ps k) fits).quantize := by
  intro events
  refine (GeneratedFunction.quantizeFor_ends _ _ events).mono (fun f _ hf => ?_) fun _ _ hnot => ?_
  · exact ⟨fits, _, hrequests, hschemes, GeneratedFunction.quantizeFor_eq_ok_iff.mpr hf⟩
  · by_contra hE
    refine hnot ((Expr.codable_operation rfl).mpr ?_)
    exact LibraryFunction.codable_body (fun e he => (hcodable e he).resolve_left hE) k

/-- A function **built from one fit**, with a number of refinements and the logarithm of two split
for its number type. -/
def LibraryFunction.BuildsFrom (F : LibraryFunction) (s : Setting) (k : Int)
    (f : GeneratedFunction) : Prop :=
  ∃ (fit : Fit.Result) (e : Expr), F.requests s = [fit.request] ∧ fit.expression = .ok e ∧
    (F.draft s (LibraryFunction.ingredients s.numberType [e] k) [fit]).quantize.outcome = .ok f

theorem LibraryFunction.BuildsFrom.builds {k : Int} {f : GeneratedFunction}
    (h : F.BuildsFrom s k f) : F.Builds s f := by
  obtain ⟨fit, e, hrequests, he, hf⟩ := h
  exact ⟨[fit], LibraryFunction.ingredients s.numberType [e] k, hrequests.symm, .cons he .nil, hf⟩

/-- How a generator **with one fit** ends. -/
theorem buildsFrom_ends (k : Int) (hrequests : F.requests s = [r]) (hF : F.IsSupplied s E)
    (events : Array Event) :
    Ends (do
      let fit ← r.solve
      let e ← Setting.scheme fit
      (F.draft s (LibraryFunction.ingredients s.numberType [e] k) [fit]).quantize) events
      (fun f _ => F.BuildsFrom s k f) fun _ _ => E := by
  have hfit := hF r (hrequests ▸ List.mem_singleton_self r)
  refine (fit_ends hfit _).bind fun fit _ ⟨hrequest, hscheme⟩ => ?_
  refine (scheme_ends hscheme _).bind fun e _ ⟨he, hcodable⟩ => ?_
  refine (GeneratedFunction.quantizeFor_ends _ _ _).mono (fun f _ hf => ?_) fun _ _ hnot => ?_
  · exact ⟨fit, e, hrequest ▸ hrequests, he, GeneratedFunction.quantizeFor_eq_ok_iff.mpr hf⟩
  · by_contra hE
    refine hnot ((Expr.codable_operation rfl).mpr ?_)
    exact LibraryFunction.codable_body
      (List.forall_mem_singleton.mpr (hcodable.resolve_left hE)) k

/-- A function **with one fit** is generated. -/
theorem isGenerated_of_fit (k : Int) (hrequests : F.requests s = [r]) (hF : F.IsSupplied s E) :
    F.IsGenerated s E (do
      let fit ← r.solve
      let e ← Setting.scheme fit
      (F.draft s (LibraryFunction.ingredients s.numberType [e] k) [fit]).quantize) := fun events =>
  (buildsFrom_ends k hrequests hF events).mono (fun _ _ hf => hf.builds) fun _ _ hE => hE

/-- Functions and tests are put together. -/
theorem family_ends {Fs : List LibraryFunction} {fs : List GeneratedFunction}
    {rs : List TestCase.Request} (hfs : List.Forall₂ (fun F f => F.Builds s f) Fs fs)
    (hrs : ∀ r ∈ rs, r.IsBuildable) (events : Array Event) :
    Ends (Family.build fs rs) events (fun family _ => family.IsBuilt s Fs rs) fun _ _ => E := by
  have htests : ∀ (rs : List TestCase.Request) (events : Array Event),
      (∀ r ∈ rs, r.IsBuildable) →
        Ends (rs.mapM TestCase.Request.build) events
          (fun ts _ => List.Forall₂ (fun r t => r.Describes t) rs ts) fun _ _ => E := by
    intro rs
    induction rs with
    | nil => exact fun _ _ => .pure .nil
    | cons r rs ih =>
      intro events hrs
      rw [List.mapM_cons]
      refine ((r.build_ends _).mono (fun _ _ h => h) ?_).bind fun t _ ht => ?_
      · exact fun _ _ hnot => absurd (hrs r List.mem_cons_self) hnot
      refine (ih _ fun r hr => hrs r (List.mem_cons_of_mem _ hr)).bind fun ts _ hts => ?_
      exact .pure (.cons ht hts)
  exact (htests rs _ hrs).bind fun ts _ hts => .pure ⟨hfs, hts⟩

end Steps

/-! ### The functions -/

section Functions

variable {s : Setting} {E : Prop}

open LibraryFunction

theorem isGenerated_singlePassSine (h : (sine .singlePass).IsSupplied s E) :
    (sine .singlePass).IsGenerated s E
      (Trigonometric.singlePassSine s (s.counted .singlePass)) :=
  isGenerated_of_fit 0 rfl h

theorem isGenerated_singlePassCosine (h : (cosine .singlePass).IsSupplied s E) :
    (cosine .singlePass).IsGenerated s E
      (Trigonometric.singlePassCosine s (s.counted .singlePass + 1)) :=
  isGenerated_of_fit 0 rfl h

/-- The two fits of sine and cosine over quadrants. -/
theorem quadrantFits_ends
    (h : ∀ r ∈ LibraryFunction.quadrantRequests s, E ∨ r.Succeeds s.numberType)
    (events : Array Event) :
    Ends (Trigonometric.quadrantFits s (s.counted .quadrant)) events
      (fun fits _ => [fits.1, fits.2].map (·.request) = LibraryFunction.quadrantRequests s ∧
        (E ∨ fits.1.HasScheme s.numberType) ∧ (E ∨ fits.2.HasScheme s.numberType))
      fun _ _ => E := by
  refine (fit_ends (h _ List.mem_cons_self) _).bind fun sine _ ⟨hsine, hscheme⟩ => ?_
  refine (fit_ends (h _ (.tail _ List.mem_cons_self)) _).bind fun cosine _ ⟨hcosine, hscheme'⟩ => ?_
  refine .pure ⟨?_, hscheme, hscheme'⟩
  show [sine.request, cosine.request] = _
  rw [hsine, hcosine]
  rfl

/-- A function with the fits over quadrants is generated. -/
theorem isGenerated_of_quadrantFits {F : LibraryFunction}
    (hrequests : F.requests s = LibraryFunction.quadrantRequests s) (h : F.IsSupplied s E) :
    F.IsGenerated s E (do
      let (fit, fit') ← Trigonometric.quadrantFits s (s.counted .quadrant)
      let p ← Setting.scheme fit
      let q ← Setting.scheme fit'
      (F.draft s (LibraryFunction.ingredients s.numberType [p, q] 0) [fit, fit']).quantize) := by
  intro events
  refine (quadrantFits_ends (hrequests ▸ h) _).bind fun (fit, fit') _ ⟨hfits, hs, hs'⟩ => ?_
  refine (scheme_ends hs _).bind fun p _ ⟨hp, hcodable⟩ => ?_
  refine (scheme_ends hs' _).bind fun q _ ⟨hq, hcodable'⟩ => ?_
  exact isGenerated_quantize 0 (hfits.trans hrequests.symm) (.cons hp (.cons hq .nil))
    (by simp [hcodable, hcodable']) _

theorem isGenerated_quadrantSine (h : (sine .quadrant).IsSupplied s E) :
    (sine .quadrant).IsGenerated s E
      (Trigonometric.quadrantSine s (s.counted .quadrant)) :=
  isGenerated_of_quadrantFits rfl h

theorem isGenerated_quadrantCosine (h : (cosine .quadrant).IsSupplied s E) :
    (cosine .quadrant).IsGenerated s E
      (Trigonometric.quadrantCosine s (s.counted .quadrant)) :=
  isGenerated_of_quadrantFits rfl h

theorem isGenerated_tangent (h : tangent.IsSupplied s E) :
    tangent.IsGenerated s E (Trigonometric.tangent s (s.counted .tangent)) :=
  isGenerated_of_fit 0 rfl h

theorem isGenerated_sineCosine : sineCosine.IsGenerated s E (Trigonometric.sineCosine s) :=
  isGenerated_quantize 0 rfl .nil (List.forall_mem_nil _)

theorem isGenerated_arctangent (h : arctangent.IsSupplied s E) :
    arctangent.IsGenerated s E (InverseTrigonometric.arctangent s (s.counted .arctangent)) :=
  isGenerated_of_fit 0 rfl h

theorem isGenerated_arcsine (h : arcsine.IsSupplied s E) :
    arcsine.IsGenerated s E (InverseTrigonometric.arcsine s (s.counted .arcsine)) :=
  isGenerated_of_fit 0 rfl h

theorem isGenerated_arccosine (h : arccosine.IsSupplied s E) :
    arccosine.IsGenerated s E (InverseTrigonometric.arccosine s (s.counted .arcsine)) :=
  isGenerated_of_fit 0 rfl h

/-- The natural exponential splits the logarithm of two for the width, which is that of the number
type. -/
theorem exponential_buildsFrom_ends
    (hwidth : (s.numberType.precision.format.bitSize : Int) = s.width)
    (h : exponential.IsSupplied s E) (events : Array Event) :
    Ends (Exponential.natural s (s.counted .exponential)) events
      (fun f _ => exponential.BuildsFrom s 0 f) fun _ _ => E := by
  have hbits : Exponential.significandBits s.width =
      .ok (s.numberType.precision.format.fieldSize + 1) := by
    rw [← hwidth]
    cases s.numberType.precision <;> rfl
  rw [Exponential.natural, hbits]
  exact buildsFrom_ends 0 rfl h events

theorem isGenerated_exponential (hwidth : (s.numberType.precision.format.bitSize : Int) = s.width)
    (h : exponential.IsSupplied s E) :
    exponential.IsGenerated s E (Exponential.natural s (s.counted .exponential)) := fun events =>
  (exponential_buildsFrom_ends hwidth h events).mono (fun _ _ hf => hf.builds) fun _ _ hE => hE

theorem isGenerated_binaryExponential (h : binaryExponential.IsSupplied s E) :
    binaryExponential.IsGenerated s E (Exponential.binary s (s.counted .exponential)) :=
  isGenerated_of_fit 0 rfl h

theorem isGenerated_logarithm {base : Exponential.Base} (h : (logarithm base).IsSupplied s E) :
    (logarithm base).IsGenerated s E (Exponential.logarithm s base (s.counted .logarithm)) :=
  isGenerated_of_fit 0 rfl h

theorem isGenerated_hyperbolicSine (h : hyperbolicSine.IsSupplied s E) :
    hyperbolicSine.IsGenerated s E (Hyperbolic.sine s (s.counted .hyperbolicSine)) :=
  isGenerated_of_fit 0 rfl h

theorem isGenerated_hyperbolicCosine (h : hyperbolicCosine.IsSupplied s E) :
    hyperbolicCosine.IsGenerated s E (Hyperbolic.cosine s (s.counted .hyperbolicCosine)) :=
  isGenerated_of_fit 0 rfl h

theorem isGenerated_hyperbolicTangent (h : hyperbolicTangent.IsSupplied s E) :
    hyperbolicTangent.IsGenerated s E (Hyperbolic.tangent s (s.counted .hyperbolicTangent)) :=
  isGenerated_of_fit 0 rfl h

theorem isGenerated_reciprocal (hcounts : E ∨ s.HasCounts) (h : reciprocal.IsSupplied s E) :
    reciprocal.IsGenerated s E (Root.reciprocal s) := by
  intro events
  refine (count_ends hcounts .reciprocalSeed _).bind fun terms _ hterms => ?_
  subst hterms
  refine (fit_ends (h _ List.mem_cons_self) _).bind fun fit _ ⟨hrequest, hscheme⟩ => ?_
  refine (scheme_ends hscheme _).bind fun e _ ⟨he, hcodable⟩ => ?_
  refine (count_ends hcounts .reciprocalIterations _).bind fun k _ _ => ?_
  have hrequests : [fit].map (·.request) = requests s reciprocal := by
    rw [List.map_cons, hrequest]
    rfl
  have hbuilt := isGenerated_quantize (F := reciprocal) k hrequests (.cons he .nil)
    (List.forall_mem_singleton.mpr hcodable)
  exact hbuilt _

/-- The seed of a square root, its refinements and its scheme. -/
theorem isGenerated_root {F : LibraryFunction} (hcounts : E ∨ s.HasCounts)
    (hrequests : F.requests s = [LibraryFunction.rootRequest s]) (h : F.IsSupplied s E) :
    F.IsGenerated s E (do
      let seed ← Root.rootSeed s
      let k ← s.count .rootIterations
      let e ← Setting.scheme seed
      (F.draft s (LibraryFunction.ingredients s.numberType [e] k) [seed]).quantize) := by
  intro events
  have hseed : Ends (Root.rootSeed s) events (fun fit _ => fit.request =
      LibraryFunction.rootRequest s ∧ (E ∨ fit.HasScheme s.numberType)) fun _ _ => E := by
    refine (count_ends hcounts .rootSeed _).bind fun terms _ hterms => ?_
    subst hterms
    exact fit_ends (h (LibraryFunction.rootRequest s) (hrequests ▸ List.mem_cons_self)) _
  refine hseed.bind fun fit _ ⟨hrequest, hscheme⟩ => ?_
  refine (count_ends hcounts .rootIterations _).bind fun k _ _ => ?_
  refine (scheme_ends hscheme _).bind fun e _ ⟨he, hcodable⟩ => ?_
  refine isGenerated_quantize k ?_ (.cons he .nil) (List.forall_mem_singleton.mpr hcodable) _
  rw [hrequests, ← hrequest]
  rfl

theorem isGenerated_reciprocalRoot (hcounts : E ∨ s.HasCounts)
    (h : reciprocalRoot.IsSupplied s E) :
    reciprocalRoot.IsGenerated s E (Root.reciprocalRoot s) :=
  isGenerated_root hcounts rfl h

theorem isGenerated_squareRoot (hcounts : E ∨ s.HasCounts) (h : squareRoot.IsSupplied s E) :
    squareRoot.IsGenerated s E (Root.squareRoot s) :=
  isGenerated_root hcounts rfl h

theorem isGenerated_negateOnOdd : negateOnOdd.IsGenerated s E (Auxiliary.negateOnOdd s) :=
  isGenerated_quantize 0 rfl .nil (List.forall_mem_nil _)

theorem isGenerated_length : length.IsGenerated s E (Auxiliary.length s) :=
  isGenerated_quantize 0 rfl .nil (List.forall_mem_nil _)

end Functions

/-! ### The families -/

section Families

variable {s : Setting} {E : Prop}

/-- The functions of a list have their fits. -/
def AreSupplied (s : Setting) (E : Prop) (Fs : List LibraryFunction) : Prop :=
  ∀ F ∈ Fs, F.IsSupplied s E

theorem singlePass_ends (hcounts : E ∨ s.HasCounts)
    (h : AreSupplied s E [.sine .singlePass, .cosine .singlePass, .tangent, .sineCosine])
    (htests : ∀ r ∈ Trigonometric.tests s 8 8, r.IsBuildable) (events : Array Event) :
    Ends (Trigonometric.singlePass s) events
      (fun family _ => family.IsBuilt s
        [.sine .singlePass, .cosine .singlePass, .tangent, .sineCosine]
        (Trigonometric.tests s 8 8)) fun _ _ => E := by
  simp only [AreSupplied, List.forall_mem_cons] at h
  rw [Trigonometric.singlePass]
  generalize Trigonometric.tests s 8 8 = rs at htests ⊢
  refine (count_ends hcounts .singlePass _).bind fun n _ hn => ?_
  subst hn
  refine (isGenerated_singlePassSine h.1 _).bind fun sine _ hsine => ?_
  refine (isGenerated_singlePassCosine h.2.1 _).bind fun cosine _ hcosine => ?_
  refine (count_ends hcounts .tangent _).bind fun n _ hn => ?_
  subst hn
  refine (isGenerated_tangent h.2.2.1 _).bind fun tan _ htan => ?_
  refine (isGenerated_sineCosine _).bind fun pair _ hpair => ?_
  exact family_ends (.cons hsine (.cons hcosine (.cons htan (.cons hpair .nil)))) htests _

theorem quadrants_ends (hcounts : E ∨ s.HasCounts)
    (h : AreSupplied s E [.sine .quadrant, .cosine .quadrant, .tangent, .sineCosine])
    (htests : ∀ r ∈ Trigonometric.tests s 3 4, r.IsBuildable) (events : Array Event) :
    Ends (Trigonometric.quadrants s) events
      (fun family _ => family.IsBuilt s
        [.sine .quadrant, .cosine .quadrant, .tangent, .sineCosine]
        (Trigonometric.tests s 3 4)) fun _ _ => E := by
  simp only [AreSupplied, List.forall_mem_cons] at h
  rw [Trigonometric.quadrants]
  generalize Trigonometric.tests s 3 4 = rs at htests ⊢
  refine (count_ends hcounts .quadrant _).bind fun n _ hn => ?_
  subst hn
  refine (isGenerated_quadrantSine h.1 _).bind fun sine _ hsine => ?_
  refine (isGenerated_quadrantCosine h.2.1 _).bind fun cosine _ hcosine => ?_
  refine (count_ends hcounts .tangent _).bind fun n _ hn => ?_
  subst hn
  refine (isGenerated_tangent h.2.2.1 _).bind fun tan _ htan => ?_
  refine (isGenerated_sineCosine _).bind fun pair _ hpair => ?_
  exact family_ends (.cons hsine (.cons hcosine (.cons htan (.cons hpair .nil)))) htests _

theorem inverseTrigonometric_ends (hcounts : E ∨ s.HasCounts)
    (h : AreSupplied s E [.arctangent, .arcsine, .arccosine])
    (htests : ∀ r ∈ InverseTrigonometric.tests s, r.IsBuildable) (events : Array Event) :
    Ends (InverseTrigonometric.family s) events
      (fun family _ => family.IsBuilt s [.arctangent, .arcsine, .arccosine]
        (InverseTrigonometric.tests s)) fun _ _ => E := by
  simp only [AreSupplied, List.forall_mem_cons] at h
  rw [InverseTrigonometric.family]
  generalize InverseTrigonometric.tests s = rs at htests ⊢
  refine (count_ends hcounts .arcsine _).bind fun n _ hn => ?_
  refine (count_ends hcounts .arctangent _).bind fun m _ hm => ?_
  subst hn hm
  refine (isGenerated_arctangent h.1 _).bind fun atan _ hatan => ?_
  refine (isGenerated_arcsine h.2.1 _).bind fun asin _ hasin => ?_
  refine (isGenerated_arccosine h.2.2.1 _).bind fun acos _ hacos => ?_
  exact family_ends (.cons hatan (.cons hasin (.cons hacos .nil))) htests _

theorem exponential_ends (hwidth : (s.numberType.precision.format.bitSize : Int) = s.width)
    (hcounts : E ∨ s.HasCounts)
    (h : AreSupplied s E [.exponential, .binaryExponential, .logarithm .natural, .logarithm .two,
      .logarithm .ten])
    (htests : ∀ r ∈ Exponential.tests s, r.IsBuildable) (events : Array Event) :
    Ends (Exponential.family s) events
      (fun family _ => family.IsBuilt s
        [.exponential, .binaryExponential, .logarithm .natural, .logarithm .two, .logarithm .ten]
        (Exponential.tests s)) fun _ _ => E := by
  simp only [AreSupplied, List.forall_mem_cons] at h
  rw [Exponential.family]
  generalize Exponential.tests s = rs at htests ⊢
  refine (count_ends hcounts .exponential _).bind fun n _ hn => ?_
  refine (count_ends hcounts .logarithm _).bind fun m _ hm => ?_
  subst hn hm
  refine (isGenerated_exponential hwidth h.1 _).bind fun exp _ hexp => ?_
  refine (isGenerated_binaryExponential h.2.1 _).bind fun exp2 _ hexp2 => ?_
  refine (isGenerated_logarithm h.2.2.1 _).bind fun ln _ hln => ?_
  refine (isGenerated_logarithm h.2.2.2.1 _).bind fun log2 _ hlog2 => ?_
  refine (isGenerated_logarithm h.2.2.2.2.1 _).bind fun log10 _ hlog10 => ?_
  exact family_ends (.cons hexp (.cons hexp2 (.cons hln (.cons hlog2 (.cons hlog10 .nil)))))
    htests _

theorem hyperbolic_ends (hcounts : E ∨ s.HasCounts)
    (h : AreSupplied s E [.hyperbolicSine, .hyperbolicCosine, .hyperbolicTangent])
    (htests : ∀ r ∈ Hyperbolic.tests s, r.IsBuildable) (events : Array Event) :
    Ends (Hyperbolic.family s) events
      (fun family _ => family.IsBuilt s [.hyperbolicSine, .hyperbolicCosine, .hyperbolicTangent]
        (Hyperbolic.tests s)) fun _ _ => E := by
  simp only [AreSupplied, List.forall_mem_cons] at h
  rw [Hyperbolic.family]
  generalize Hyperbolic.tests s = rs at htests ⊢
  refine (count_ends hcounts .hyperbolicSine _).bind fun n _ hn => ?_
  subst hn
  refine (isGenerated_hyperbolicSine h.1 _).bind fun sinh _ hsinh => ?_
  refine (count_ends hcounts .hyperbolicCosine _).bind fun n _ hn => ?_
  subst hn
  refine (isGenerated_hyperbolicCosine h.2.1 _).bind fun cosh _ hcosh => ?_
  refine (count_ends hcounts .hyperbolicTangent _).bind fun n _ hn => ?_
  subst hn
  refine (isGenerated_hyperbolicTangent h.2.2.1 _).bind fun tanh _ htanh => ?_
  exact family_ends (.cons hsinh (.cons hcosh (.cons htanh .nil))) htests _

theorem root_ends (hcounts : E ∨ s.HasCounts)
    (h : AreSupplied s E [.reciprocal, .reciprocalRoot, .squareRoot])
    (htests : ∀ r ∈ Root.tests s, r.IsBuildable) (events : Array Event) :
    Ends (Root.family s) events
      (fun family _ => family.IsBuilt s [.reciprocal, .reciprocalRoot, .squareRoot]
        (Root.tests s)) fun _ _ => E := by
  simp only [AreSupplied, List.forall_mem_cons] at h
  rw [Root.family]
  generalize Root.tests s = rs at htests ⊢
  refine (isGenerated_reciprocal hcounts h.1 _).bind fun recip _ hrecip => ?_
  refine (isGenerated_reciprocalRoot hcounts h.2.1 _).bind fun recipSqrt _ hrecipSqrt => ?_
  refine (isGenerated_squareRoot hcounts h.2.2.1 _).bind fun sqrt _ hsqrt => ?_
  exact family_ends (.cons hrecip (.cons hrecipSqrt (.cons hsqrt .nil))) htests _

theorem auxiliary_ends (htests : ∀ r ∈ Auxiliary.tests s, r.IsBuildable) (events : Array Event) :
    Ends (Auxiliary.family s) events
      (fun family _ => family.IsBuilt s [.negateOnOdd, .length] (Auxiliary.tests s))
      fun _ _ => E := by
  rw [Auxiliary.family]
  generalize Auxiliary.tests s = rs at htests ⊢
  refine (isGenerated_negateOnOdd _).bind fun negate _ hnegate => ?_
  refine (isGenerated_length _).bind fun hypot _ hhypot => ?_
  exact family_ends (.cons hnegate (.cons hhypot .nil)) htests _

end Families

end Elementary
