import Elementary.Proofs.Native.Test

/-!
# Python tests run like their trials

A test in Python computes in variables of its own, of which the variable of its expressions is one.
Whatever the names of the module stand for, the test runs like the trial of its test case, unless
two names meet: the variable is assigned before the reference and the candidate are evaluated, and
what the test assigns in between, or reads behind it, must not bear its name. The other variables of
the test may, since they are assigned anew before they are read.

Between the reference and the candidate only the former is assigned. A candidate over a variable of
its name is evaluated at the value of the reference.

The statements are followed one by one. What is kept from sample to sample is the largest error.

## Main definitions

* `Interpretation.trial`: what the test of a test case is meant to compute.
* `Interpretation.writtenTrial`: what it computes.
* `IsApart`: the names of a test case do not meet those of its test.

## Main results

* `sampleBody_mirrors`: a test at a sample does the step of its trial.
* `exists_runTest`: the test of a test case runs like its trial as it is written.
* `Interpretation.writtenTrial_eq`: that is the trial it is meant to be unless the variable is
  called like the reference.
-/

namespace Elementary.Native

open Function (update update_self)

variable {Obj : Type}

/-! ### What a test is meant to compute -/

/-- The unit in which a test measures its error. -/
def unitTerm (nt : NumberType) (mode : ErrorMode) : Term :=
  .callOf "ulp_scale" [.name "reference", .integer nt.precision.format.fieldSize,
    .integer nt.precision.format.minNormalExponent, .truth (mode == .relative)]

/-- The error at a sample. -/
def errorTerm : Term :=
  .binary .div (.callOf "abs" [.binary .sub (.callOf "float" [.name "candidate"])
    (.callOf "float" [.name "reference"])]) (.name "scale")

/-- The conditions under which an error becomes the largest one. -/
def exceedsTerms : List Term :=
  [.call (.field (.name "math") "isnan") [.name "error"],
    .comparison .greater (.name "error") (.name "max_error")]

namespace Interpretation

/-- **The value of an expression** in a style, where just some variables are. -/
def valueOf (I : Interpretation Obj) (s : Style) (bindings : List (String × Obj)) (e : Expr) :
    Except Failure Obj := do
  (← lower s e).denote I (I.within bindings)

/-- A function of the library applied to objects. -/
def libraryCall (I : Interpretation Obj) (function : String) (arguments : List Obj) :
    Except Failure Obj := do
  I.call (← (Term.library function).denote I I.global) arguments

/-- **The trial of a test case.** A sample is brought to the tested format, and both expressions are
evaluated where their variable has that value and there is no other variable. -/
def trial (I : Interpretation Obj) (nt : NumberType) (t : TestCase) : Trial Obj Unit where
  samples := do
    let low ← I.valueOf ⟨nt, false⟩ [] t.low.expr
    let high ← I.valueOf ⟨nt, false⟩ [] t.high.expr
    let samples ← I.elements (← I.libraryCall "linspace" [low, high, I.integer t.sampleCount])
    return samples.map fun sample => I.libraryCall (scalarType nt.precision) [sample]
  start := .ok (I.float Datum.zero)
  reference x := I.valueOf ⟨nt, true⟩ [(t.argument, x)] t.reference
  candidate x := I.valueOf ⟨nt, false⟩ [(t.argument, x)] t.candidate
  error reference candidate := do
    let scale ← (unitTerm nt t.mode).denote I (I.within [("reference", reference)])
    errorTerm.denote I
      (I.within [("candidate", candidate), ("reference", reference), ("scale", scale)])
  update largest error := do
    return if ← Term.anyTrue I (I.within [("error", error), ("max_error", largest)]) exceedsTerms
      then error else largest
  conclude largest := do
    let bound ← t.maxErrorDatum
    if ← I.isTrue (← I.compare .lessOrEqual largest (I.float bound)) then return ()
    else .error .requirement

/-- What the candidate of a test **finds in its variable**: the sample, or the reference if it bears
that name. -/
def seenByCandidate (I : Interpretation Obj) (nt : NumberType) (t : TestCase) (sample : Obj) :
    Except Failure Obj :=
  if t.argument = "reference" then (I.trial nt t).reference sample else .ok sample

/-- **The trial as it is written.** -/
def writtenTrial (I : Interpretation Obj) (nt : NumberType) (t : TestCase) : Trial Obj Unit :=
  { I.trial nt t with
    candidate := fun sample => do
      I.valueOf ⟨nt, false⟩ [(t.argument, ← I.seenByCandidate nt t sample)] t.candidate }

/-- Under any other name, a trial is what it is meant to be. -/
theorem writtenTrial_eq {I : Interpretation Obj} {nt : NumberType} {t : TestCase}
    (h : t.argument ≠ "reference") : I.writtenTrial nt t = I.trial nt t := by
  simp only [writtenTrial, seenByCandidate, if_neg h, ok_bind]
  rfl

end Interpretation

/-! ### The names of a test -/

/-- The variables of every test. -/
def testVariables : List String :=
  ["lo", "hi", "max_error", "sample", "reference", "candidate", "scale", "error"]

/-- The names outside of a test with which it is written. -/
def testGlobals : List String := reservedNames ++ ["math", "float", "abs", "ulp_scale"]

/-- **Names that do not meet.** The variable of a test case is neither the one that is kept from
sample to sample, nor a name from outside that the test needs; the functions that are called are no
variables of the test. -/
structure IsApart (functions : List (String × Nat)) (t : TestCase) : Prop where
  ne_largest : t.argument ≠ "max_error"
  not_global : t.argument ∉ testGlobals
  function : ∀ f ∈ functions, f.1 ∉ testVariables ∧ f.1 ≠ t.argument

instance (functions : List (String × Nat)) (t : TestCase) : Decidable (IsApart functions t) :=
  decidable_of_iff (t.argument ≠ "max_error" ∧ t.argument ∉ testGlobals ∧
      ∀ f ∈ functions, f.1 ∉ testVariables ∧ f.1 ≠ t.argument)
    ⟨fun ⟨hlargest, hglobal, hfunction⟩ => ⟨hlargest, hglobal, hfunction⟩,
      fun ⟨hlargest, hglobal, hfunction⟩ => ⟨hlargest, hglobal, hfunction⟩⟩

/-! ### The run of a test -/

section Run

variable {I : Interpretation Obj} {nt nt' : NumberType} {functions : List (String × Nat)}
  {t : TestCase} {own : List String} {env : Variables Obj} {bindings : List (String × Obj)}

/-- Some names **mean in a function** what they mean where just some variables are. -/
def Agree (own : List String) (env : Variables Obj) (bindings : List (String × Obj))
    (names : List String) : Prop :=
  ∀ id ∈ names, (id ∈ own ↔ id ∈ bindings.map Prod.fst) ∧ (id ∈ own → env id = bindings.lookup id)

theorem Agree.lookup_eq {names : List String} (h : Agree own env bindings names)
    (I : Interpretation Obj) : ∀ id ∈ names, I.lookup own env id = I.within bindings id := by
  intro id hid
  obtain ⟨hown, henv⟩ := h id hid
  rw [Interpretation.within, Interpretation.lookup, Interpretation.lookup]
  by_cases hmem : id ∈ own
  · rw [if_pos hmem, if_pos (hown.mp hmem), henv hmem]
  · rw [if_neg hmem, if_neg (mt hown.mpr hmem)]

/-- The names that the test of a test case assigns. -/
def testOwn (t : TestCase) : List String :=
  ["lo", "hi", "max_error", "sample", t.argument, "reference", "candidate", "scale", "error",
    "max_error"]

theorem mem_testOwn {id : String} : id ∈ testOwn t ↔ id = t.argument ∨ id ∈ testVariables := by
  simp only [testOwn, testVariables, List.mem_cons, List.not_mem_nil, or_false]
  tauto

/-- What a test needs from outside is none of its variables. -/
theorem IsApart.global_not_mem (h : IsApart functions t) {id : String} (hid : id ∈ testGlobals) :
    id ∉ testOwn t := by
  have hvariables : ∀ id ∈ testGlobals, id ∉ testVariables := by decide
  rw [mem_testOwn, not_or]
  exact ⟨fun heq => h.not_global (heq ▸ hid), hvariables id hid⟩

/-- The functions that are called are none of its variables. -/
theorem IsApart.function_not_mem (h : IsApart functions t) {f : String × Nat} (hf : f ∈ functions) :
    f.1 ∉ testOwn t := by
  rw [mem_testOwn, not_or]
  exact ⟨(h.function f hf).2, (h.function f hf).1⟩

/-- **An expression in a test** has the value that it has where just its variables are. -/
theorem denote_lower (h : IsApart functions t) {S : NameScope} {e : Expr} {s : Style} {u : Term}
    (he : e.Quantized S nt') (hu : lower s e = .ok u)
    (hfunctions : ∀ f ∈ S.functions, f ∈ functions) (bindings : List (String × Obj))
    (hnames : bindings.map Prod.fst = S.names)
    (hown : ∀ id ∈ S.names, id ∈ testOwn t ∧ env id = bindings.lookup id) :
    u.denote I (I.lookup (testOwn t) env) = I.valueOf s bindings e := by
  have hagree : Agree (testOwn t) env bindings u.names := by
    intro id hid
    rw [hnames]
    by_cases hmem : id ∈ S.names
    · exact ⟨iff_of_true (hown id hmem).1 hmem, fun _ => (hown id hmem).2⟩
    · have hnot : id ∉ testOwn t := by
        rcases names_lower he.wellFormed he.finiteCodings hu hid with hreserved | hmentions
        · exact h.global_not_mem (List.mem_append_left _ hreserved)
        · obtain ⟨f, hf, rfl⟩ := (hmentions.mem_scope he).resolve_left hmem
          exact h.function_not_mem (hfunctions f hf)
      exact ⟨iff_of_false hnot hmem, fun hmem => absurd hmem hnot⟩
  rw [Interpretation.valueOf, hu, u.denote_congr (hagree.lookup_eq I)]
  rfl

/-- Names of variables of every test, and names from outside, mean what they mean where just these
variables are. -/
theorem agree_template (h : IsApart functions t) (names keys : List String)
    (hnames : ∀ id ∈ names, id ∈ keys ∨ id ∈ testGlobals) (hkeys : ∀ id ∈ keys, id ∈ testVariables)
    (bindings : List (String × Obj)) (hbindings : bindings.map Prod.fst = keys)
    (henv : ∀ id ∈ keys, env id = bindings.lookup id) : Agree (testOwn t) env bindings names := by
  intro id hid
  rw [hbindings]
  by_cases hmem : id ∈ keys
  · exact ⟨iff_of_true (mem_testOwn.mpr (.inr (hkeys id hmem))) hmem, fun _ => henv id hmem⟩
  · have hnot := h.global_not_mem ((hnames id hid).resolve_left hmem)
    exact ⟨iff_of_false hnot hmem, fun hown => absurd hown hnot⟩

/-- The unit of a test, where its reference has a value. -/
theorem denote_unitTerm (h : IsApart functions t) (reference : Obj)
    (hreference : env "reference" = some reference) :
    (unitTerm nt t.mode).denote I (I.lookup (testOwn t) env) =
      (unitTerm nt t.mode).denote I (I.within [("reference", reference)]) :=
  (unitTerm nt t.mode).denote_congr <|
    (agree_template h ["ulp_scale", "reference"] ["reference"] (by decide) (by decide)
      [("reference", reference)] rfl (by simp [hreference])).lookup_eq I

/-- The error of a test, where both values and the unit are known. -/
theorem denote_errorTerm (h : IsApart functions t) (reference candidate scale : Obj)
    (hreference : env "reference" = some reference) (hcandidate : env "candidate" = some candidate)
    (hscale : env "scale" = some scale) :
    errorTerm.denote I (I.lookup (testOwn t) env) = errorTerm.denote I
      (I.within [("candidate", candidate), ("reference", reference), ("scale", scale)]) :=
  errorTerm.denote_congr <|
    (agree_template h errorTerm.names ["candidate", "reference", "scale"] (by decide) (by decide) _
      rfl (by simp [List.lookup_cons, hreference, hcandidate, hscale])).lookup_eq I

/-- A call of a function of the library, where nothing hides the library. -/
theorem denote_libraryCall (hlibrary : "np" ∉ own) {function : String} {arguments : List Term}
    {vs : List Obj} (hvs : Term.denoteAll I (I.lookup own env) arguments = .ok vs) :
    (Term.call (.library function) arguments).denote I (I.lookup own env) =
      I.libraryCall function vs := by
  have hname : I.lookup own env "np" = I.global "np" := if_neg hlibrary
  rw [Term.denote, hvs, Interpretation.libraryCall, Term.library, Term.denote, Term.denote,
    Term.denote, hname]
  rfl

/-- A variable that has a value. -/
theorem denote_name {id : String} (hown : id ∈ own) (v : Obj) (hv : env id = some v) :
    (Term.name id).denote I (I.lookup own env) = .ok v := by
  rw [Term.denote, Interpretation.lookup, if_pos hown, hv]

theorem runAll_assignment (name : String) (value : Term) (ss : List Statement) :
    Statement.runAll I own (.assignment name value :: ss) env =
      value.denote I (I.lookup own env) >>= fun v =>
        Statement.runAll I own ss (update env name (some v)) := by
  rw [Statement.runAll, Statement.run]
  cases value.denote I (I.lookup own env) <;> rfl

/-- What a test keeps from sample to sample. -/
def updateStatement : Statement :=
  .conditional exceedsTerms [.assignment "max_error" (.name "error")]

/-- **The largest error** is kept. -/
theorem updateStatement_mirrors (h : IsApart functions t) {largest error : Obj}
    (hlargest : env "max_error" = some largest) (herror : env "error" = some error) :
    Mirrors (fun env largest => env "max_error" = some largest)
      (Statement.runAll I (testOwn t) [updateStatement] env)
      ((I.trial nt t).update largest error) := by
  have hown : "error" ∈ testOwn t := mem_testOwn.mpr (.inr (by decide))
  have hagree : Agree (testOwn t) env [("error", error), ("max_error", largest)]
      (Term.namesAll exceedsTerms) :=
    agree_template h _ ["error", "max_error"] (by decide) (by decide) _ rfl
      (by simp [List.lookup_cons, herror, hlargest])
  rw [updateStatement, Statement.runAll, Statement.run, Term.anyTrue_congr (hagree.lookup_eq I),
    bind_assoc]
  refine .same _ fun exceeds => ?_
  cases exceeds with
  | false => exact hlargest
  | true =>
    rw [if_pos rfl, runAll_assignment, denote_name hown error herror]
    exact update_self ..

/-- What a test does at a sample. -/
def sampleBody (nt : NumberType) (t : TestCase) (reference candidate : Term) : List Statement :=
  [.assignment t.argument (.call (.library (scalarType nt.precision)) [.name "sample"]),
    .assignment "reference" reference, .assignment "candidate" candidate,
    .assignment "scale" (unitTerm nt t.mode), .assignment "error" errorTerm, updateStatement]

/-- **A test at a sample** does the step of its trial as it is written, and keeps the largest
error. -/
theorem sampleBody_mirrors (ht : t.ReadsSample nt' functions) (h : IsApart functions t)
    {reference candidate : Term} (hreference : lower ⟨nt, true⟩ t.reference = .ok reference)
    (hcandidate : lower ⟨nt, false⟩ t.candidate = .ok candidate) {largest : Obj}
    (hlargest : env "max_error" = some largest) (sample : Obj) :
    Mirrors (fun env largest => env "max_error" = some largest)
      (Statement.runAll I (testOwn t) (sampleBody nt t reference candidate)
        (update env "sample" (some sample)))
      ((I.writtenTrial nt t).step largest (I.libraryCall (scalarType nt.precision) [sample])) := by
  have hargument : t.argument ∈ testOwn t := mem_testOwn.mpr (.inl rfl)
  have hsample : Term.denoteAll I (I.lookup (testOwn t) (update env "sample" (some sample)))
      [.name "sample"] = .ok [sample] := by
    rw [Term.denoteAll, denote_name (mem_testOwn.mpr (.inr (by decide))) sample (update_self ..)]
    rfl
  -- behind every assignment the value of its variable is known, and those of the earlier ones are
  -- still there: only the reference stands between the sample and the candidate
  rw [sampleBody, runAll_assignment, denote_libraryCall (h.global_not_mem (by decide)) hsample]
  refine .same _ fun x => ?_
  rw [runAll_assignment, denote_lower h ht.reference hreference (fun _ hf => hf)
    [(t.argument, x)] rfl (by simpa using hargument)]
  refine .sameValue _ fun r hr => ?_
  have hseen : I.seenByCandidate nt t x = .ok (if t.argument = "reference" then r else x) := by
    rw [Interpretation.seenByCandidate]
    split
    · exact hr
    · rfl
  rw [runAll_assignment, denote_lower h ht.candidate hcandidate (fun _ hf => hf)
    [(t.argument, if t.argument = "reference" then r else x)] rfl
    (by by_cases heq : t.argument = "reference" <;> simpa [heq] using hargument)]
  show Mirrors _ _ ((I.seenByCandidate nt t x >>= _) >>= _)
  rw [hseen, ok_bind]
  refine .same _ fun c => ?_
  rw [runAll_assignment, denote_unitTerm h r (by simp)]
  show Mirrors _ _ (((unitTerm nt t.mode).denote I (I.within [("reference", r)]) >>= _) >>= _)
  rw [bind_assoc]
  refine .same _ fun scale => ?_
  rw [runAll_assignment, denote_errorTerm h r c scale (by simp) (by simp) (by simp)]
  refine .same _ fun error => ?_
  show Mirrors _ _ ((I.trial nt t).update largest error)
  exact updateStatement_mirrors h (by simp [h.ne_largest.symm, hlargest]) (by simp)

/-- What a test claims of its largest error. -/
def boundStatement (t : TestCase) (bound : Datum) : Statement :=
  .assertion (.comparison .lessOrEqual (.name "max_error") (.float bound))
    (.string (t.name ++ " exceeds " ++ t.maxError.text ++ " ulp(s)"))

/-- **The claim of a test** is about the largest error. -/
theorem boundStatement_mirrors {bound : Datum} (hbound : t.maxErrorDatum = .ok bound)
    {largest : Obj} (hlargest : env "max_error" = some largest) :
    Mirrors (fun _ _ => True) (Statement.runAll I (testOwn t) [boundStatement t bound] env)
      ((I.trial nt t).conclude largest) := by
  have hown : "max_error" ∈ testOwn t := mem_testOwn.mpr (.inr (by decide))
  have hconclude : (I.trial nt t).conclude largest = (do
      if ← I.isTrue (← I.compare .lessOrEqual largest (I.float bound)) then return ()
      else .error .requirement) := by
    show (t.maxErrorDatum >>= _) = _
    rw [hbound]
    rfl
  rw [hconclude, boundStatement, Statement.runAll, Statement.run, Term.denote,
    denote_name hown largest hlargest, Term.denote, bind_assoc]
  refine .same _ fun v => ?_
  rw [bind_assoc]
  refine .same _ fun holds => ?_
  cases holds with
  | false => exact rfl
  | true => exact trivial

/-- The statements of a test. -/
def testBody (nt : NumberType) (t : TestCase) (low high reference candidate : Term)
    (bound : Datum) : List Statement :=
  [.assignment "lo" low, .assignment "hi" high, .assignment "max_error" (.float Datum.zero),
    .loop "sample" (.call (.library "linspace") [.name "lo", .name "hi", .integer t.sampleCount])
      (sampleBody nt t reference candidate),
    boundStatement t bound]

/-- **The statements of a test** run like its trial as it is written. -/
theorem testBody_mirrors (ht : t.ReadsSample nt' functions) (h : IsApart functions t)
    {low high reference candidate : Term} {bound : Datum}
    (hlow : lower ⟨nt, false⟩ t.low.expr = .ok low)
    (hhigh : lower ⟨nt, false⟩ t.high.expr = .ok high)
    (hreference : lower ⟨nt, true⟩ t.reference = .ok reference)
    (hcandidate : lower ⟨nt, false⟩ t.candidate = .ok candidate)
    (hbound : t.maxErrorDatum = .ok bound) :
    Mirrors (fun _ _ => True)
      (Statement.runAll I (testOwn t) (testBody nt t low high reference candidate bound)
        fun _ => none) (I.writtenTrial nt t).run := by
  have hown {id : String} (hid : id ∈ testVariables) : id ∈ testOwn t := mem_testOwn.mpr (.inr hid)
  rw [testBody, runAll_assignment, denote_lower h ht.low hlow (by simp) [] rfl (by simp)]
  show Mirrors _ _ ((_ >>= _) >>= _)
  rw [bind_assoc]
  refine .same _ fun lo => ?_
  rw [runAll_assignment, denote_lower h ht.high hhigh (by simp) [] rfl (by simp), bind_assoc]
  refine .same _ fun hi => ?_
  have hends : Term.denoteAll I (I.lookup (testOwn t) (update (update (update (fun _ => none) "lo"
      (some lo)) "hi" (some hi)) "max_error" (some (I.float Datum.zero))))
      [.name "lo", .name "hi", .integer t.sampleCount] = .ok [lo, hi, I.integer t.sampleCount] := by
    rw [Term.denoteAll, Term.denoteAll, denote_name (hown (by decide)) lo (by simp),
      denote_name (hown (by decide)) hi (by simp)]
    rfl
  rw [runAll_assignment, Term.denote, ok_bind, Statement.runAll, Statement.run,
    denote_libraryCall (h.global_not_mem (by decide)) hends, bind_assoc, bind_assoc]
  refine .same _ fun array => ?_
  rw [bind_assoc, bind_assoc]
  refine .same _ fun samples => ?_
  show Mirrors _ _ ((samples.map fun sample =>
    I.libraryCall (scalarType nt.precision) [sample]).foldlM (I.writtenTrial nt t).step
      (I.float Datum.zero) >>= (I.trial nt t).conclude)
  rw [List.foldlM_map]
  refine (Mirrors.foldlM (fun env largest sample hlargest =>
    sampleBody_mirrors ht h hreference hcandidate hlargest sample) samples ?_).bind
      fun env largest hlargest => boundStatement_mirrors hbound hlargest
  simp

/-- **The test of a test case** runs like its trial as it is written, whatever the names of its
module stand for. -/
theorem exists_runTest (ht : t.ReadsSample nt' functions) (h : IsApart functions t) :
    ∃ d, Definition.ofTest nt t = .ok d ∧
      ∀ (Obj : Type) (I : Interpretation Obj), d.runTest I = (I.writtenTrial nt t).run := by
  obtain ⟨low, hlow⟩ := exists_lower ⟨nt, false⟩ ht.low
  obtain ⟨high, hhigh⟩ := exists_lower ⟨nt, false⟩ ht.high
  obtain ⟨reference, hreference⟩ := exists_lower ⟨nt, true⟩ ht.reference
  obtain ⟨candidate, hcandidate⟩ := exists_lower ⟨nt, false⟩ ht.candidate
  obtain ⟨bound, hbound⟩ := ht.bound
  refine ⟨⟨"test_" ++ t.name, [], testBody nt t low high reference candidate bound⟩, ?_,
    fun Obj I => ?_⟩
  · rw [Definition.ofTest, hlow, hhigh, hreference, hcandidate, hbound]
    rfl
  · have hrun : Mirrors Eq (Definition.runTest I
        ⟨"test_" ++ t.name, [], testBody nt t low high reference candidate bound⟩)
        ((I.writtenTrial nt t).run >>= pure) :=
      (testBody_mirrors ht h hlow hhigh hreference hcandidate hbound).bind fun _ _ _ => rfl
    rw [bind_pure] at hrun
    exact hrun.eq

end Run

end Elementary.Native
