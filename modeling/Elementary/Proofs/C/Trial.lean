import Elementary.Proofs.C.Test

/-!
# C tests run like their trials

In the test of a test case the ends of the interval and the largest error belong to the block of the
function, and everything at a sample to that of the loop, with the variable of the expressions as
the first. Whatever the functions that are called do, the test runs like the trial of its test case,
unless that variable bears a name that the test declares or needs: in the block of the loop it would
be declared twice, and outside of it hidden.

## Main definitions

* `TestFunction.ofTest`: the test of a test case.
* `Interpretation.trial`: what it is meant to compute.
* `IsApart`: the names of a test case do not meet those of its test.

## Main results

* `exists_ofTest`: the test of a test case is what is written for it.
* `sampleBody_mirrors`: a round of the loop does the step of the trial.
* `run_ofTest`: the test of a test case runs like its trial.
-/

namespace Elementary.C

variable {Obj : Type}

/-! ### The test of a test case -/

/-- The type of errors, and of what they are computed from. -/
def widestType : String := "long double"

/-- The sample of a round, brought to the tested format. -/
def sampleTerm (p : Precision) (t : TestCase) : Term :=
  .cast (typeName p) <| .parenthesized <| .binary "+" (.identifier "lo") <|
    .binary "/" (.binary "*" (.parenthesized (.binary "-" (.identifier "hi") (.identifier "lo")))
      (.identifier "i")) (.literal (toString (max (t.sampleCount - 1) 1)))

/-- The unit in which a test measures its error. -/
def unitTerm (p : Precision) : ErrorMode → Term
  | .relative =>
    .call "ldexpl" [.literal "1.0L", .binary "-" (.call "ilogbl" [.call "fmaxl"
      [.call "fabsl" [.identifier "reference"],
        .literal ("0x1p" ++ toString p.format.minNormalExponent ++ "L")]])
      (.literal (toString p.format.fieldSize))]
  | .absolute => .literal ("0x1p-" ++ toString p.format.fieldSize ++ "L")

/-- The error at a sample. -/
def errorTerm : Term :=
  .binary "/" (.call "fabsl" [.binary "-" (.identifier "candidate") (.identifier "reference")])
    (.identifier "scale")

/-- The conditions under which an error becomes the largest one. -/
def exceedsTerms : List Term :=
  [.call "isnan" [.identifier "error"],
    .binary ">" (.identifier "error") (.identifier "max_error")]

/-- The comparison of the largest error with the bound. -/
def boundTerm (bound : Datum) : Term :=
  .binary "<=" (.identifier "max_error") (.literal (bound.text Precision.double.format))

/-- What a test does at a sample. -/
def sampleBody (p : Precision) (t : TestCase) (reference candidate : Term) : List TestStatement :=
  [.declaration (typeName p) t.argument (sampleTerm p t),
    .declaration widestType "reference" reference, .declaration widestType "candidate" candidate,
    .declaration widestType "scale" (unitTerm p t.mode), .declaration widestType "error" errorTerm,
    .update exceedsTerms "max_error" (.identifier "error")]

/-- **The test of a test case** with the terms of its expressions. -/
def testFunction (p : Precision) (t : TestCase) (low high reference candidate : Term)
    (bound : Datum) : TestFunction where
  name := t.name
  body := [.declaration "double" "lo" low, .declaration "double" "hi" high,
    .declaration widestType "max_error" (.literal "0.0L"),
    .loop "i" t.sampleCount (sampleBody p t reference candidate)]
  result := boundTerm bound

/-- The test of a test case, **whose expressions need forms in C**. -/
def TestFunction.ofTest (p : Precision) (t : TestCase) : Except Failure TestFunction := do
  let low ← lower p (suffixOf p) t.low.expr
  let high ← lower p (suffixOf p) t.high.expr
  let reference ← lower p widestSuffix t.reference
  let candidate ← lower p (suffixOf p) t.candidate
  return testFunction p t low high reference candidate (← t.maxErrorDatum)

theorem text_unitTerm (p : Precision) (mode : ErrorMode) :
    (unitTerm p mode).text = unitText p mode := by
  cases p <;> cases mode <;> decide +kernel

/-- How the test of a test case is written. -/
theorem text_testFunction (p : Precision) (t : TestCase) (low high reference candidate : Term)
    (bound : Datum) : (testFunction p t low high reference candidate bound).text =
      testText p t low high reference candidate bound := by
  have hunit := text_unitTerm p t.mode
  have hcast (s : String) : " = " ++ ("(" ++ s) = " = (" ++ s := by
    rw [← String.append_assoc]
    rfl
  have hsample (s : String) : ") " ++ ("(" ++ ("lo + " ++ ("(hi - lo) * i / " ++ s))) =
      ") (lo + (hi - lo) * i / " ++ s := by
    rw [← String.append_assoc, ← String.append_assoc, ← String.append_assoc]
    rfl
  have hresult (s : String) :
      "return " ++ ("max_error <= " ++ s) = "return max_error <= " ++ s := by
    rw [← String.append_assoc]
    rfl
  simp only [testFunction, TestFunction.text, TestStatement.texts, TestStatement.text, sampleBody,
    hunit, testText]
  simp [boundTerm, sampleTerm, errorTerm, exceedsTerms, widestType, Term.text, Term.texts,
    String.append_assoc, hcast, hsample, hresult]

/-! ### What a test is meant to compute -/

/-- A variable of the widest type with a value. -/
def widest (v : Obj) : Variable Obj := ⟨widestType, some v⟩

namespace Interpretation

/-- **The value of an expression** with the library functions of a suffix, where just some variables
are declared. -/
def valueOf (I : Interpretation Obj) (p : Precision) (suffix : String) (env : Variables Obj)
    (e : Expr) : Except Failure Obj := do
  (← lower p suffix e).denote I env.find?

/-- **The sample of a round**, brought to the tested format. -/
def sampleAt (I : Interpretation Obj) (p : Precision) (t : TestCase) (low high : Obj) (k : Nat) :
    Except Failure Obj := do
  I.convert (typeName p) (← (sampleTerm p t).denote I (Variables.find?
    [("i", ⟨"int", some (I.integer k)⟩), ("hi", ⟨"double", some high⟩),
      ("lo", ⟨"double", some low⟩)]))

/-- **The trial of a test case.** Both expressions are evaluated where their variable has the sample
as its value and there is no other variable. -/
def trial (I : Interpretation Obj) (p : Precision) (t : TestCase) : Trial Obj Obj where
  samples := do
    let low ← I.convert "double" (← I.valueOf p (suffixOf p) [] t.low.expr)
    let high ← I.convert "double" (← I.valueOf p (suffixOf p) [] t.high.expr)
    return (List.range t.sampleCount.toNat).map (I.sampleAt p t low high)
  start := I.convert widestType (I.literal "0.0L")
  reference x := do
    let sample : Variable Obj := ⟨typeName p, some x⟩
    I.convert widestType (← I.valueOf p widestSuffix [(t.argument, sample)] t.reference)
  candidate x := do
    let sample : Variable Obj := ⟨typeName p, some x⟩
    I.convert widestType (← I.valueOf p (suffixOf p) [(t.argument, sample)] t.candidate)
  error reference candidate := do
    let scale ← I.convert widestType (← (unitTerm p t.mode).denote I
      (Variables.find? [("reference", widest reference)]))
    I.convert widestType (← errorTerm.denote I (Variables.find?
      [("scale", widest scale), ("candidate", widest candidate), ("reference", widest reference)]))
  update largest error := do
    if ← Term.anyTrue I (Variables.find? [("error", widest error), ("max_error", widest largest)])
      exceedsTerms then I.convert widestType error
    else return largest
  conclude largest := do
    (boundTerm (← t.maxErrorDatum)).denote I (Variables.find? [("max_error", widest largest)])

end Interpretation

/-! ### The names of a test -/

/-- The variables of a round that are computed from its sample. -/
def roundVariables : List String := ["reference", "candidate", "scale", "error"]

/-- The variables of every test. -/
def testVariables : List String :=
  ["lo", "hi", "max_error", "i", "reference", "candidate", "scale", "error"]

/-- The names of functions and types with which a test is written. -/
def testGlobals (p : Precision) : List String :=
  emittedNames (suffixOf p) ++ emittedNames widestSuffix ++ typeNames ++ ["fmaxl", "isnan"]

/-- **Names that do not meet.** The variable of a test case is no variable that every test declares,
and no name that a test is written with; the functions that are called are no variables of the
test. -/
structure IsApart (p : Precision) (functions : List (String × Nat)) (t : TestCase) : Prop where
  not_variable : t.argument ∉ testVariables
  not_global : t.argument ∉ testGlobals p
  function : ∀ f ∈ functions, f.1 ∉ testVariables ∧ f.1 ≠ t.argument

instance (p : Precision) (functions : List (String × Nat)) (t : TestCase) :
    Decidable (IsApart p functions t) :=
  decidable_of_iff (t.argument ∉ testVariables ∧ t.argument ∉ testGlobals p ∧
      ∀ f ∈ functions, f.1 ∉ testVariables ∧ f.1 ≠ t.argument)
    ⟨fun ⟨hvariable, hglobal, hfunction⟩ => ⟨hvariable, hglobal, hfunction⟩,
      fun ⟨hvariable, hglobal, hfunction⟩ => ⟨hvariable, hglobal, hfunction⟩⟩

/-! ### The run of a test -/

section Run

variable {I : Interpretation Obj} {p : Precision} {functions : List (String × Nat)} {t : TestCase}
  {env bindings : Variables Obj}

/-- Variables **of a test**: no others are declared in it. -/
def AreOwn (t : TestCase) (env : Variables Obj) : Prop :=
  ∀ id ∈ env.map Prod.fst, id = t.argument ∨ id ∈ testVariables

/-- What a test needs from outside is not declared in it. -/
theorem IsApart.global_not_declared (h : IsApart p functions t) (henv : AreOwn t env) {id : String}
    (hid : id ∈ testGlobals p) : env.find? id = none := by
  have hvariables : ∀ id ∈ testGlobals p, id ∉ testVariables := by cases p <;> decide
  refine Variables.find?_eq_none fun hmem => ?_
  rcases henv id hmem with rfl | hvariable
  · exact h.not_global hid
  · exact hvariables id hid hvariable

/-- The functions that are called are not declared in it. -/
theorem IsApart.function_not_declared (h : IsApart p functions t) (henv : AreOwn t env)
    {f : String × Nat} (hf : f ∈ functions) : env.find? f.1 = none :=
  Variables.find?_eq_none fun hmem =>
    (henv f.1 hmem).elim (h.function f hf).2 (h.function f hf).1

/-- **An expression in a test** has the value that it has where just its variables are declared. -/
theorem denote_lower (h : IsApart p functions t) {S : NameScope} {nt : NumberType} {e : Expr}
    {suffix : String} {u : Term} (he : e.Quantized S nt) (hu : lower p suffix e = .ok u)
    (hsuffix : ∀ id ∈ emittedNames suffix ++ typeNames, id ∈ testGlobals p)
    (hfunctions : ∀ f ∈ S.functions, f ∈ functions) (bindings : Variables Obj)
    (hnames : bindings.map Prod.fst = S.names) (henv : AreOwn t env)
    (hsame : ∀ id ∈ S.names, env.find? id = bindings.find? id) :
    u.denote I env.find? = I.valueOf p suffix bindings e := by
  have hagree : ∀ id ∈ u.names, env.find? id = bindings.find? id := by
    intro id hid
    by_cases hmem : id ∈ S.names
    · exact hsame id hmem
    · have hnone : bindings.find? id = none := Variables.find?_eq_none (hnames ▸ hmem)
      rw [hnone]
      rcases names_lower he.wellFormed he.finiteCodings hu hid with hemitted | hmentions
      · exact h.global_not_declared henv (hsuffix id hemitted)
      · obtain ⟨f, hf, rfl⟩ := (hmentions.mem_scope he).resolve_left hmem
        exact h.function_not_declared henv (hfunctions f hf)
  rw [Interpretation.valueOf, hu, u.denote_congr hagree]
  rfl

/-- Names of declared variables, and names from outside, mean what they mean where just these
variables are declared. -/
theorem agree_template (h : IsApart p functions t) (henv : AreOwn t env) {names : List String}
    (bindings : Variables Obj) (keys : List String)
    (hnames : ∀ id ∈ names, id ∈ keys ∨ id ∈ testGlobals p) (hkeys : bindings.map Prod.fst = keys)
    (hsame : ∀ id ∈ keys, env.find? id = bindings.find? id) :
    ∀ id ∈ names, env.find? id = bindings.find? id := by
  intro id hid
  by_cases hmem : id ∈ keys
  · exact hsame id hmem
  · have hnone : bindings.find? id = none := Variables.find?_eq_none (hkeys ▸ hmem)
    rw [hnone]
    exact h.global_not_declared henv ((hnames id hid).resolve_left hmem)

/-- The sample of a round, where the ends of the interval and the counter have values. -/
theorem denote_sampleTerm (h : IsApart p functions t) (henv : AreOwn t env) (lo hi : Obj) (k : Nat)
    (hcounter : env.find? "i" = some ⟨"int", some (I.integer k)⟩)
    (hhi : env.find? "hi" = some ⟨"double", some hi⟩)
    (hlo : env.find? "lo" = some ⟨"double", some lo⟩) :
    (sampleTerm p t).denote I env.find? >>= I.convert (typeName p) = I.sampleAt p t lo hi k := by
  have htype : typeName p ∈ testGlobals p := by cases p <;> decide
  rw [Term.denote_congr _ (agree_template h henv
    [("i", ⟨"int", some (I.integer k)⟩), ("hi", ⟨"double", some hi⟩), ("lo", ⟨"double", some lo⟩)]
    ["i", "hi", "lo"] (by simp [sampleTerm, Term.names, htype]) rfl (by simp [hcounter, hhi, hlo]))]
  rfl

/-- The unit of a test, where its reference has a value. -/
theorem denote_unitTerm (h : IsApart p functions t) (henv : AreOwn t env) (reference : Obj)
    (hreference : env.find? "reference" = some (widest reference)) :
    (unitTerm p t.mode).denote I env.find? =
      (unitTerm p t.mode).denote I (Variables.find? [("reference", widest reference)]) := by
  refine Term.denote_congr _ (agree_template h henv _ ["reference"] ?_ rfl (by simp [hreference]))
  cases t.mode <;> cases p <;> decide

/-- The error of a test, where both values and the unit are known. -/
theorem denote_errorTerm (h : IsApart p functions t) (henv : AreOwn t env)
    (reference candidate scale : Obj)
    (hreference : env.find? "reference" = some (widest reference))
    (hcandidate : env.find? "candidate" = some (widest candidate))
    (hscale : env.find? "scale" = some (widest scale)) :
    errorTerm.denote I env.find? = errorTerm.denote I (Variables.find?
      [("scale", widest scale), ("candidate", widest candidate),
        ("reference", widest reference)]) := by
  refine Term.denote_congr _ (agree_template h henv _ ["scale", "candidate", "reference"] ?_ rfl
    (by simp [hreference, hcandidate, hscale]))
  cases p <;> decide

theorem runAll_declaration (type name : String) (value : Term) (ss : List TestStatement) :
    TestStatement.runAll I (.declaration type name value :: ss) env =
      (value.denote I (Variables.find? ((name, ⟨type, none⟩) :: env)) >>= I.convert type) >>=
        fun v => TestStatement.runAll I ss ((name, ⟨type, some v⟩) :: env) := by
  rw [TestStatement.runAll, TestStatement.run, bind_assoc, bind_assoc]
  refine bind_congr fun v => ?_
  cases I.convert type v <;> rfl

/-- The variables of the function, outside of its loop. -/
def outer (lo hi largest : Obj) : Variables Obj :=
  [("max_error", widest largest), ("hi", ⟨"double", some hi⟩), ("lo", ⟨"double", some lo⟩)]

/-- The variables of a round, with what they get their values from. -/
def inner (p : Precision) (t : TestCase) (k x reference candidate scale error : Obj) :
    Variables Obj :=
  [("error", widest error), ("scale", widest scale), ("candidate", widest candidate),
    ("reference", widest reference), (t.argument, ⟨typeName p, some x⟩), ("i", ⟨"int", some k⟩)]

/-- **The largest error** is kept. -/
theorem update_mirrors (h : IsApart p functions t)
    (lo hi largest k x reference candidate scale error : Obj) :
    Mirrors (fun env largest => env = outer lo hi largest)
      (do
        let env ← TestStatement.runAll I [.update exceedsTerms "max_error" (.identifier "error")]
          (inner p t k x reference candidate scale error ++ outer lo hi largest)
        return env.drop (env.length - (outer lo hi largest).length))
      ((I.trial p t).update largest error) := by
  have hmax : t.argument ≠ "max_error" := fun heq => h.not_variable (heq ▸ by decide)
  generalize henv : inner p t k x reference candidate scale error ++ outer lo hi largest = env
  have hown : AreOwn t env := by simp [← henv, AreOwn, inner, outer, testVariables]
  have herror : env.find? "error" = some (widest error) := by simp [← henv, inner]
  have hlargest : env.find? "max_error" = some (widest largest) := by
    simp [← henv, inner, outer, hmax.symm]
  have hagree : ∀ id ∈ Term.namesAll exceedsTerms, env.find? id =
      Variables.find? [("error", widest error), ("max_error", widest largest)] id :=
    agree_template h hown _ ["error", "max_error"] (by cases p <;> decide) rfl
      (by simp [herror, hlargest])
  rw [TestStatement.runAll, TestStatement.run, Term.anyTrue_congr hagree, bind_assoc, bind_assoc]
  refine .same _ fun exceeds => ?_
  cases exceeds with
  | false =>
    rw [← henv]
    rfl
  | true =>
    have hvalue : (Term.identifier "error").denote I env.find? = .ok error := by
      rw [Term.denote, herror]
      rfl
    simp only [if_true, hlargest, hvalue]
    have hassign (v : Obj) : env.assign "max_error" v =
        inner p t k x reference candidate scale error ++ outer lo hi v := by
      simp [← henv, inner, outer, widest, Variables.assign, hmax]
    show Mirrors _ ((I.convert widestType error >>= _) >>= _) (I.convert widestType error)
    cases I.convert widestType error with
    | error _ => rfl
    | ok v =>
      show Mirrors _ (TestStatement.runAll I [] (env.assign "max_error" v) >>= _) _
      rw [hassign]
      rfl

/-- **A round of a test** does the step of its trial, and leaves the variables of the function with
the largest error. -/
theorem sampleBody_mirrors {nt : NumberType} (ht : t.ReadsSample nt functions)
    (h : IsApart p functions t) {reference candidate : Term}
    (hreference : lower p widestSuffix t.reference = .ok reference)
    (hcandidate : lower p (suffixOf p) t.candidate = .ok candidate) (lo hi largest : Obj)
    (k : Nat) :
    Mirrors (fun env largest => env = outer lo hi largest)
      (do
        let env ← TestStatement.runAll I (sampleBody p t reference candidate)
          (("i", ⟨"int", some (I.integer k)⟩) :: outer lo hi largest)
        return env.drop (env.length - (outer lo hi largest).length))
      ((I.trial p t).step largest (I.sampleAt p t lo hi k)) := by
  obtain ⟨hlo, hhi, hmax, hi', href, hcand, hscale, herror⟩ : "lo" ≠ t.argument ∧
      "hi" ≠ t.argument ∧ "max_error" ≠ t.argument ∧ "i" ≠ t.argument ∧ "reference" ≠ t.argument ∧
      "candidate" ≠ t.argument ∧ "scale" ≠ t.argument ∧ "error" ≠ t.argument := by
    have := h.not_variable
    simp only [testVariables, List.mem_cons, not_or] at this
    simp only [ne_comm (a := _) (b := t.argument)]
    tauto
  have hwidest : ∀ id ∈ emittedNames widestSuffix ++ typeNames, id ∈ testGlobals p := by
    cases p <;> decide
  have hsuffix : ∀ id ∈ emittedNames (suffixOf p) ++ typeNames, id ∈ testGlobals p := by
    cases p <;> decide
  rw [sampleBody, runAll_declaration, denote_sampleTerm h (by simp [AreOwn, outer, testVariables])
    lo hi k (by simp [hi']) (by simp [outer, hhi]) (by simp [outer, hlo]), bind_assoc]
  refine .same _ fun x => ?_
  rw [runAll_declaration, denote_lower h ht.reference hreference hwidest (fun _ hf => hf)
    [(t.argument, ⟨typeName p, some x⟩)] rfl (by simp [AreOwn, outer, testVariables])
    (by simp [href.symm]), bind_assoc]
  refine .same _ fun r => ?_
  rw [runAll_declaration, denote_lower h ht.candidate hcandidate hsuffix (fun _ hf => hf)
    [(t.argument, ⟨typeName p, some x⟩)] rfl (by simp [AreOwn, outer, testVariables])
    (by simp [href.symm, hcand.symm]), bind_assoc]
  refine .same _ fun c => ?_
  rw [runAll_declaration, denote_unitTerm h (by simp [AreOwn, outer, testVariables]) r
    (by simp [widest]), bind_assoc, bind_assoc]
  show Mirrors _ _ (((unitTerm p t.mode).denote I _ >>= _) >>= _)
  rw [bind_assoc]
  refine .same _ fun unit => ?_
  rw [bind_assoc]
  refine .same _ fun scale => ?_
  rw [runAll_declaration, denote_errorTerm h (by simp [AreOwn, outer, testVariables]) r c scale
    (by simp [widest]) (by simp [widest]) (by simp [widest]), bind_assoc]
  refine .same _ fun error => ?_
  exact update_mirrors h lo hi largest (I.integer k) x r c scale error

/-- The blocks of a test declare no name twice, **unless the variable for the sample is called like
what is computed from it**. -/
theorem isBlock_testFunction (p : Precision) (t : TestCase) (low high reference candidate : Term)
    (bound : Datum) :
    TestStatement.isBlock (testFunction p t low high reference candidate bound).body =
      decide (t.argument ∉ roundVariables) := by
  have houter : decide (["lo", "hi", "max_error"] : List String).Nodup = true := by decide
  have hround : (t.argument :: roundVariables).Nodup ↔ t.argument ∉ roundVariables := by
    rw [List.nodup_cons, and_iff_left (by decide)]
  show (decide (["lo", "hi", "max_error"] : List String).Nodup && (true && (true && (true &&
    ((decide (t.argument :: roundVariables).Nodup && true) && true))))) = _
  simp only [houter, hround, Bool.true_and, Bool.and_true]

/-- **The comparison with the bound** is one of the largest error. -/
theorem denote_boundTerm (h : IsApart p functions t) (bound : Datum) (lo hi largest : Obj) :
    (boundTerm bound).denote I (outer lo hi largest).find? =
      (boundTerm bound).denote I (Variables.find? [("max_error", widest largest)]) :=
  Term.denote_congr _ (agree_template h (by simp [AreOwn, outer, testVariables]) _ ["max_error"]
    (by simp [boundTerm, Term.names]) rfl (by simp [outer]))

/-- **The test of a test case** runs like its trial. -/
theorem run_testFunction {nt : NumberType} (ht : t.ReadsSample nt functions)
    (h : IsApart p functions t) {low high reference candidate : Term} {bound : Datum}
    (hlow : lower p (suffixOf p) t.low.expr = .ok low)
    (hhigh : lower p (suffixOf p) t.high.expr = .ok high)
    (hreference : lower p widestSuffix t.reference = .ok reference)
    (hcandidate : lower p (suffixOf p) t.candidate = .ok candidate)
    (hbound : t.maxErrorDatum = .ok bound) :
    (testFunction p t low high reference candidate bound).run I = (I.trial p t).run := by
  have hsuffix : ∀ id ∈ emittedNames (suffixOf p) ++ typeNames, id ∈ testGlobals p := by
    cases p <;> decide
  have hconclude (largest : Obj) : (I.trial p t).conclude largest =
      (boundTerm bound).denote I (Variables.find? [("max_error", widest largest)]) := by
    show (t.maxErrorDatum >>= _) = _
    rw [hbound]
    rfl
  have hround : t.argument ∉ roundVariables := fun hmem =>
    h.not_variable (List.mem_append_right ["lo", "hi", "max_error", "i"] hmem)
  rw [TestFunction.run, isBlock_testFunction, if_pos (decide_eq_true hround), testFunction]
  refine Mirrors.eq ?_
  rw [runAll_declaration, denote_lower h ht.low hlow hsuffix (by simp) [] rfl
    (by simp [AreOwn, testVariables]) (by simp), bind_assoc, bind_assoc]
  show Mirrors _ _ ((I.valueOf p (suffixOf p) [] t.low.expr >>= _) >>= _)
  rw [bind_assoc]
  refine .same _ fun low' => ?_
  rw [bind_assoc]
  refine .same _ fun lo => ?_
  rw [runAll_declaration, denote_lower h ht.high hhigh hsuffix (by simp) [] rfl
    (by simp [AreOwn, testVariables]) (by simp), bind_assoc, bind_assoc, bind_assoc]
  refine .same _ fun high' => ?_
  rw [bind_assoc]
  refine .same _ fun hi => ?_
  rw [runAll_declaration, Term.denote, ok_bind, bind_assoc]
  refine .same _ fun start => ?_
  show Mirrors Eq ((_ >>= fun env => TestStatement.runAll I [] env) >>= _)
    (((List.range t.sampleCount.toNat).map (I.sampleAt p t lo hi)).foldlM (I.trial p t).step start
      >>= (I.trial p t).conclude)
  rw [List.foldlM_map, bind_assoc, TestStatement.run]
  refine (Mirrors.foldlM (R := fun env largest => env = outer lo hi largest) ?_ _ rfl).bind ?_
  · rintro _ largest k rfl
    exact sampleBody_mirrors ht h hreference hcandidate lo hi largest k
  · rintro _ largest rfl
    rw [hconclude, ← denote_boundTerm h bound lo hi largest]
    exact .refl _

/-- The test of a test case holds the forms of its expressions. -/
theorem exists_of_ofTest {f : TestFunction} (hf : TestFunction.ofTest p t = .ok f) :
    ∃ low high reference candidate bound, lower p (suffixOf p) t.low.expr = .ok low ∧
      lower p (suffixOf p) t.high.expr = .ok high ∧
      lower p widestSuffix t.reference = .ok reference ∧
      lower p (suffixOf p) t.candidate = .ok candidate ∧ t.maxErrorDatum = .ok bound ∧
      f = testFunction p t low high reference candidate bound := by
  obtain ⟨low, hlow, hf⟩ := bind_eq_ok.mp hf
  obtain ⟨high, hhigh, hf⟩ := bind_eq_ok.mp hf
  obtain ⟨reference, hreference, hf⟩ := bind_eq_ok.mp hf
  obtain ⟨candidate, hcandidate, hf⟩ := bind_eq_ok.mp hf
  obtain ⟨bound, hbound, hf⟩ := bind_eq_ok.mp hf
  exact ⟨low, high, reference, candidate, bound, hlow, hhigh, hreference, hcandidate, hbound,
    (Except.ok.inj hf).symm⟩

/-- **The test of a test case** runs like its trial, whatever the functions that it calls do. -/
theorem run_ofTest {nt : NumberType} (ht : t.ReadsSample nt functions) (h : IsApart p functions t)
    {f : TestFunction} (hf : TestFunction.ofTest p t = .ok f) : f.run I = (I.trial p t).run := by
  obtain ⟨low, high, reference, candidate, bound, hlow, hhigh, hreference, hcandidate, hbound,
    rfl⟩ := exists_of_ofTest hf
  exact run_testFunction ht h hlow hhigh hreference hcandidate hbound

/-- **No test runs** over a variable that is called like what is computed from the sample. -/
theorem run_ofTest_of_mem {f : TestFunction} (hf : TestFunction.ofTest p t = .ok f)
    (h : t.argument ∈ roundVariables) :
    f.run I = .error (.wrongKind (t.name ++ " declares a name twice")) := by
  obtain ⟨low, high, reference, candidate, bound, -, -, -, -, -, rfl⟩ := exists_of_ofTest hf
  have hblock := isBlock_testFunction p t low high reference candidate bound
  rw [decide_eq_false (not_not.mpr h)] at hblock
  rw [TestFunction.run, hblock]
  rfl

/-- **What is written for a test case** is its test. -/
theorem exists_ofTest {b b' : Source.Buffer} (hwritten : addTest p b t = .ok b') :
    ∃ f, TestFunction.ofTest p t = .ok f ∧ IsTestText p t f.text := by
  obtain ⟨low, high, reference, candidate, bound, hlow, hhigh, hreference, hcandidate, hbound⟩ :=
    exists_parts_of_addTest hwritten
  refine ⟨testFunction p t low high reference candidate bound, ?_, ?_⟩
  · rw [TestFunction.ofTest, hlow, hhigh, hreference, hcandidate, hbound]
    rfl
  · rw [text_testFunction]
    exact isTestText_testText hlow hhigh hreference hcandidate hbound

/-- A test of scalars is written. -/
theorem exists_addTest_of_readsSample {nt : NumberType} (ht : t.ReadsSample nt functions)
    (hscalar : nt.isVector = false) (p : Precision) (b : Source.Buffer) :
    ∃ b', addTest p b t = .ok b' := by
  obtain ⟨low, hlow⟩ := exists_lower p (suffixOf p) ht.low rfl
  obtain ⟨high, hhigh⟩ := exists_lower p (suffixOf p) ht.high rfl
  obtain ⟨reference, hreference⟩ := exists_lower p widestSuffix ht.reference rfl
  obtain ⟨candidate, hcandidate⟩ := exists_lower p (suffixOf p) ht.candidate hscalar
  obtain ⟨bound, hbound⟩ := ht.bound
  exact exists_addTest_of_lower hlow hhigh hreference hcandidate hbound b

end Run

end Elementary.C
