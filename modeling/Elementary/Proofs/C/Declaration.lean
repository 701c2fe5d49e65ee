import Elementary.C.Program
import Elementary.Proofs.Computation
import Elementary.Proofs.Source.Layout

/-!
# Declarations of local variables

A function is written statement by statement, and a name is declared when it is first assigned. What
has been declared is kept in the scope of the block of the function, on top of its arguments. So at
every statement the visible names are the arguments and the names that were assigned before, when
nothing was visible around the function; this is the invariant from which the declarations are
counted. The scope is closed with the block, and the next definition finds what this one has found.
Hence the text of a definition does not depend on what stands before it.

## Main definitions

* `C.WrittenFor`: the statements that are written where some names are declared.
* `C.DeclaresLocals`: each local variable is declared once, at its first assignment.
* `C.IsFunctionText`, `C.IsTestText`: the text of a definition, wherever it is written.

## Main results

* `C.WrittenFor.countP_declares`: how often a name is declared.
* `C.scopes_addFunction`, `C.scopes_addTest`: a definition leaves the scopes as they were.
* `C.program_declares_locals`: the declarations in the text of a program.
-/

namespace Elementary.C

open Source (Buffer Scopes line indentation reindent)

variable {p : Precision} {f : GeneratedFunction} {t : TestCase} {b b' : Buffer} {e : Expr}
  {es : List Expr} {s : Statement} {ss : List Statement} {isDeclared : String → Bool}
  {text : List Char} {level : Nat} {names : List String} {outer : Scopes} {name : String}

/-! ### What statements assign and declare -/

/-- The name that a statement **assigns**, if it is an assignment to a variable. -/
def assigned? : Expr → Option String
  | .node .assignment [target, _] =>
    match target.op with
    | .var name _ => some name
    | _ => none
  | _ => none

/-- The names that some statements assign. -/
def assignedNames (es : List Expr) : List String := es.filterMap assigned?

/-- The name that a written statement **declares**, if any. -/
def Statement.declared : Statement → List String
  | .declaration _ name _ => [name]
  | _ => []

/-- Whether a written statement **declares a name**. -/
def Statement.declares (name : String) (s : Statement) : Bool := s.declared.contains name

/-- A value is a **truth** when it is the result of a comparison or of a test for oddness. -/
def IsTruth (value : Expr) : Prop := (∃ c, value.op = .comparison c) ∨ value.op = .isOdd

/-- **The type of a variable** is an integer when a truth is assigned first, and the type of the
arguments and results otherwise. -/
theorem variableType_spec (p : Precision) (value : Expr) :
    (variableType p value = "int" ↔ IsTruth value) ∧
      (variableType p value ≠ "int" → variableType p value = typeName p) := by
  have htype : typeName p ≠ "int" := by cases p <;> decide
  rw [variableType, IsTruth]
  split
  · next c h => exact ⟨by simp [h], fun h => absurd rfl h⟩
  · next h => exact ⟨by simp [h], fun h => absurd rfl h⟩
  · next hcomparison hodd => exact ⟨by simp_all, fun _ => rfl⟩

/-- **An assignment** declares its name unless it is declared. -/
theorem lowerStatement_assignment {target value : Expr} {format : Option ResultFormat}
    (htarget : target.op = .var name format) :
    lowerStatement f p isDeclared (.node .assignment [target, value]) =
      (lower p (suffixOf p) value).map fun term =>
        if isDeclared name then .assignment name term
        else .declaration (variableType p value) name term := by
  rw [lowerStatement, htarget]
  cases lower p (suffixOf p) value <;> rfl

/-- What is written for **an assignment to a variable**. -/
theorem exists_of_lowerStatement (h : lowerStatement f p isDeclared e = .ok s)
    (he : assigned? e = some name) :
    ∃ target value term, e = .node .assignment [target, value] ∧
      lower p (suffixOf p) value = .ok term ∧
      s = if isDeclared name then .assignment name term
        else .declaration (variableType p value) name term := by
  rw [assigned?.eq_def] at he
  split at he
  · next target value =>
    split at he
    · next name' format hop =>
      obtain rfl : name' = name := Option.some.inj he
      rw [lowerStatement_assignment hop] at h
      cases hterm : lower p (suffixOf p) value with
      | error _ =>
        rw [hterm] at h
        cases h
      | ok term =>
        rw [hterm] at h
        exact ⟨target, value, term, rfl, hterm, (Except.ok.inj h).symm⟩
    · cases he
  · cases he

/-- What is written for **any other statement** declares nothing. -/
theorem declared_of_lowerStatement (h : lowerStatement f p isDeclared e = .ok s)
    (he : assigned? e = none) : s.declared = [] := by
  rw [lowerStatement.eq_def] at h
  dsimp only at h
  split at h
  · next target value =>
    split at h
    · next name format hop =>
      rw [assigned?, hop] at he
      cases he
    · cases h
  · split at h
    · obtain ⟨terms, -, h⟩ := bind_eq_ok.mp h
      cases h
      rfl
    · obtain ⟨term, -, h⟩ := bind_eq_ok.mp h
      cases h
      rfl
  · cases h

/-- **A written statement** declares the name that is assigned, unless it is declared, and no other
name. -/
theorem declares_of_lowerStatement (h : lowerStatement f p isDeclared e = .ok s) (name : String) :
    s.declares name = (assigned? e == some name && !isDeclared name) := by
  cases he : assigned? e with
  | none =>
    rw [Statement.declares, declared_of_lowerStatement h he]
    rfl
  | some assigned =>
    obtain ⟨target, value, term, -, -, rfl⟩ := exists_of_lowerStatement h he
    by_cases hname : assigned = name
    · subst hname
      cases hdeclared : isDeclared assigned <;> simp [Statement.declares, Statement.declared]
    · have hne : (some assigned == some name) = false := by simpa using hname
      rw [hne, Bool.false_and]
      split
      · rfl
      · simpa [Statement.declares, Statement.declared] using Ne.symm hname

/-! ### Statements in order -/

/-- The statements that are **written for** some statements, one for each, where some names are
declared: what is assigned is declared for those behind it. -/
inductive WrittenFor (f : GeneratedFunction) (p : Precision) :
    (String → Bool) → List Expr → List Statement → Prop
  | nil (isDeclared : String → Bool) : WrittenFor f p isDeclared [] []
  | cons {isDeclared : String → Bool} {e : Expr} {es : List Expr} {s : Statement}
    {ss : List Statement} (hs : lowerStatement f p isDeclared e = .ok s)
    (hss : WrittenFor f p (fun name => isDeclared name || assigned? e == some name) es ss) :
    WrittenFor f p isDeclared (e :: es) (s :: ss)

theorem WrittenFor.length_eq (h : WrittenFor f p isDeclared es ss) : ss.length = es.length := by
  induction h with
  | nil => rfl
  | cons _ _ ih => rw [List.length_cons, List.length_cons, ih]

theorem mem_assignedNames_cons :
    name ∈ assignedNames (e :: es) ↔ assigned? e = some name ∨ name ∈ assignedNames es := by
  rw [assignedNames, List.filterMap_cons]
  cases assigned? e with
  | none => simp [assignedNames]
  | some assigned => simp [assignedNames, eq_comm]

/-- **A statement is written** where the names are declared that were declared before, or that were
assigned in front of it. -/
theorem WrittenFor.exists_getElem? (h : WrittenFor f p isDeclared es ss) {i : Nat}
    (he : es[i]? = some e) :
    ∃ s, ss[i]? = some s ∧
      lowerStatement f p (fun name => isDeclared name || decide (name ∈ assignedNames (es.take i)))
        e = .ok s := by
  induction h generalizing i with
  | nil => cases he
  | @cons isDeclared e' es s ss hs hss ih =>
    cases i with
    | zero =>
      obtain rfl : e' = e := by simpa using he
      refine ⟨s, rfl, ?_⟩
      simpa [assignedNames] using hs
    | succ i =>
      obtain ⟨s', hs', hlower⟩ := ih (by simpa using he)
      refine ⟨s', by simpa using hs', ?_⟩
      have hsame : (fun name => (isDeclared name || assigned? e' == some name) ||
          decide (name ∈ assignedNames (es.take i))) =
          fun name => isDeclared name ||
            decide (name ∈ assignedNames ((e' :: es).take (i + 1))) := by
        funext name
        rw [Bool.or_assoc, List.take_succ_cons]
        congr 1
        rw [Bool.eq_iff_iff]
        simp [mem_assignedNames_cons]
      rwa [hsame] at hlower

/-- **How often a name is declared**: not at all when it is declared before, and otherwise once if
it is assigned. -/
theorem WrittenFor.countP_declares (h : WrittenFor f p isDeclared es ss) (name : String) :
    ss.countP (·.declares name) =
      if isDeclared name then 0 else if name ∈ assignedNames es then 1 else 0 := by
  induction h with
  | nil => simp [assignedNames]
  | @cons isDeclared e es s ss hs hss ih =>
    rw [List.countP_cons, ih, declares_of_lowerStatement hs]
    simp only [mem_assignedNames_cons]
    by_cases hdeclared : isDeclared name = true
    · simp [hdeclared]
    · by_cases hassigned : assigned? e = some name
      · simp [hdeclared, hassigned]
      · simp [hdeclared, hassigned]

/-! ### The scope of a function -/

/-- **A statement** is put on a line of its own, and what it declares into the innermost scope. -/
theorem addStatement_eq (hb : b.scopes = names :: outer) :
    addStatement f p b e = (lowerStatement f p b.scopes.isDeclared e).map fun s =>
      { b with scopes := (s.declared ++ names) :: outer }.add (s.text ++ "\n") := by
  have hsame : b = { b with scopes := names :: outer } := by rw [← hb]
  rw [addStatement]
  cases lowerStatement f p b.scopes.isDeclared e with
  | error _ => rfl
  | ok s =>
    cases s with
    | declaration type name value =>
      have hdeclare : declareIn b name = { b with scopes := (name :: names) :: outer } := by
        rw [declareIn, Buffer.declare?, hb]
        rfl
      change Except.ok ((declareIn b name).add _) = _
      rw [hdeclare]
      rfl
    | assignment _ _ | result _ | resultStruct _ _ =>
      change Except.ok (b.add _) = _
      rw [hsame]
      rfl

/-- After a statement those names are visible that were visible before, and the one it assigns. -/
theorem isDeclared_after (hs : lowerStatement f p (Scopes.isDeclared (names :: outer)) e = .ok s)
    (name : String) :
    Scopes.isDeclared ((s.declared ++ names) :: outer) name =
      (Scopes.isDeclared (names :: outer) name || assigned? e == some name) := by
  have hdeclares := declares_of_lowerStatement hs name
  have hsplit : Scopes.isDeclared ((s.declared ++ names) :: outer) name =
      (s.declares name || Scopes.isDeclared (names :: outer) name) := by
    simp [Scopes.isDeclared, Statement.declares, Bool.or_assoc]
  rw [hsplit, hdeclares]
  cases Scopes.isDeclared (names :: outer) name <;> cases assigned? e == some name <;> rfl

/-- **What a run of statements writes**, and the scopes that it leaves: only the innermost one has
changed. -/
theorem exists_writtenFor (h : es.foldlM (addStatement f p) b = .ok b')
    (hb : b.scopes = names :: outer) :
    ∃ ss names', WrittenFor f p (Scopes.isDeclared (names :: outer)) es ss ∧
      b'.scopes = names' :: outer := by
  induction es generalizing b names with
  | nil =>
    obtain rfl : b = b' := Except.ok.inj h
    exact ⟨[], names, .nil _, hb⟩
  | cons e es ih =>
    rw [List.foldlM_cons, addStatement_eq hb, hb] at h
    cases hs : lowerStatement f p (Scopes.isDeclared (names :: outer)) e with
    | error _ =>
      rw [hs] at h
      cases h
    | ok s =>
      rw [hs] at h
      obtain ⟨ss, names', hss, hscopes⟩ := ih h rfl
      rw [funext (isDeclared_after hs)] at hss
      exact ⟨s :: ss, names', .cons hs hss, hscopes⟩

/-- A line behind its indentation. -/
def lineAt (level : Nat) (s : String) : List Char := indentation level ++ line level s.toList

/-- The lines of written statements. -/
def linesOf (level : Nat) (ss : List Statement) : List Char :=
  ss.flatMap fun s => lineAt level s.text

/-- **Statements are written alike** in all buffers in which the same names are visible. -/
theorem WrittenFor.exists_foldlM (h : WrittenFor f p isDeclared es ss)
    (hb : b.Holds text level (names :: outer))
    (hdeclared : Scopes.isDeclared (names :: outer) = isDeclared) :
    ∃ b' names', es.foldlM (addStatement f p) b = .ok b' ∧
      b'.Holds (text ++ linesOf level ss) level (names' :: outer) := by
  induction h generalizing b text names with
  | nil => exact ⟨b, names, rfl, by simpa [linesOf] using hb⟩
  | @cons isDeclared e es s ss hs hss ih =>
    subst hdeclared
    have hstep : addStatement f p b e =
        .ok ({ b with scopes := (s.declared ++ names) :: outer }.add (s.text ++ "\n")) := by
      rw [addStatement_eq hb.scopes_eq, hb.scopes_eq, hs]
      rfl
    obtain ⟨b', names', hrun, hholds⟩ := ih ((hb.with_scopes _).add_line s.text)
      (funext (isDeclared_after hs))
    refine ⟨b', names', ?_, ?_⟩
    · rw [List.foldlM_cons, hstep]
      exact hrun
    · rw [linesOf, List.flatMap_cons, ← linesOf, lineAt, ← List.append_assoc]
      exact hholds

/-- Declarations of arguments fill the innermost scope. -/
theorem foldl_declareIn (arguments : List String) (hb : b.scopes = names :: outer) :
    arguments.foldl declareIn b =
      { b with scopes := (arguments.reverse ++ names) :: outer } := by
  induction arguments generalizing b names with
  | nil =>
    rw [List.foldl_nil, List.reverse_nil, List.nil_append, ← hb]
  | cons a arguments ih =>
    have hdeclare : declareIn b a = { b with scopes := (a :: names) :: outer } := by
      rw [declareIn, Buffer.declare?, hb]
      rfl
    rw [List.foldl_cons, hdeclare, ih rfl, List.reverse_cons, List.append_assoc]
    rfl

theorem scopes_closeBlock (names : List String) (hb : b.scopes = names :: outer) :
    (closeBlock b).scopes = outer := by
  rw [closeBlock, Buffer.closeBlock?, hb]
  rfl

theorem scopes_openBlock (b : Buffer) (s : String) :
    ((b.add s).openBlock Buffer.defaultHeader).scopes = [] :: b.scopes := rfl

/-- **A definition leaves the scopes** as they were. -/
theorem scopes_addFunction (h : addFunction p b f = .ok b') : b'.scopes = b.scopes := by
  obtain ⟨inner, hinner, h⟩ := bind_eq_ok.mp h
  obtain rfl : closeBlock inner = b' := Except.ok.inj h
  rw [foldl_declareIn f.arguments (scopes_openBlock b _)] at hinner
  obtain ⟨-, names', -, hscopes⟩ := exists_writtenFor hinner rfl
  exact scopes_closeBlock names' hscopes

/-! ### Definitions -/

/-- The **text of a function** with some written statements. -/
def functionText (p : Precision) (f : GeneratedFunction) (ss : List Statement) : List Char :=
  reindent 0 (declaration f p ++ " ").toList ++ "\x7b\n".toList ++ linesOf 1 ss ++ "\x7d\n".toList

/-- The end of a block, of which the lines are one level deeper. -/
theorem holds_closeBlock (h : b.Holds text (level + 1) (names :: outer)) :
    (closeBlock b).Holds (text ++ (indentation level ++ "\x7d\n".toList)) level outer := by
  obtain ⟨b', hb', hholds⟩ := h.closeBlock
  rw [closeBlock, hb']
  exact hholds

/-- **Local variables are declared once.** An assignment to a name that is no argument and that has
not been assigned before declares it, with the type of the value; every other assignment does not,
and nothing else declares a name. -/
structure DeclaresLocals (p : Precision) (f : GeneratedFunction) (ss : List Statement) : Prop where
  length_eq : ss.length = (Expr.flattenAll f.statements).length
  assignment : ∀ i e name, (Expr.flattenAll f.statements)[i]? = some e → assigned? e = some name →
    ∃ target value term type, e = .node .assignment [target, value] ∧
      lower p (suffixOf p) value = .ok term ∧
      ss[i]? = some (if name ∈ f.arguments ∨
          name ∈ assignedNames ((Expr.flattenAll f.statements).take i) then .assignment name term
        else .declaration type name term) ∧
      (type = "int" ↔ IsTruth value) ∧ (type ≠ "int" → type = typeName p)
  countP_declares : ∀ name, ss.countP (·.declares name) =
    if name ∈ f.arguments then 0
    else if name ∈ assignedNames (Expr.flattenAll f.statements) then 1 else 0

/-- `piece` is **the text of a function**: it is what is written at the outermost level wherever no
name is visible, it leaves the scopes as they were, and it declares each local variable once. -/
def IsFunctionText (p : Precision) (f : GeneratedFunction) (piece : List Char) : Prop :=
  (∃ ss, piece = functionText p f ss ∧ DeclaresLocals p f ss) ∧
    ∀ (b : Buffer) (text : List Char) (scopes : Scopes), b.Holds text 0 scopes →
      (∀ name, scopes.isDeclared name = false) →
      ∃ b', addFunction p b f = .ok b' ∧ b'.Holds (text ++ piece) 0 scopes

/-- `piece` is **the text of a test**: it is what is written at the outermost level wherever the
test stands, and it leaves the scopes as they were. -/
def IsTestText (p : Precision) (t : TestCase) (piece : List Char) : Prop :=
  ∀ (b : Buffer) (text : List Char) (scopes : Scopes), b.Holds text 0 scopes →
    ∃ b', addTest p b t = .ok b' ∧ b'.Holds (text ++ piece) 0 scopes

theorem WrittenFor.declaresLocals
    (h : WrittenFor f p (fun name => decide (name ∈ f.arguments)) (Expr.flattenAll f.statements)
      ss) : DeclaresLocals p f ss := by
  refine ⟨h.length_eq, fun i e name he hassigned => ?_, fun name => ?_⟩
  · obtain ⟨s, hs, hlower⟩ := h.exists_getElem? he
    obtain ⟨target, value, term, rfl, hterm, rfl⟩ := exists_of_lowerStatement hlower hassigned
    refine ⟨target, value, term, variableType p value, rfl, hterm, ?_, variableType_spec p value⟩
    simpa using hs
  · simpa using h.countP_declares name

/-- **The text of a function** that is written where no name is visible. -/
theorem exists_isFunctionText (h : addFunction p b f = .ok b')
    (hb : ∀ name, b.scopes.isDeclared name = false) : ∃ piece, IsFunctionText p f piece := by
  obtain ⟨inner, hinner, -⟩ := bind_eq_ok.mp h
  rw [foldl_declareIn f.arguments (scopes_openBlock b _)] at hinner
  obtain ⟨ss, -, hss, -⟩ := exists_writtenFor hinner rfl
  have hvisible : ∀ scopes : Scopes, (∀ name, scopes.isDeclared name = false) →
      Scopes.isDeclared ((f.arguments.reverse ++ []) :: scopes) =
        fun name => decide (name ∈ f.arguments) := by
    intro scopes hscopes
    funext name
    have hname := hscopes name
    rw [Scopes.isDeclared] at hname ⊢
    rw [List.any_cons, hname]
    simp
  rw [hvisible _ hb] at hss
  refine ⟨functionText p f ss, ⟨ss, rfl, hss.declaresLocals⟩,
    fun b text scopes hholds hscopes => ?_⟩
  have hopened := (hholds.openBlock (declaration f p ++ " ")).with_scopes
    ((f.arguments.reverse ++ []) :: scopes)
  obtain ⟨inner', names', hinner', hlines⟩ := hss.exists_foldlM hopened (hvisible scopes hscopes)
  refine ⟨closeBlock inner', ?_, ?_⟩
  · rw [addFunction, foldl_declareIn f.arguments (scopes_openBlock b _), hholds.scopes_eq, hinner']
    rfl
  · have hclosed := holds_closeBlock hlines
    simpa [functionText] using hclosed

/-- The parts of a test that is written. -/
theorem exists_parts_of_addTest (h : addTest p b t = .ok b') :
    ∃ low high reference candidate bound, lower p (suffixOf p) t.low.expr = .ok low ∧
      lower p (suffixOf p) t.high.expr = .ok high ∧
      lower p widestSuffix t.reference = .ok reference ∧
      lower p (suffixOf p) t.candidate = .ok candidate ∧ t.maxErrorDatum = .ok bound := by
  obtain ⟨_, hlow, h⟩ := bind_eq_ok.mp h
  obtain ⟨_, hhigh, h⟩ := bind_eq_ok.mp h
  obtain ⟨reference, hreference, h⟩ := bind_eq_ok.mp h
  obtain ⟨_, hcandidate, h⟩ := bind_eq_ok.mp h
  obtain ⟨bound, hbound, -⟩ := bind_eq_ok.mp h
  obtain ⟨low, hlow, -⟩ := bind_eq_ok.mp hlow
  obtain ⟨high, hhigh, -⟩ := bind_eq_ok.mp hhigh
  obtain ⟨candidate, hcandidate, -⟩ := bind_eq_ok.mp hcandidate
  exact ⟨low, high, reference, candidate, bound, hlow, hhigh, hreference, hcandidate, hbound⟩

/-- The **text of a test** with its parts in their written form. -/
def testText (p : Precision) (t : TestCase) (low high reference candidate : Term) (bound : Datum) :
    List Char :=
  reindent 0 ("int test_" ++ t.name ++ "(void) ").toList ++ "\x7b\n".toList ++
    lineAt 1 ("double lo = " ++ low.text ++ ";") ++
    lineAt 1 ("double hi = " ++ high.text ++ ";") ++
    lineAt 1 "long double max_error = 0.0L;" ++
    (indentation 1 ++ reindent 1 ("for (int i = 0; i < " ++ toString t.sampleCount ++
      "; ++i) ").toList ++ "\x7b\n".toList) ++
    lineAt 2 (typeName p ++ " " ++ t.argument ++ " = (" ++ typeName p ++
      ") (lo + (hi - lo) * i / " ++ toString (max (t.sampleCount - 1) 1) ++ ");") ++
    lineAt 2 ("long double reference = " ++ reference.text ++ ";") ++
    lineAt 2 ("long double candidate = " ++ candidate.text ++ ";") ++
    lineAt 2 ("long double scale = " ++ unitText p t.mode ++ ";") ++
    lineAt 2 "long double error = fabsl(candidate - reference) / scale;" ++
    lineAt 2 "if (isnan(error) || error > max_error) max_error = error;" ++
    (indentation 1 ++ "\x7d\n".toList) ++
    lineAt 1 ("return max_error <= " ++ bound.text Precision.double.format ++ ";") ++
    "\x7d\n".toList

/-- A text that ends a statement and its line is put on a line of its own. -/
theorem holds_add_ended (h : b.Holds text level outer) {s l : String} (hs : s = l ++ "\n") :
    (b.add s).Holds (text ++ lineAt level l) level outer := hs ▸ h.add_line l

/-- **The text of a test** with the written forms of its parts. -/
theorem isTestText_testText {low high reference candidate : Term} {bound : Datum}
    (hlow : lower p (suffixOf p) t.low.expr = .ok low)
    (hhigh : lower p (suffixOf p) t.high.expr = .ok high)
    (hreference : lower p widestSuffix t.reference = .ok reference)
    (hcandidate : lower p (suffixOf p) t.candidate = .ok candidate)
    (hbound : t.maxErrorDatum = .ok bound) :
    IsTestText p t (testText p t low high reference candidate bound) := by
  intro b text scopes hb
  have hended : ∀ s : String, s ++ ";\n" = s ++ ";" ++ "\n" := fun s => by
    rw [String.append_assoc]
    rfl
  simp only [addTest, hlow, hhigh, hreference, hcandidate, hbound]
  refine ⟨_, rfl, ?_⟩
  have hopened := hb.openBlock ("int test_" ++ t.name ++ "(void) ")
  have hwithLow := holds_add_ended hopened (hended ("double lo = " ++ low.text))
  have hwithHigh := holds_add_ended hwithLow (hended ("double hi = " ++ high.text))
  have hwithMax := holds_add_ended hwithHigh (s := "long double max_error = 0.0L;\n")
    (l := "long double max_error = 0.0L;") (by simp)
  have hloop := hwithMax.openBlock ("for (int i = 0; i < " ++ toString t.sampleCount ++ "; ++i) ")
  have hwithSample := holds_add_ended hloop
    (s := typeName p ++ " " ++ t.argument ++ " = (" ++ typeName p ++ ") (lo + (hi - lo) * i / " ++
      toString (max (t.sampleCount - 1) 1) ++ ");\n")
    (l := typeName p ++ " " ++ t.argument ++ " = (" ++ typeName p ++ ") (lo + (hi - lo) * i / " ++
      toString (max (t.sampleCount - 1) 1) ++ ");") (by simp [String.append_assoc])
  have hwithReference := holds_add_ended hwithSample
    (hended ("long double reference = " ++ reference.text))
  have hwithCandidate := holds_add_ended hwithReference
    (hended ("long double candidate = " ++ candidate.text))
  have hwithScale := holds_add_ended hwithCandidate
    (hended ("long double scale = " ++ unitText p t.mode))
  have hwithError := holds_add_ended hwithScale
    (s := "long double error = fabsl(candidate - reference) / scale;\n")
    (l := "long double error = fabsl(candidate - reference) / scale;") (by simp)
  have hwithUpdate := holds_add_ended hwithError
    (s := "if (isnan(error) || error > max_error) max_error = error;\n")
    (l := "if (isnan(error) || error > max_error) max_error = error;") (by simp)
  have hwithResult := holds_add_ended (holds_closeBlock hwithUpdate)
    (hended ("return max_error <= " ++ bound.text Precision.double.format))
  exact (holds_closeBlock hwithResult).congr (by simp [testText])

/-- A test that is written has a text. -/
theorem exists_isTestText (h : addTest p b t = .ok b') : ∃ piece, IsTestText p t piece := by
  obtain ⟨low, high, reference, candidate, bound, hlow, hhigh, hreference, hcandidate, hbound⟩ :=
    exists_parts_of_addTest h
  exact ⟨_, isTestText_testText hlow hhigh hreference hcandidate hbound⟩

theorem scopes_add (b : Buffer) (s : String) : (b.add s).scopes = b.scopes := rfl

/-- **A test leaves the scopes** as they were. -/
theorem scopes_addTest (h : addTest p b t = .ok b') : b'.scopes = b.scopes := by
  obtain ⟨_, -, h⟩ := bind_eq_ok.mp h
  obtain ⟨_, -, h⟩ := bind_eq_ok.mp h
  obtain ⟨_, -, h⟩ := bind_eq_ok.mp h
  obtain ⟨_, -, h⟩ := bind_eq_ok.mp h
  obtain ⟨_, -, h⟩ := bind_eq_ok.mp h
  rw [← Except.ok.inj h]
  refine scopes_closeBlock [] ?_
  rw [scopes_add]
  refine scopes_closeBlock [] ?_
  simp only [scopes_add, scopes_openBlock]

/-! ### Programs -/

/-- What stands in front of the definitions of a program. -/
def prologue (p : Precision) (functions : List GeneratedFunction) : List Char :=
  reindent 0 (preamble p).toList ++
    ((functions.filter fun f => 1 < f.outputs).flatMap fun f =>
      reindent 0 (resultTypedef f p).toList) ++
    functions.flatMap fun f => reindent 0 (declaration f p ++ ";\n").toList

/-- **Definitions one after the other**, each with its own text behind an empty line. -/
theorem exists_pieces {α : Type} {add : Buffer → α → Except Failure Buffer}
    {R : α → List Char → Prop} {scopes : Scopes}
    (hadd : ∀ a b b' text, b.Holds text 0 scopes → add b a = .ok b' →
      ∃ piece, R a piece ∧ b'.Holds (text ++ piece) 0 scopes) {as : List α}
    (hb : b.Holds text 0 scopes) (h : as.foldlM (apart add) b = .ok b') :
    ∃ pieces, List.Forall₂ R as pieces ∧
      b'.Holds (text ++ pieces.flatMap fun piece => '\n' :: piece) 0 scopes := by
  induction as generalizing b text with
  | nil =>
    obtain rfl : b = b' := Except.ok.inj h
    exact ⟨[], .nil, by simpa using hb⟩
  | cons a as ih =>
    rw [List.foldlM_cons] at h
    obtain ⟨b₁, hfirst, h⟩ := bind_eq_ok.mp h
    obtain ⟨piece, hpiece, hb₁⟩ := hadd a _ _ _ (hb.add "\n") hfirst
    obtain ⟨pieces, hpieces, hb'⟩ := ih hb₁ h
    refine ⟨piece :: pieces, .cons hpiece hpieces, ?_⟩
    simpa [Source.reindent, Source.indentLines, Source.dropTrailingBlanks] using hb'

/-- **The declarations in a program.** Its text consists of what stands in front of the definitions
and of a text for each function and each test, which does not depend on the others. In the text of a
function each name that is assigned and is no argument is declared once, at its first assignment,
with the type of the value assigned there; arguments are not declared, and later assignments have no
type. After every definition, wherever it is written, the scopes are those before it. -/
theorem program_declares_locals {functions : List GeneratedFunction} {tests : List TestCase}
    {source : String} (h : program p functions tests = .ok source) :
    (∃ functionPieces testPieces,
      List.Forall₂ (IsFunctionText p) functions functionPieces ∧
      List.Forall₂ (IsTestText p) tests testPieces ∧
      source.toList = prologue p functions ++
        (functionPieces.flatMap fun piece => '\n' :: piece) ++
        testPieces.flatMap fun piece => '\n' :: piece) ∧
    (∀ f b b', addFunction p b f = .ok b' → b'.scopes = b.scopes) ∧
    ∀ t b b', addTest p b t = .ok b' → b'.scopes = b.scopes := by
  refine ⟨?_, fun f b b' => scopes_addFunction, fun t b b' => scopes_addTest⟩
  have hvisible : ∀ name, Scopes.isDeclared [[]] name = false := fun name => rfl
  have hprologue := ((Buffer.holds_empty.add (preamble p)).foldl_add (resultTypedef · p)
    (functions.filter fun f => 1 < f.outputs)).foldl_add (fun f => declaration f p ++ ";\n")
    functions
  obtain ⟨b, hb, h⟩ := bind_eq_ok.mp h
  obtain ⟨b', hb', h⟩ := bind_eq_ok.mp h
  obtain ⟨functionPieces, hfunctions, hholds⟩ := exists_pieces
    (fun f b b' text hb hadd => by
      obtain ⟨piece, hpiece⟩ := exists_isFunctionText hadd (hb.scopes_eq ▸ hvisible)
      obtain ⟨b₁, hb₁, hholds⟩ := hpiece.2 b text _ hb hvisible
      rw [hadd] at hb₁
      exact ⟨piece, hpiece, Except.ok.inj hb₁ ▸ hholds⟩) hprologue hb
  obtain ⟨testPieces, htests, hholds'⟩ := exists_pieces
    (fun t b b' text hb hadd => by
      obtain ⟨piece, hpiece⟩ := exists_isTestText hadd
      obtain ⟨b₁, hb₁, hholds⟩ := hpiece b text _ hb
      rw [hadd] at hb₁
      exact ⟨piece, hpiece, Except.ok.inj hb₁ ▸ hholds⟩) hholds hb'
  refine ⟨functionPieces, testPieces, hfunctions, htests, ?_⟩
  rw [← Except.ok.inj h, hholds'.text_eq, prologue, List.nil_append]

/-- A function that assigns its argument, and assigns a local variable again behind a nested
sequence of statements. -/
def reassigning (name : String) : GeneratedFunction where
  name := name
  numberType := ⟨.single, false⟩
  arguments := ["x"]
  statements := [.assign (.var "c") (.compare .less (.var "x") (.var "x")),
    .node .statement [.assign (.var "y") (.var "x" * .var "x"), .assign (.var "c") (.var "y")],
    .assign (.var "x") (.var "y"), .assign (.var "y") (.var "c"), .result (.var "y")]
  outputs := 1
  fits := []

/-- Two functions with the same local variables in one program. -/
theorem program_declares_locals_reassigning : ∃ source functionPieces,
    program .single [reassigning "f", reassigning "g"] [] = .ok source ∧
      List.Forall₂ (IsFunctionText .single) [reassigning "f", reassigning "g"] functionPieces := by
  obtain ⟨source, hsource⟩ :
      ∃ source, program .single [reassigning "f", reassigning "g"] [] = .ok source := ⟨_, rfl⟩
  obtain ⟨⟨functionPieces, _, hfunctions, -, -⟩, -⟩ := program_declares_locals hsource
  exact ⟨source, functionPieces, hsource, hfunctions⟩

end Elementary.C
