import Elementary.C.Program
import Elementary.Native.Module
import Elementary.Proofs.Computation
import Elementary.Proofs.Expr.Closed

/-!
# Programs of closed functions

Functions with closed bodies and tests of closed expressions have a program in both languages once
they are quantized: in Python for every number type, in C for those that are no vectors.

## Main definitions

* `GeneratedFunction.IsClosed`: a function with a closed body, quantized.
* `TestCase.IsClosed`: a test of closed expressions, quantized.

## Main results

* `Native.exists_program`, `C.exists_program`: the programs.
-/

namespace Elementary

variable {S : NameScope} {nt : NumberType} {e : Expr} {es statements : List Expr}

/-- A function with a **closed body**, whose statements were quantized. -/
structure GeneratedFunction.IsClosed (nt : NumberType) (functions : List (String × Nat))
    (f : GeneratedFunction) : Prop where
  isName : (f.name :: f.arguments).all Native.isName = true
  body : ∃ statements, Expr.ClosedBody ⟨f.arguments, functions, false⟩ statements ∧
    (∀ e ∈ statements, e.Codable nt) ∧ f.statements = statements.map (Expr.coded nt)

/-- A test of **closed expressions**, which were quantized: the candidate reads the sample and calls
functions, the reference reads the sample and holds exact mathematical functions. -/
structure TestCase.IsClosed (nt : NumberType) (functions : List (String × Nat)) (t : TestCase) :
    Prop where
  low : ∃ S, t.low.expr.Quantized S referenceType
  high : ∃ S, t.high.expr.Quantized S referenceType
  reference : t.reference.Quantized ⟨[t.argument], [], true⟩ referenceType
  candidate : t.candidate.Quantized ⟨[t.argument], functions, false⟩ nt
  bound : ∃ x, t.maxErrorDatum = .ok x

namespace GeneratedFunction.IsClosed

variable {functions : List (String × Nat)} {f : GeneratedFunction}

/-- The statements of a closed function are quantized. -/
theorem exists_quantizedStatement (h : f.IsClosed nt functions) (he : e ∈ f.statements) :
    ∃ S, e.QuantizedStatement S nt := by
  obtain ⟨statements, hbody, hcodable, hstatements⟩ := h.body
  obtain ⟨pre, post, hsplit⟩ := List.append_of_mem he
  obtain ⟨S, -, -, hstatement⟩ := hbody.quantizedStatement hcodable (hstatements.symm.trans hsplit)
  exact ⟨S, hstatement⟩

/-- The statements of a closed function are flat. -/
theorem flattenAll_statements (h : f.IsClosed nt functions) :
    Expr.flattenAll f.statements = f.statements :=
  Expr.flattenAll_eq_self fun _ he =>
    let ⟨_, hquantized⟩ := h.exists_quantizedStatement he
    hquantized.op_ne_statement

end GeneratedFunction.IsClosed

/-! ### Python -/

namespace Native

/-- A quantized expression has a Python form. -/
theorem exists_lower (s : Style) (h : e.Quantized S nt) : ∃ t, lower s e = .ok t :=
  (outcome_lower s h.wellFormed h.finiteCodings).exists_ok_iff.mpr
    (h.not_isForeign .native nofun)

/-- A quantized statement has a Python form. -/
theorem exists_statement (h : Expr.QuantizedStatement S nt e) :
    ∃ s, Statement.ofExpr nt e = .ok s := by
  cases h with
  | assignment he =>
    obtain ⟨t, ht⟩ := exists_lower ⟨nt, false⟩ he
    exact ⟨_, by rw [Statement.ofExpr, ht]; rfl⟩
  | result he =>
    obtain ⟨t, ht⟩ := exists_lower ⟨nt, false⟩ he
    exact ⟨_, by rw [Statement.ofExpr, ht]; rfl⟩
  | @results es hes =>
    obtain ⟨ts, hts⟩ := exists_mapM_eq_ok fun e he => exists_lower ⟨nt, false⟩ (hes e he)
    rw [← lowerAll_eq_mapM] at hts
    have htuple : lower ⟨nt, false⟩ (.node .tuple es) = .ok (.tuple ts) := by
      show (lowerAll _ _ >>= operation nt .tuple) = _
      rw [hts]
      rfl
    exact ⟨_, by rw [Statement.ofExpr, htuple]; rfl⟩

/-- **A closed function** has a Python definition. -/
theorem exists_ofFunction {functions : List (String × Nat)} {f : GeneratedFunction}
    (h : f.IsClosed nt functions) : ∃ d, Definition.ofFunction nt f = .ok d := by
  have hstatement : ∀ e ∈ f.statements, ∃ s, Statement.ofExpr nt e = .ok s := fun e he =>
    let ⟨_, hquantized⟩ := h.exists_quantizedStatement he
    exists_statement hquantized
  obtain ⟨ss, hss⟩ := exists_mapM_eq_ok hstatement
  refine ⟨⟨f.name, f.arguments, ss⟩, ?_⟩
  rw [Definition.ofFunction, if_pos h.isName, h.flattenAll_statements, hss]
  rfl

/-- **A closed test** has a Python definition. -/
theorem exists_ofTest {functions : List (String × Nat)} {t : TestCase}
    (h : t.IsClosed nt functions) : ∃ d, Definition.ofTest nt t = .ok d := by
  obtain ⟨S, hlow⟩ := h.low
  obtain ⟨T, hhigh⟩ := h.high
  obtain ⟨low, hlow⟩ := exists_lower ⟨nt, false⟩ hlow
  obtain ⟨high, hhigh⟩ := exists_lower ⟨nt, false⟩ hhigh
  obtain ⟨reference, hreference⟩ := exists_lower ⟨nt, true⟩ h.reference
  obtain ⟨candidate, hcandidate⟩ := exists_lower ⟨nt, false⟩ h.candidate
  obtain ⟨bound, hbound⟩ := h.bound
  exact ⟨_, by rw [Definition.ofTest, hlow, hhigh, hreference, hcandidate, hbound]; rfl⟩

/-- **A closed library has a Python program.** -/
theorem exists_program {called : List (String × Nat)} {functions : List GeneratedFunction}
    {tests : List TestCase} (hfunctions : ∀ f ∈ functions, f.IsClosed nt called)
    (htests : ∀ t ∈ tests, t.IsClosed nt called) :
    ∃ text, program nt functions tests = .ok text := by
  obtain ⟨ds, hds⟩ := exists_mapM_eq_ok fun f hf => exists_ofFunction (hfunctions f hf)
  obtain ⟨ts, hts⟩ := exists_mapM_eq_ok fun t ht => exists_ofTest (htests t ht)
  exact ⟨_, by rw [program, hds, hts]; rfl⟩

end Native

/-! ### C -/

namespace C

open Source (Buffer)

/-- A quantized expression has a C form, unless it is one of vectors. -/
theorem exists_lower (p : Precision) (suffix : String) (h : e.Quantized S nt)
    (hscalar : nt.isVector = false) : ∃ t, lower p suffix e = .ok t :=
  (outcome_lower p suffix h.wellFormed h.finiteCodings).exists_ok_iff.mpr
    (h.not_isForeign .c fun _ => hscalar)

/-- A quantized statement has a C form, whatever names are declared. -/
theorem exists_lowerStatement (f : GeneratedFunction) (p : Precision) (isDeclared : String → Bool)
    (h : Expr.QuantizedStatement S nt e) (hscalar : nt.isVector = false) :
    ∃ s, lowerStatement f p isDeclared e = .ok s := by
  cases h with
  | assignment he =>
    obtain ⟨t, ht⟩ := exists_lower p (suffixOf p) he hscalar
    exact ⟨_, by rw [lowerStatement, ht]; rfl⟩
  | @result e he =>
    obtain ⟨t, ht⟩ := exists_lower p (suffixOf p) he hscalar
    have htuple : e.op ≠ .tuple := fun hop => by
      have hforeign := he.not_isForeign .c (fun _ => hscalar) e (Expr.mem_visited_self e)
      rw [hop] at hforeign
      cases hforeign
    refine ⟨.result t, ?_⟩
    rw [lowerStatement, ht]
    · rfl
    · rintro values rfl
      exact htuple rfl
  | results hes =>
    obtain ⟨ts, hts⟩ :=
      exists_mapM_eq_ok fun e he => exists_lower p (suffixOf p) (hes e he) hscalar
    rw [← lowerAll_eq_mapM] at hts
    exact ⟨_, by rw [lowerStatement, hts]; rfl⟩

/-- **A closed function** has a C definition. -/
theorem exists_addFunction {functions : List (String × Nat)} {f : GeneratedFunction}
    (p : Precision) (h : f.IsClosed nt functions) (hscalar : nt.isVector = false) (b : Buffer) :
    ∃ b', addFunction p b f = .ok b' := by
  have hstatement : ∀ e ∈ f.statements, ∀ b, ∃ b', addStatement f p b e = .ok b' := by
    intro e he b
    obtain ⟨S, hquantized⟩ := h.exists_quantizedStatement he
    obtain ⟨s, hs⟩ := exists_lowerStatement f p b.scopes.isDeclared hquantized hscalar
    exact ⟨_, by rw [addStatement, hs]; rfl⟩
  obtain ⟨b', hb'⟩ := exists_foldlM_eq_ok hstatement
    (f.arguments.foldl declareIn ((b.add (declaration f p ++ " ")).openBlock Buffer.defaultHeader))
  exact ⟨_, by rw [addFunction, h.flattenAll_statements, hb']; rfl⟩

/-- A test has a C definition when its expressions have forms in C. -/
theorem exists_addTest_of_lower {t : TestCase} {p : Precision}
    {low high reference candidate : Term} {bound : Datum}
    (hlow : lower p (suffixOf p) t.low.expr = .ok low)
    (hhigh : lower p (suffixOf p) t.high.expr = .ok high)
    (hreference : lower p widestSuffix t.reference = .ok reference)
    (hcandidate : lower p (suffixOf p) t.candidate = .ok candidate)
    (hbound : t.maxErrorDatum = .ok bound) (b : Buffer) : ∃ b', addTest p b t = .ok b' := by
  simp only [addTest, hlow, hhigh, hreference, hcandidate, hbound]
  exact ⟨_, rfl⟩

/-- **A closed test** has a C definition. -/
theorem exists_addTest {functions : List (String × Nat)} {t : TestCase} (p : Precision)
    (h : t.IsClosed nt functions) (hscalar : nt.isVector = false) (b : Buffer) :
    ∃ b', addTest p b t = .ok b' := by
  obtain ⟨S, hlow⟩ := h.low
  obtain ⟨T, hhigh⟩ := h.high
  obtain ⟨low, hlow⟩ := exists_lower p (suffixOf p) hlow rfl
  obtain ⟨high, hhigh⟩ := exists_lower p (suffixOf p) hhigh rfl
  obtain ⟨reference, hreference⟩ := exists_lower p widestSuffix h.reference rfl
  obtain ⟨candidate, hcandidate⟩ := exists_lower p (suffixOf p) h.candidate hscalar
  obtain ⟨bound, hbound⟩ := h.bound
  exact exists_addTest_of_lower hlow hhigh hreference hcandidate hbound b

/-- **A closed library of scalars has a C program.** -/
theorem exists_program {called : List (String × Nat)} {functions : List GeneratedFunction}
    {tests : List TestCase} (p : Precision) (hfunctions : ∀ f ∈ functions, f.IsClosed nt called)
    (htests : ∀ t ∈ tests, t.IsClosed nt called) (hscalar : nt.isVector = false) :
    ∃ text, program p functions tests = .ok text := by
  have hfold : ∀ b, ∃ b', functions.foldlM (apart (addFunction p)) b = .ok b' :=
    exists_foldlM_eq_ok fun f hf b => exists_addFunction p (hfunctions f hf) hscalar _
  have hfold' : ∀ b, ∃ b', tests.foldlM (apart (addTest p)) b = .ok b' :=
    exists_foldlM_eq_ok fun t ht b => exists_addTest p (htests t ht) hscalar _
  obtain ⟨b, hb⟩ := hfold _
  obtain ⟨b', hb'⟩ := hfold' b
  exact ⟨b'.text, bind_eq_ok.mpr ⟨b, hb, bind_eq_ok.mpr ⟨b', hb', rfl⟩⟩⟩

end C

end Elementary
