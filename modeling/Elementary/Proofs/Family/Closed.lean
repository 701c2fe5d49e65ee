import Elementary.Proofs.Evaluation.Kind
import Elementary.Proofs.Family.Library

/-!
# Closed libraries

In a library that was built from fits, whatever polynomials these gave, every variable that is read
is an argument or was assigned before, every call is one of a function of the library with as many
arguments as it takes, no function calls itself, directly or through others, and no number is left
that is not coded. So nothing in the library gets stuck when it is evaluated, and it has a program
in Python, and in C unless it is one of vectors.

## Main definitions

* `Library.Calls`: which functions call which.
* `Library.IsClosed`: closed libraries.

## Main results

* `Library.Built.acyclic`: no function calls itself, directly or through others.
* `Library.Built.call_proceeds`: no function gets stuck.
* `Library.Built.isClosed`: libraries that were built from fits are closed.
-/

namespace Elementary

/-- An expression **without constants**, written or named. -/
def Expr.IsConstantFree (e : Expr) : Prop :=
  ∀ a ∈ e.subterms, (∀ n, a.op ≠ .constant n) ∧ ∀ name, a.op ≠ .mathConstant name

/-- A tree without numbers of its own has no constants. -/
theorem Expr.isConstantFree {e : Expr} (h : ∀ a ∈ e.subterms, a.op.number? = none) :
    e.IsConstantFree := by
  refine fun a ha => ⟨fun n hop => ?_, fun name hop => ?_⟩
  all_goals
    have hnumber := h a ha
    rw [hop] at hnumber
    cases hnumber

namespace Library

/-- A function of a library **calls** another one in one of its statements. -/
def Calls (library : Family) (f g : GeneratedFunction) : Prop :=
  f ∈ library.functions ∧ g ∈ library.functions ∧
    ∃ e ∈ f.statements, ∃ a ∈ e.subterms, a.op = .functionCall g.name

/-- A **closed library** for a number type. -/
structure IsClosed (nt : NumberType) (library : Family) : Prop where
  /-- A statement assigns to a variable or gives the result. -/
  statements : ∀ f ∈ library.functions, ∀ e ∈ f.statements, e.assigned?.isSome ∨ e.op = .result
  /-- A variable that is read is an argument or was assigned before. -/
  reads : ∀ f ∈ library.functions, ∀ pre e post, f.statements = pre ++ e :: post →
    ∀ a ∈ e.evaluated.subterms, ∀ name format, a.op = .var name format →
      name ∈ f.arguments ∨ ∃ b ∈ pre, b.assigned? = some name
  /-- A call is one of a function of the library, with as many arguments as it takes. -/
  calls : ∀ f ∈ library.functions, ∀ e ∈ f.statements, ∀ a ∈ e.subterms,
    ∀ name, a.op = .functionCall name →
      ∃ g ∈ library.functions, g.name = name ∧ g.arguments.length = a.operands.length
  /-- No function calls itself, directly or through others. -/
  acyclic : ∀ f, ¬ Relation.TransGen (Calls library) f f
  functionNames : (library.functions.map (·.name)).Nodup
  testNames : (library.tests.map (·.name)).Nodup
  functionConstants : ∀ f ∈ library.functions, ∀ e ∈ f.statements, e.IsConstantFree
  testConstants : ∀ t ∈ library.tests, t.reference.IsConstantFree ∧ t.candidate.IsConstantFree ∧
    t.low.expr.IsConstantFree ∧ t.high.expr.IsConstantFree
  /-- Every function can be called by its name, and a call of it is not stuck. -/
  evaluates : ∀ f ∈ library.functions, ∀ values : List (Value Scalar),
    values.length = f.arguments.length →
    ∃ run, (Emulation.arithmetic nt.precision).callsOf library.functions f.name = some run ∧
      ∀ failure, run values = .error failure → failure.isStuck = false
  native : ∃ text,
    (Language.program .native nt library.functions library.tests).outcome = .ok text
  c : nt.isVector = false → ∃ text,
    (Language.program .c nt library.functions library.tests).outcome = .ok text

namespace Built

variable {s : Setting} {strategy : Strategy} {library : Family} {f g : GeneratedFunction}
  {F G : LibraryFunction}

/-! ### The functions of a library that was built -/

/-- The functions of the library and those of the strategy, one by one. -/
theorem forall₂_isBuilt (h : Built s strategy library) :
    List.Forall₂ (fun F f => F.IsBuilt s.numberType f) (functions strategy) library.functions :=
  h.builds.imp fun _ _ => LibraryFunction.Builds.isBuilt

/-- Every function of the library is one of the strategy. -/
theorem exists_isBuilt (h : Built s strategy library) (hf : f ∈ library.functions) :
    ∃ F ∈ functions strategy, F.IsBuilt s.numberType f :=
  exists_of_forall₂ h.forall₂_isBuilt.flip hf

/-- Every function of the strategy is in the library. -/
theorem exists_function (h : Built s strategy library) (hF : F ∈ functions strategy) :
    ∃ f ∈ library.functions, F.IsBuilt s.numberType f := by
  obtain ⟨f, hf, hbuilt⟩ := exists_of_forall₂ h.forall₂_isBuilt hF
  exact ⟨f, hf, hbuilt⟩

theorem nodup_functionNames (h : Built s strategy library) :
    (library.functions.map (·.name)).Nodup := by
  have hnames : List.Forall₂ (· = ·) (library.functions.map (·.name))
      ((functions strategy).map LibraryFunction.name) := by
    rw [List.forall₂_map_left_iff, List.forall₂_map_right_iff]
    exact h.forall₂_isBuilt.flip.imp fun _ _ hbuilt => hbuilt.name
  rw [List.forall₂_eq_eq_eq] at hnames
  rw [hnames]
  exact nodup_names strategy

theorem nodup_testNames (h : Built s strategy library) : (library.tests.map (·.name)).Nodup := by
  have hnames : List.Forall₂ (· = ·) (library.tests.map (·.name))
      ((tests s strategy).map (·.name)) := by
    rw [List.forall₂_map_left_iff, List.forall₂_map_right_iff]
    exact h.describes.flip.imp fun _ _ hdescribes => hdescribes.name
  rw [List.forall₂_eq_eq_eq] at hnames
  rw [hnames]
  exact Library.nodup_testNames s strategy

/-- A function of the library is **found by its name**. -/
theorem find?_name (h : Built s strategy library) (hf : f ∈ library.functions) :
    GeneratedFunction.find? library.functions f.name = some f := by
  cases hfind : GeneratedFunction.find? library.functions f.name with
  | none =>
    have hnone := List.find?_eq_none.mp hfind f (List.mem_reverse.mpr hf)
    exact absurd (decide_eq_true rfl) hnone
  | some g =>
    obtain ⟨hg, hname⟩ := GeneratedFunction.find?_eq_some hfind
    exact congrArg some (List.inj_on_of_nodup_map h.nodup_functionNames hg hf hname)

/-- A function of the library is built for **one function of the strategy**. -/
theorem eq_of_name (hF : F ∈ functions strategy) (hG : G ∈ functions strategy)
    (hname : F.name = G.name) : F = G :=
  List.inj_on_of_nodup_map (nodup_names strategy) hF hG hname

/-- What a function calls is a function of the library, of lower rank. -/
theorem exists_callee (h : Built s strategy library) (hF : F ∈ functions strategy)
    {c : String × Nat} (hc : c ∈ F.callees) :
    ∃ G ∈ functions strategy, G.rank < F.rank ∧ ∃ g ∈ library.functions,
      G.IsBuilt s.numberType g ∧ g.name = c.1 ∧ g.arguments.length = c.2 := by
  obtain ⟨G, hG, hname, harity, hrank⟩ := Library.exists_callee hF hc
  obtain ⟨g, hg, hbuilt⟩ := h.exists_function hG
  exact ⟨G, hG, hrank, g, hg, hbuilt, hbuilt.name.trans hname,
    (congrArg List.length hbuilt.arguments).trans harity⟩

/-- A statement of a function reads arguments and variables assigned before it, and calls what the
function calls. -/
theorem exists_quantizedStatement {e : Expr} {pre post : List Expr}
    (hbuilt : F.IsBuilt s.numberType f) (hsplit : f.statements = pre ++ e :: post) :
    ∃ S : NameScope, (∀ name ∈ S.names, name ∈ f.arguments ∨ ∃ b ∈ pre, b.assigned? = some name) ∧
      S.functions = F.callees ∧ e.QuantizedStatement S s.numberType := by
  obtain ⟨statements, hclosed, hcodable, hstatements⟩ := hbuilt.body
  rw [hbuilt.arguments]
  exact hclosed.quantizedStatement hcodable (hstatements.symm.trans hsplit)

/-- The same without the variables. -/
theorem exists_quantizedStatement_of_mem {e : Expr} (hbuilt : F.IsBuilt s.numberType f)
    (he : e ∈ f.statements) :
    ∃ S : NameScope, S.functions = F.callees ∧ e.QuantizedStatement S s.numberType := by
  obtain ⟨pre, post, hsplit⟩ := List.append_of_mem he
  obtain ⟨S, -, hS⟩ := exists_quantizedStatement hbuilt hsplit
  exact ⟨S, hS⟩

/-! ### The call graph -/

/-- A call **lowers the rank**. -/
theorem rank_lt_of_calls (h : Built s strategy library) (hF : F ∈ functions strategy)
    (hG : G ∈ functions strategy) (hf : F.IsBuilt s.numberType f) (hg : G.IsBuilt s.numberType g)
    (hcalls : Calls library f g) : G.rank < F.rank := by
  obtain ⟨-, -, e, he, a, ha, hop⟩ := hcalls
  obtain ⟨S, hS, hstatement⟩ := exists_quantizedStatement_of_mem hf he
  have hcallee := hstatement.mem_functions ha hop
  rw [hS] at hcallee
  obtain ⟨G', hG', hrank, g', -, hbuilt, hname, -⟩ := h.exists_callee hF hcallee
  have heq : G = G' := eq_of_name hG hG' (hg.name.symm.trans (hname.symm.trans hbuilt.name))
  rwa [heq]

/-- **No function calls itself**, directly or through others. -/
theorem acyclic (h : Built s strategy library) (f : GeneratedFunction) :
    ¬ Relation.TransGen (Calls library) f f := by
  -- along a chain of calls the rank becomes smaller
  have hchain : ∀ g, Relation.TransGen (Calls library) f g → g ∈ library.functions ∧
      ∀ F ∈ functions strategy, ∀ G ∈ functions strategy, F.IsBuilt s.numberType f →
        G.IsBuilt s.numberType g → G.rank < F.rank := by
    intro g hg
    induction hg with
    | single hcalls =>
      exact ⟨hcalls.2.1, fun F hF G hG hf hg => h.rank_lt_of_calls hF hG hf hg hcalls⟩
    | @tail g₁ g₂ _ hcalls ih =>
      obtain ⟨G₁, hG₁, hg₁⟩ := h.exists_isBuilt ih.1
      refine ⟨hcalls.2.1, fun F hF G hG hf hg => ?_⟩
      exact (h.rank_lt_of_calls hG₁ hG hg₁ hg hcalls).trans (ih.2 F hF G₁ hG₁ hf hg₁)
  intro hcycle
  obtain ⟨hf, hrank⟩ := hchain f hcycle
  obtain ⟨F, hF, hbuilt⟩ := h.exists_isBuilt hf
  exact Nat.lt_irrefl _ (hrank F hF F hF hbuilt hbuilt)

/-! ### Evaluation -/

/-- **A call of a function** of the library is not stuck when functions may be called deeper than
its rank. -/
theorem call_proceeds (h : Built s strategy library) {depth : Nat}
    (hF : F ∈ functions strategy) (hbuilt : F.IsBuilt s.numberType f) (hdepth : F.rank < depth)
    {values : List (Value Scalar)} (hvalues : values.length = f.arguments.length) :
    Proceeds ((Emulation.arithmetic s.numberType.precision).call
      (GeneratedFunction.find? library.functions) depth f values) fun _ => True := by
  induction depth generalizing F f values with
  | zero => exact absurd hdepth (Nat.not_lt_zero _)
  | succ depth ih =>
    obtain ⟨statements, hclosed, hcodable, hstatements⟩ := hbuilt.body
    have hbody : Expr.ClosedBody ⟨f.arguments, F.callees, false⟩ statements := by
      rw [hbuilt.arguments]
      exact hclosed
    refine GeneratedFunction.call_proceeds hbody hcodable hstatements (fun c hc => ?_) hvalues
    obtain ⟨G, hG, hrank, g, hg, hg', hname, harity⟩ := h.exists_callee hF hc
    refine ⟨g, hname ▸ h.find?_name hg, fun values hlength => ?_⟩
    exact ih hG hg' (by omega) (hlength.trans harity.symm)

/-! ### Closed libraries -/

/-- The functions of the library are closed over all of them. -/
theorem isClosed_function (h : Built s strategy library) (hf : f ∈ library.functions) :
    f.IsClosed s.numberType (interface strategy) := by
  obtain ⟨F, hF, hbuilt⟩ := h.exists_isBuilt hf
  obtain ⟨statements, hclosed, hcodable, hstatements⟩ := hbuilt.body
  refine ⟨?_, statements, ?_, hcodable, hstatements⟩
  · rw [hbuilt.name, hbuilt.arguments]
    exact isName_name_arguments hF
  · rw [hbuilt.arguments]
    refine hclosed.mono ⟨fun _ hname => hname, fun c hc => ?_, id⟩
    obtain ⟨G, hG, hname, harity, -⟩ := Library.exists_callee hF hc
    exact List.mem_map.mpr ⟨G, hG, Prod.ext hname harity⟩

/-- The tests of the library are closed over its functions. -/
theorem isClosed_test (h : Built s strategy library) {t : TestCase} (ht : t ∈ library.tests) :
    t.IsClosed s.numberType (interface strategy) := by
  obtain ⟨r, hr, hdescribes⟩ := exists_of_forall₂ h.describes.flip ht
  obtain ⟨hclosed, htype⟩ := isClosed_of_mem_tests hr
  exact htype ▸ hdescribes.isClosed hclosed

/-- **Libraries that were built from fits are closed.** -/
theorem isClosed (h : Built s strategy library) : IsClosed s.numberType library where
  statements f hf e he := by
    obtain ⟨F, -, hbuilt⟩ := h.exists_isBuilt hf
    obtain ⟨S, -, hstatement⟩ := exists_quantizedStatement_of_mem hbuilt he
    exact hstatement.shape
  reads f hf pre e post hsplit a ha name format hop := by
    obtain ⟨F, -, hbuilt⟩ := h.exists_isBuilt hf
    obtain ⟨S, hnames, -, hstatement⟩ := exists_quantizedStatement hbuilt hsplit
    exact hnames name (hstatement.mem_names ha hop)
  calls f hf e he a ha name hop := by
    obtain ⟨F, hF, hbuilt⟩ := h.exists_isBuilt hf
    obtain ⟨S, hS, hstatement⟩ := exists_quantizedStatement_of_mem hbuilt he
    have hcallee := hstatement.mem_functions ha hop
    rw [hS] at hcallee
    obtain ⟨G, -, -, g, hg, -, hname, harity⟩ := h.exists_callee hF hcallee
    exact ⟨g, hg, hname, harity⟩
  acyclic := h.acyclic
  functionNames := h.nodup_functionNames
  testNames := h.nodup_testNames
  functionConstants f hf e he := by
    obtain ⟨F, -, hbuilt⟩ := h.exists_isBuilt hf
    obtain ⟨S, -, hstatement⟩ := exists_quantizedStatement_of_mem hbuilt he
    exact Expr.isConstantFree fun a ha => hstatement.number?_eq_none ha
  testConstants t ht := by
    have hclosed := h.isClosed_test ht
    obtain ⟨S, hlow⟩ := hclosed.low
    obtain ⟨T, hhigh⟩ := hclosed.high
    exact ⟨Expr.isConstantFree hclosed.reference.number?_eq_none,
      Expr.isConstantFree hclosed.candidate.number?_eq_none,
      Expr.isConstantFree hlow.number?_eq_none, Expr.isConstantFree hhigh.number?_eq_none⟩
  evaluates f hf values hvalues := by
    obtain ⟨F, hF, hbuilt⟩ := h.exists_isBuilt hf
    have hdepth : F.rank < library.functions.length + 200 := by
      have hrank := rank_le_two hF
      omega
    refine ⟨_, congrArg (Option.map _) (h.find?_name hf), fun failure hfailure => ?_⟩
    exact (h.call_proceeds hF hbuilt hdepth hvalues).not_isStuck hfailure
  native := by
    obtain ⟨text, htext⟩ := Native.exists_program (fun f hf => h.isClosed_function hf)
      fun t ht => h.isClosed_test ht
    exact ⟨text, by rw [Language.program, htext]; rfl⟩
  c hscalar := by
    obtain ⟨text, htext⟩ := C.exists_program s.numberType.precision
      (fun f hf => h.isClosed_function hf) (fun t ht => h.isClosed_test ht) hscalar
    exact ⟨text, by rw [Language.program, htext]; rfl⟩

end Built

end Library

end Elementary
