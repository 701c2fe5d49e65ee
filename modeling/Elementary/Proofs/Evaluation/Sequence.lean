import Elementary.C.Program
import Elementary.Evaluation.Emulation
import Elementary.Native.Module
import Elementary.Proofs.Evaluation.Steps
import Elementary.Proofs.Expr.Basic

/-!
# Nested sequences of statements

Both backends open up nested sequences, so that in their output the first result in reading order
ends the function. The evaluation runs a nested sequence for its assignments and drops its value.
The two agree on a body whose first result stands in the body itself, and the assignments of nested
sequences do no harm; when the first result is nested, the evaluation goes on behind it.

## Main results

* `evaluateSequence_first_result`: the first result of a sequence ends it.
* `evaluateSequence_flattenAll`: a body whose first result is direct means what it means flattened.
* `evaluateSequence_of_nested`: what the evaluation does when the first result is nested.
* `GeneratedFunction.call_flattened`: the shapes of bodies on which calls and backends agree.
-/

namespace Elementary

namespace Expr

variable {ν : Type} {A : Arithmetic ν} {calls : Calls ν} {env : Bindings ν} {e s : Expr}
  {es as bs : List Expr}

/-! ### Sequences of statements -/

/-- A body gives a **result** when some statement of it, or of a sequence nested in it, is one. -/
def givesResult (e : Expr) : Bool := e.flatten.any (·.op = .result)

/-- The **bindings after** some statements whose values are dropped. -/
def runAll (A : Arithmetic ν) (calls : Calls ν) (es : List Expr) (env : Bindings ν) :
    Except Failure (Bindings ν) :=
  es.foldlM (fun env e => (evaluate A calls e env).map Prod.snd) env

theorem runAll_cons (e : Expr) (es : List Expr) (env : Bindings ν) :
    runAll A calls (e :: es) env =
      (evaluate A calls e env).map Prod.snd >>= runAll A calls es :=
  List.foldlM_cons

theorem runAll_append (as bs : List Expr) (env : Bindings ν) :
    runAll A calls (as ++ bs) env = runAll A calls as env >>= runAll A calls bs :=
  List.foldlM_append

/-- A sequence that **begins without a result** runs its beginning for the bindings. -/
theorem evaluateSequence_append (h : ∀ a ∈ as, a.op ≠ .result) :
    ∀ env, evaluateSequence A calls (as ++ bs) env =
      runAll A calls as env >>= evaluateSequence A calls bs := by
  induction as with
  | nil => exact fun env => rfl
  | cons a as ih =>
    intro env
    have htail := ih fun e he => h e (List.mem_cons_of_mem a he)
    rw [List.cons_append, evaluateSequence, if_neg (h a List.mem_cons_self), runAll_cons]
    cases evaluate A calls a env with
    | error f => rfl
    | ok r => exact htail r.2

/-- A sequence that **holds a result** does not reach what is behind it. -/
theorem evaluateSequence_append_of_result (h : ∃ a ∈ as, a.op = .result) :
    ∀ env, evaluateSequence A calls (as ++ bs) env = evaluateSequence A calls as env := by
  induction as with
  | nil =>
    obtain ⟨a, ha, -⟩ := h
    exact absurd ha List.not_mem_nil
  | cons a as ih =>
    intro env
    rw [List.cons_append, evaluateSequence, evaluateSequence]
    by_cases ha : a.op = .result
    · rw [if_pos ha, if_pos ha]
    · rw [if_neg ha, if_neg ha]
      have htail : ∃ b ∈ as, b.op = .result := by
        obtain ⟨b, hb, hop⟩ := h
        rcases List.mem_cons.mp hb with rfl | hb
        · exact absurd hop ha
        · exact ⟨b, hb, hop⟩
      cases evaluate A calls a env with
      | error f => rfl
      | ok r => exact ih htail r.2

/-- A sequence without a result gives nothing and the bindings after it. -/
theorem evaluateSequence_of_no_result (h : ∀ a ∈ as, a.op ≠ .result) (env : Bindings ν) :
    evaluateSequence A calls as env = (runAll A calls as env).map fun env => (.nothing, env) := by
  have happend : evaluateSequence A calls (as ++ []) env =
      runAll A calls as env >>= evaluateSequence A calls [] := evaluateSequence_append h env
  rw [List.append_nil] at happend
  rw [happend]
  cases runAll A calls as env <;> rfl

/-- **The first result of a sequence** ends it: its operand is evaluated after the statements that
stand before it. -/
theorem evaluateSequence_first_result {rest : List Expr} (h : ∀ a ∈ as, a.op ≠ .result)
    (value : Expr) (env : Bindings ν) :
    evaluateSequence A calls (as ++ node .result [value] :: rest) env =
      runAll A calls as env >>= evaluate A calls value :=
  evaluateSequence_append h env

/-! ### Results in nested sequences -/

theorem givesResult_statement (es : List Expr) :
    (node .statement es).givesResult = es.any givesResult := by
  unfold givesResult
  rw [flatten, flattenAll_eq_flatMap, List.any_flatMap]

/-- A result gives a result. -/
theorem givesResult_of_op (h : e.op = .result) : e.givesResult = true := by
  have hne : e.op ≠ .statement := by
    rw [h]
    simp
  rw [givesResult, flatten_of_ne_statement hne, List.any_cons, h]
  rfl

/-- What gives no result is none, and flattened it holds none. -/
theorem op_ne_result_of_givesResult (h : e.givesResult = false) :
    e.op ≠ .result ∧ ∀ a ∈ e.flatten, a.op ≠ .result := by
  constructor
  · intro hop
    rw [givesResult_of_op hop] at h
    cases h
  · intro a ha hop
    exact List.any_eq_false.mp h a ha (decide_eq_true hop)

/-- A sequence whose value is dropped is run for the bindings, statement by statement. -/
theorem runAll_flattenAll
    (h : ∀ e ∈ es, ∀ env, runAll A calls e.flatten env = (evaluate A calls e env).map Prod.snd) :
    ∀ env, runAll A calls (flattenAll es) env = runAll A calls es env := by
  induction es with
  | nil => exact fun env => rfl
  | cons e es ih =>
    intro env
    have htail := ih fun a ha => h a (List.mem_cons_of_mem e ha)
    rw [flattenAll, runAll_append, h e List.mem_cons_self env, runAll_cons]
    cases evaluate A calls e env with
    | error f => rfl
    | ok r => exact htail r.2

/-- **A nested sequence without a result** does what its flattened statements do. -/
theorem runAll_flatten (h : e.givesResult = false) :
    ∀ env, runAll A calls e.flatten env = (evaluate A calls e env).map Prod.snd := by
  induction e with
  | node op es ih =>
    intro env
    by_cases hop : op = .statement
    · subst hop
      rw [givesResult_statement] at h
      have hes : ∀ e ∈ es, e.givesResult = false := fun e he =>
        Bool.eq_false_iff.mpr (List.any_eq_false.mp h e he)
      have hnone : ∀ e ∈ es, e.op ≠ .result := fun e he =>
        (op_ne_result_of_givesResult (hes e he)).1
      rw [flatten, runAll_flattenAll fun e he => ih e he (hes e he), evaluate,
        evaluateSequence_of_no_result hnone]
      cases runAll A calls es env <;> rfl
    · rw [flatten_of_ne_statement (e := node op es) hop, runAll_cons]
      cases evaluate A calls (node op es) env <;> rfl

/-- Whether the **first result** of a sequence, in reading order, stands in the sequence itself and
not in one nested in it; so it is also when there is no result. -/
def firstResultDirect : List Expr → Bool
  | [] => true
  | e :: es => if e.op = .result then true else !e.givesResult && firstResultDirect es

/-- **A sequence whose first result is direct** means what it means flattened. -/
theorem evaluateSequence_flattenAll (h : firstResultDirect es = true) :
    ∀ env, evaluateSequence A calls (flattenAll es) env = evaluateSequence A calls es env := by
  induction es with
  | nil => exact fun env => rfl
  | cons e es ih =>
    intro env
    rw [flattenAll]
    by_cases hop : e.op = .result
    · have hne : e.op ≠ .statement := by
        rw [hop]
        simp
      rw [flatten_of_ne_statement hne, List.singleton_append, evaluateSequence, evaluateSequence,
        if_pos hop, if_pos hop]
    · rw [firstResultDirect, if_neg hop, Bool.and_eq_true, Bool.not_eq_true'] at h
      rw [evaluateSequence_append (op_ne_result_of_givesResult h.1).2, runAll_flatten h.1,
        evaluateSequence, if_neg hop]
      cases evaluate A calls e env with
      | error f => rfl
      | ok r => exact ih h.2 r.2

/-- What gives a result without being one is a sequence. -/
theorem exists_statement_of_givesResult (h : e.givesResult = true) (hop : e.op ≠ .result) :
    ∃ inner, e = node .statement inner := by
  obtain ⟨op, es⟩ := e
  by_cases hstatement : op = .statement
  · exact ⟨es, by rw [hstatement]⟩
  · rw [givesResult, flatten_of_ne_statement (e := node op es) hstatement, List.any_cons,
      List.any_nil, Bool.or_false] at h
    exact absurd (of_decide_eq_true h) hop

/-- A sequence whose first result is nested, taken apart at that sequence. -/
theorem exists_nested (h : firstResultDirect es = false) :
    ∃ pre inner post, es = pre ++ node .statement inner :: post ∧
      (∀ e ∈ pre, e.givesResult = false) ∧ (node .statement inner).givesResult = true := by
  induction es with
  | nil => cases h
  | cons e es ih =>
    by_cases hop : e.op = .result
    · rw [firstResultDirect, if_pos hop] at h
      cases h
    · rw [firstResultDirect, if_neg hop, Bool.and_eq_false_iff, Bool.not_eq_false'] at h
      cases hgives : e.givesResult with
      | true =>
        obtain ⟨inner, rfl⟩ := exists_statement_of_givesResult hgives hop
        exact ⟨[], inner, es, rfl, fun a ha => absurd ha List.not_mem_nil, hgives⟩
      | false =>
        obtain ⟨pre, inner, post, rfl, hpre, hinner⟩ := ih (h.resolve_left (by simp [hgives]))
        refine ⟨e :: pre, inner, post, rfl, fun a ha => ?_, hinner⟩
        rcases List.mem_cons.mp ha with rfl | ha
        · exact hgives
        · exact hpre a ha

/-- **What happens to a nested result.** The evaluation runs the sequence around the first result,
drops the value and goes on; flattened, the statements of that sequence give the value. -/
theorem evaluateSequence_of_nested {pre inner post : List Expr}
    (hpre : ∀ e ∈ pre, e.givesResult = false)
    (hinner : (node .statement inner).givesResult = true) (env : Bindings ν) :
    evaluateSequence A calls (pre ++ node .statement inner :: post) env =
      (do let env ← runAll A calls pre env
          let (_, env) ← evaluateSequence A calls inner env
          evaluateSequence A calls post env) ∧
    evaluateSequence A calls (flattenAll (pre ++ node .statement inner :: post)) env =
      (do let env ← runAll A calls pre env
          evaluateSequence A calls (flattenAll inner) env) := by
  constructor
  · rw [evaluateSequence_append fun e he => (op_ne_result_of_givesResult (hpre e he)).1]
    congr 1
  · have hflat : ∀ a ∈ flattenAll pre, a.op ≠ .result := by
      intro a ha
      rw [flattenAll_eq_flatMap] at ha
      obtain ⟨e, he, ha⟩ := List.mem_flatMap.mp ha
      exact (op_ne_result_of_givesResult (hpre e he)).2 a ha
    rw [flattenAll_append, evaluateSequence_append hflat,
      runAll_flattenAll fun e he => runAll_flatten (hpre e he)]
    congr 1
    funext env
    have hresult : ∃ a ∈ flattenAll inner, a.op = .result := by
      obtain ⟨a, ha, hop⟩ := List.any_eq_true.mp hinner
      exact ⟨a, ha, of_decide_eq_true hop⟩
    exact evaluateSequence_append_of_result hresult env

/-! ### The shapes of bodies -/

/-- The **statements of a body**: assignments, results, and sequences of statements. -/
inductive IsStatement : Expr → Prop
  | assignment (target value : Expr) : IsStatement (node .assignment [target, value])
  | result (value : Expr) : IsStatement (node .result [value])
  | sequence (es : List Expr) (h : ∀ e ∈ es, IsStatement e) : IsStatement (node .statement es)

/-- Flattened statements are assignments and results. -/
theorem IsStatement.of_mem_flatten (h : e.IsStatement) (hs : s ∈ e.flatten) :
    s.op = .assignment ∨ s.op = .result := by
  induction h with
  | assignment target value => exact Or.inl (by rw [List.mem_singleton.mp hs]; rfl)
  | result value => exact Or.inr (by rw [List.mem_singleton.mp hs]; rfl)
  | sequence es _ ih =>
    rw [flatten, flattenAll_eq_flatMap] at hs
    obtain ⟨e, he, hs⟩ := List.mem_flatMap.mp hs
    exact ih e he hs

mutual

/-- The **shape of a statement**: how the sequences are nested, without what is assigned and
given. -/
def shape : Expr → Expr
  | node .statement es => node .statement (shapeAll es)
  | node op _ => node op []

/-- The shapes of a list of statements. -/
def shapeAll : List Expr → List Expr
  | [] => []
  | e :: es => shape e :: shapeAll es

end

theorem shapeAll_eq_map (es : List Expr) : shapeAll es = es.map shape := by
  induction es with
  | nil => rfl
  | cons e es ih => rw [shapeAll, ih, List.map_cons]

/-- What is no sequence has the shape of its operation. -/
theorem shape_of_ne_statement {op : Op} (h : op ≠ .statement) (es : List Expr) :
    (node op es).shape = node op [] := by
  cases op <;> first | rfl | exact absurd rfl h

theorem op_shape (e : Expr) : e.shape.op = e.op := by
  obtain ⟨op, es⟩ := e
  cases op <;> rfl

/-- The shape tells whether a statement gives a result. -/
theorem givesResult_shape (e : Expr) : e.shape.givesResult = e.givesResult := by
  induction e with
  | node op es ih =>
    by_cases hop : op = .statement
    · subst hop
      rw [shape, givesResult_statement, givesResult_statement, shapeAll_eq_map, List.any_map]
      rw [Bool.eq_iff_iff, List.any_eq_true, List.any_eq_true]
      exact exists_congr fun a => and_congr_right fun ha => by rw [Function.comp_apply, ih a ha]
    · rw [shape_of_ne_statement hop, givesResult, givesResult,
        flatten_of_ne_statement (e := node op []) hop,
        flatten_of_ne_statement (e := node op es) hop]
      rfl

/-- The shape tells whether the first result is direct. -/
theorem firstResultDirect_shapeAll (es : List Expr) :
    firstResultDirect (shapeAll es) = firstResultDirect es := by
  induction es with
  | nil => rfl
  | cons e es ih =>
    rw [shapeAll, firstResultDirect, firstResultDirect, op_shape, givesResult_shape, ih]

mutual

/-- A statement of the same shape that gives `c`, or `1` where it is nested. -/
def fill (c : Nat) : Expr → Expr
  | node .statement es => node .statement (fillAll 1 es)
  | node .result _ => node .result [node (.bitPattern c) []]
  | node .assignment _ => node .assignment [var "x", node (.bitPattern c) []]
  | node op es => node op es

/-- The statements of a list, each filled. -/
def fillAll (c : Nat) : List Expr → List Expr
  | [] => []
  | e :: es => fill c e :: fillAll c es

end

theorem fillAll_eq_map (c : Nat) (es : List Expr) : fillAll c es = es.map (fill c) := by
  induction es with
  | nil => rfl
  | cons e es ih => rw [fillAll, ih, List.map_cons]

/-- Filling a statement keeps its shape. -/
theorem shape_fill (e : Expr) : ∀ c, (e.fill c).shape = e.shape := by
  induction e with
  | node op es ih =>
    intro c
    by_cases hop : op = .statement
    · subst hop
      rw [fill, shape, shape, fillAll_eq_map, shapeAll_eq_map, shapeAll_eq_map, List.map_map]
      congr 1
      exact List.map_congr_left fun e he => ih e he 1
    · cases op <;> first | rfl | exact absurd rfl hop

theorem op_fill (e : Expr) (c : Nat) : (e.fill c).op = e.op := by
  rw [← op_shape, shape_fill, op_shape]

theorem givesResult_fill (e : Expr) (c : Nat) : (e.fill c).givesResult = e.givesResult := by
  rw [← givesResult_shape, shape_fill, givesResult_shape]

/-- A filled statement is a statement. -/
theorem IsStatement.fill (h : e.IsStatement) : ∀ c, (e.fill c).IsStatement := by
  induction h with
  | assignment target value => exact fun c => .assignment _ _
  | result value => exact fun c => .result _
  | sequence es _ ih =>
    intro c
    rw [Expr.fill, fillAll_eq_map]
    exact .sequence _ (List.forall_mem_map.mpr fun e he => ih e he 1)

variable (p : Precision) (calls : Calls Scalar)

/-- The value that a filled sequence drops or gives: none, or that of its own results. -/
theorem evaluateSequence_fillAll_of (c : Nat)
    (h : ∀ e ∈ es, ∀ env, ∃ v env',
      evaluate (Emulation.arithmetic p) calls (e.fill c) env = .ok (v, env') ∧
        (e.op = .result → v = .number (.integer c))) :
    ∀ env, ∃ v env',
      evaluateSequence (Emulation.arithmetic p) calls (fillAll c es) env = .ok (v, env') ∧
        (v = .nothing ∨ v = .number (.integer c)) := by
  induction es with
  | nil => exact fun env => ⟨.nothing, env, rfl, Or.inl rfl⟩
  | cons e es ih =>
    intro env
    obtain ⟨v, env', heval, hv⟩ := h e List.mem_cons_self env
    rw [fillAll, evaluateSequence, op_fill]
    by_cases hresult : e.op = .result
    · rw [if_pos hresult]
      exact ⟨v, env', heval, Or.inr (hv hresult)⟩
    · rw [if_neg hresult, heval]
      exact ih (fun a ha => h a (List.mem_cons_of_mem e ha)) env'

/-- A filled statement can be evaluated, and as a result it gives the number. -/
theorem IsStatement.evaluate_fill (h : e.IsStatement) : ∀ c env, ∃ v env',
    evaluate (Emulation.arithmetic p) calls (e.fill c) env = .ok (v, env') ∧
      (e.op = .result → v = .number (.integer c)) := by
  induction h with
  | assignment target value =>
    exact fun c env => ⟨.nothing, _, rfl, fun h => by cases h⟩
  | result value => exact fun c env => ⟨_, env, rfl, fun _ => rfl⟩
  | sequence es _ ih =>
    intro c env
    obtain ⟨v, env', heval, -⟩ :=
      evaluateSequence_fillAll_of p calls 1 (fun e he => ih e he 1) env
    exact ⟨v, env', heval, fun h => by cases h⟩

/-- **A filled sequence gives only its own results.** -/
theorem evaluateSequence_fillAll (h : ∀ e ∈ es, e.IsStatement) (c : Nat)
    (env : Bindings Scalar) : ∃ v env',
      evaluateSequence (Emulation.arithmetic p) calls (fillAll c es) env = .ok (v, env') ∧
        (v = .nothing ∨ v = .number (.integer c)) :=
  evaluateSequence_fillAll_of p calls c (fun e he => (h e he).evaluate_fill p calls c) env

/-- Some filled statements run for the bindings. -/
theorem runAll_fillAll (h : ∀ e ∈ es, e.IsStatement) (c : Nat) :
    ∀ env, ∃ env', runAll (Emulation.arithmetic p) calls (fillAll c es) env = .ok env' := by
  induction es with
  | nil => exact fun env => ⟨env, rfl⟩
  | cons e es ih =>
    intro env
    obtain ⟨v, env', heval, -⟩ := (h e List.mem_cons_self).evaluate_fill p calls c env
    rw [fillAll, runAll_cons, heval]
    exact ih (fun a ha => h a (List.mem_cons_of_mem e ha)) env'

/-- Inside a nested sequence every filled statement assigns or gives `1`. -/
theorem IsStatement.of_mem_flatten_fill (h : e.IsStatement) (hs : s ∈ (e.fill 1).flatten) :
    s = node .assignment [var "x", node (.bitPattern 1) []] ∨
      s = node .result [node (.bitPattern 1) []] := by
  induction h with
  | assignment target value => exact Or.inl (List.mem_singleton.mp hs)
  | result value => exact Or.inr (List.mem_singleton.mp hs)
  | sequence es _ ih =>
    rw [Expr.fill, flatten, flattenAll_eq_flatMap, fillAll_eq_map, List.flatMap_map] at hs
    obtain ⟨e, he, hs⟩ := List.mem_flatMap.mp hs
    exact ih e he hs

/-- Statements that assign or give `1`, with a result among them, give `1`. -/
theorem evaluateSequence_one
    (h : ∀ s ∈ es, s = node .assignment [var "x", node (.bitPattern 1) []] ∨
      s = node .result [node (.bitPattern 1) []])
    (hresult : ∃ s ∈ es, s.op = .result) : ∀ env, ∃ env',
      evaluateSequence (Emulation.arithmetic p) calls es env =
        .ok (.number (.integer 1), env') := by
  induction es with
  | nil =>
    obtain ⟨s, hs, -⟩ := hresult
    exact absurd hs List.not_mem_nil
  | cons e es ih =>
    intro env
    rcases h e List.mem_cons_self with rfl | rfl
    · have htail : ∃ s ∈ es, s.op = .result := by
        obtain ⟨s, hs, hop⟩ := hresult
        rcases List.mem_cons.mp hs with rfl | hs
        · cases hop
        · exact ⟨s, hs, hop⟩
      exact ih (fun s hs => h s (List.mem_cons_of_mem _ hs)) htail _
    · exact ⟨env, rfl⟩

/-- **A filled sequence whose first result is nested** gives `1` when it is flattened. -/
theorem evaluateSequence_flattenAll_fillAll (h : ∀ e ∈ es, e.IsStatement)
    (hnested : firstResultDirect es = false) (env : Bindings Scalar) :
    ∃ env', evaluateSequence (Emulation.arithmetic p) calls (flattenAll (fillAll 0 es)) env =
      .ok (.number (.integer 1), env') := by
  obtain ⟨pre, inner, post, rfl, hpre, hinner⟩ := exists_nested hnested
  have hsequence : (node .statement inner).IsStatement := h _ (by simp)
  have hfill : fillAll 0 (pre ++ node .statement inner :: post) =
      fillAll 0 pre ++ node .statement (fillAll 1 inner) :: fillAll 0 post := by
    rw [fillAll_eq_map, List.map_append, List.map_cons, ← fillAll_eq_map, ← fillAll_eq_map, fill]
  have hpre' : ∀ e ∈ fillAll 0 pre, e.givesResult = false := by
    rw [fillAll_eq_map]
    exact List.forall_mem_map.mpr fun e he => (givesResult_fill e 0).trans (hpre e he)
  have hinner' : (node .statement (fillAll 1 inner)).givesResult = true :=
    (givesResult_fill (node .statement inner) 1).trans hinner
  obtain ⟨env', hrun⟩ :=
    runAll_fillAll p calls (fun e he => h e (List.mem_append_left _ he)) 0 env
  have hresult : ∃ s ∈ flattenAll (fillAll 1 inner), s.op = .result := by
    obtain ⟨s, hs, hop⟩ := List.any_eq_true.mp hinner'
    exact ⟨s, hs, of_decide_eq_true hop⟩
  rw [hfill, (evaluateSequence_of_nested hpre' hinner' env).2, hrun]
  exact evaluateSequence_one p calls (fun s hs => hsequence.of_mem_flatten_fill hs) hresult env'

end Expr

namespace GeneratedFunction

variable {f g : GeneratedFunction}

/-- A function with its **body flattened**. -/
def flattened (f : GeneratedFunction) : GeneratedFunction :=
  { f with statements := Expr.flattenAll f.statements }

/-- The body of a function **consists of statements**. -/
def HasStatements (f : GeneratedFunction) : Prop := ∀ e ∈ f.statements, e.IsStatement

/-- Functions with bodies of **one shape**. -/
def SameShape (g f : GeneratedFunction) : Prop :=
  Expr.shapeAll g.statements = Expr.shapeAll f.statements

/-- A call runs the statements over the bindings of the arguments. -/
theorem call_succ {ν : Type} (A : Arithmetic ν) (find : String → Option GeneratedFunction)
    (depth : Nat) (f : GeneratedFunction) (values : List (Value ν)) :
    A.call find (depth + 1) f values =
      (do let env ← A.bindArguments f.arguments values
          let (v, _) ← Expr.evaluateSequence A (fun name => (find name).map (A.call find depth))
            f.statements env
          return v) := rfl

/-- **Calls of a function whose first result is direct** are those of the flattened function. -/
theorem call_eq_of_firstResultDirect {ν : Type} (A : Arithmetic ν)
    (find : String → Option GeneratedFunction) (h : Expr.firstResultDirect f.statements = true)
    (depth : Nat) (values : List (Value ν)) :
    A.call find depth f values = A.call find depth f.flattened values := by
  cases depth with
  | zero => rfl
  | succ depth =>
    rw [call_succ, call_succ]
    show _ = (do let env ← A.bindArguments f.arguments values
                 let (v, _) ← Expr.evaluateSequence A _ (Expr.flattenAll f.statements) env
                 return v)
    simp only [Expr.evaluateSequence_flattenAll h]

/-- **A body of the same shape** on which the calls are not those of the flattened function. -/
theorem exists_call_ne (hf : f.HasStatements) (h : Expr.firstResultDirect f.statements = false)
    (p : Precision) (find : String → Option GeneratedFunction) :
    ∃ g, g.HasStatements ∧ g.SameShape f ∧
      (Emulation.arithmetic p).call find 1 g [] ≠
        (Emulation.arithmetic p).call find 1 g.flattened [] := by
  refine ⟨{ f with statements := Expr.fillAll 0 f.statements }, ?_, ?_, ?_⟩
  · intro e he
    change e ∈ Expr.fillAll 0 f.statements at he
    rw [Expr.fillAll_eq_map] at he
    obtain ⟨a, ha, rfl⟩ := List.mem_map.mp he
    exact (hf a ha).fill 0
  · show Expr.shapeAll (Expr.fillAll 0 f.statements) = _
    rw [Expr.fillAll_eq_map, Expr.shapeAll_eq_map, Expr.shapeAll_eq_map, List.map_map]
    exact List.map_congr_left fun e _ => Expr.shape_fill e 0
  · have harguments : (Emulation.arithmetic p).bindArguments f.arguments [] = .ok [] := by
      rw [Arithmetic.bindArguments, List.zip_nil_right]
      rfl
    let calls : Calls Scalar := fun name => (find name).map ((Emulation.arithmetic p).call find 0)
    obtain ⟨v, env, heval, hv⟩ := Expr.evaluateSequence_fillAll p calls hf 0 []
    obtain ⟨env', hflat⟩ := Expr.evaluateSequence_flattenAll_fillAll p calls hf h []
    have hcall := Arithmetic.call_eq (f := { f with statements := Expr.fillAll 0 f.statements })
      harguments heval
    have hcall' := Arithmetic.call_eq
      (f := flattened { f with statements := Expr.fillAll 0 f.statements }) harguments hflat
    rw [hcall, hcall']
    rcases hv with rfl | rfl <;> simp

/-- The Python definition opens up nested sequences. -/
theorem ofFunction_flattened (nt : NumberType) (f : GeneratedFunction) :
    Native.Definition.ofFunction nt f.flattened = Native.Definition.ofFunction nt f := by
  simp only [Native.Definition.ofFunction, flattened]
  simp only [Expr.flattenAll_flattenAll]

/-- The C definition opens up nested sequences. -/
theorem addFunction_flattened (p : Precision) (b : Source.Buffer) (f : GeneratedFunction) :
    C.addFunction p b f.flattened = C.addFunction p b f := by
  rw [C.addFunction]
  show _ = (do
    let opened := (b.add (C.declaration f p ++ " ")).openBlock Source.Buffer.defaultHeader
    let inner := f.arguments.foldl C.declareIn opened
    return C.closeBlock (← (Expr.flattenAll f.statements).foldlM (C.addStatement f p) inner))
  rw [← Expr.flattenAll_flattenAll f.statements]
  rfl

/-- **Nested results end a function only in the backends.** For a body of nested statements, both
backends write what they write for the flattened body, a list of assignments and results of which
the first result gives the value, after the assignments before it. Calls of the function are calls
of the flattened one, on every body of the shape, exactly if in that shape the first result is
direct. Otherwise the evaluation runs the sequence around the first result, drops the value and
goes on, where the flattened body gives the value of that sequence. -/
theorem call_flattened (f : GeneratedFunction) (hf : f.HasStatements) :
    (∀ s ∈ f.flattened.statements, s.op = .assignment ∨ s.op = .result) ∧
    (∀ as value rest, f.flattened.statements = as ++ .node .result [value] :: rest →
      (∀ a ∈ as, a.op ≠ .result) →
        ∀ (ν : Type) (A : Arithmetic ν) (calls : Calls ν) (env : Bindings ν),
          Expr.evaluateSequence A calls f.flattened.statements env =
            (do let env ← Expr.runAll A calls as env; Expr.evaluate A calls value env)) ∧
    (∀ nt, Native.Definition.ofFunction nt f.flattened = Native.Definition.ofFunction nt f) ∧
    (∀ p b, C.addFunction p b f.flattened = C.addFunction p b f) ∧
    (Expr.firstResultDirect f.statements = true ↔
      ∀ g : GeneratedFunction, g.HasStatements → g.SameShape f →
        ∀ (ν : Type) (A : Arithmetic ν) (find : String → Option GeneratedFunction) (depth : Nat)
          (values : List (Value ν)),
          A.call find depth g values = A.call find depth g.flattened values) ∧
    (Expr.firstResultDirect f.statements = false →
      ∃ pre inner post, f.statements = pre ++ .node .statement inner :: post ∧
        (∀ e ∈ pre, e.givesResult = false) ∧
        (Expr.node .statement inner).givesResult = true ∧
        ∀ (ν : Type) (A : Arithmetic ν) (calls : Calls ν) (env : Bindings ν),
          Expr.evaluateSequence A calls f.statements env =
            (do let env ← Expr.runAll A calls pre env
                let (_, env) ← Expr.evaluateSequence A calls inner env
                Expr.evaluateSequence A calls post env) ∧
          Expr.evaluateSequence A calls f.flattened.statements env =
            (do let env ← Expr.runAll A calls pre env
                Expr.evaluateSequence A calls (Expr.flattenAll inner) env)) := by
  refine ⟨?_, ?_, fun nt => ofFunction_flattened nt f, fun p b => addFunction_flattened p b f,
    ⟨?_, ?_⟩, ?_⟩
  · intro s hs
    change s ∈ Expr.flattenAll f.statements at hs
    rw [Expr.flattenAll_eq_flatMap] at hs
    obtain ⟨e, he, hs⟩ := List.mem_flatMap.mp hs
    exact (hf e he).of_mem_flatten hs
  · intro as value rest hflat has ν A calls env
    rw [hflat]
    exact Expr.evaluateSequence_first_result has value env
  · intro h g _ hshape ν A find depth values
    have hg : Expr.firstResultDirect g.statements = true := by
      rw [← Expr.firstResultDirect_shapeAll, hshape, Expr.firstResultDirect_shapeAll, h]
    exact call_eq_of_firstResultDirect A find hg depth values
  · intro h
    by_contra hnested
    obtain ⟨g, hg, hshape, hne⟩ :=
      exists_call_ne hf (Bool.eq_false_iff.mpr hnested) .double fun _ => none
    exact hne (h g hg hshape _ _ _ _ _)
  · intro h
    obtain ⟨pre, inner, post, hes, hpre, hinner⟩ := Expr.exists_nested h
    refine ⟨pre, inner, post, hes, hpre, hinner, fun ν A calls env => ?_⟩
    show Expr.evaluateSequence A calls f.statements env = _ ∧
      Expr.evaluateSequence A calls (Expr.flattenAll f.statements) env = _
    rw [hes]
    exact Expr.evaluateSequence_of_nested hpre hinner env

/-- A function whose first result is nested, with another result behind it. -/
def nestedResult : GeneratedFunction where
  name := "nested"
  numberType := ⟨.double, false⟩
  arguments := []
  statements :=
    [.node .statement [.node .result [.node (.bitPattern 1) []]],
      .node .result [.node (.bitPattern 2) []]]
  outputs := 1
  fits := []

/-- Its shape is one on which the evaluation and the flattened bodies differ. -/
theorem not_call_flattened_nestedResult :
    nestedResult.HasStatements ∧
      ¬ ∀ g : GeneratedFunction, g.HasStatements → g.SameShape nestedResult →
        ∀ (ν : Type) (A : Arithmetic ν) (find : String → Option GeneratedFunction) (depth : Nat)
          (values : List (Value ν)),
          A.call find depth g values = A.call find depth g.flattened values := by
  have hf : nestedResult.HasStatements := by
    intro e he
    simp only [nestedResult, List.mem_cons, List.not_mem_nil, or_false] at he
    rcases he with rfl | rfl
    · exact .sequence _ fun e he => List.mem_singleton.mp he ▸ .result _
    · exact .result _
  refine ⟨hf, fun h => ?_⟩
  obtain ⟨-, -, -, -, hiff, -⟩ := call_flattened nestedResult hf
  have hdirect := hiff.mpr h
  cases hdirect

/-- Its call gives the second result, and the call of the flattened function the first. -/
theorem call_nestedResult :
    (Emulation.arithmetic .double).call (fun _ => none) 1 nestedResult [] =
        .ok (.number (.integer 2)) ∧
      (Emulation.arithmetic .double).call (fun _ => none) 1 nestedResult.flattened [] =
        .ok (.number (.integer 1)) :=
  ⟨rfl, rfl⟩

end GeneratedFunction

end Elementary
