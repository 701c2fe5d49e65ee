import Elementary.Expr.Transformation
import Elementary.Proofs.Computation
import Elementary.Proofs.Expr.Graph
import Mathlib.Data.List.Forall2

/-!
# Runs of a transformation

A transformation visits the nodes of a graph from the inputs up and keeps the results. A property
of its runs is proved by saying what is known of the state between two visits, what is known of the
result for a node, and why one visit, that of a node whose inputs have their results, keeps both.
The induction over the graph is made once, here.

## Main results

* `transformWith_ends`: what one visit preserves holds of the whole run.
* `rebuild_same`, `rebuild_new`, `rebuild_ends`: the node on its new inputs.
* `visit_ends`: one visit, from what the step does with the rebuilt node.
* `transform_idle`: a transformation that changes no node gives back the very graph.
-/

namespace Elementary

open Elementary.Computation

/-- The state in which a transformation **starts**. -/
def TransformState.start (next : Nat) : TransformState := ⟨next, [], [], #[]⟩

/-- A state **extends** another one when it was reached from it: labels are only taken, results and
calls are only added. -/
structure TransformState.Extends (s' s : TransformState) : Prop where
  next_le : s.next ≤ s'.next
  results : s.results <:+ s'.results
  calls : s.calls <:+ s'.calls

namespace TransformState.Extends

variable {s s' s'' : TransformState}

theorem refl (s : TransformState) : s.Extends s :=
  ⟨Nat.le_refl _, List.suffix_refl _, List.suffix_refl _⟩

theorem trans (h' : s''.Extends s') (h : s'.Extends s) : s''.Extends s :=
  ⟨Nat.le_trans h.next_le h'.next_le, h.results.trans h'.results, h.calls.trans h'.calls⟩

end TransformState.Extends

namespace TransformM

variable {α : Type} {s : TransformState}

/-- A computation with labels that succeeds moves on the next free one. -/
theorem runFrom_withLabels_ok {f : Nat → Except Failure (α × Nat)} {a : α} {next : Nat}
    (h : f s.next = .ok (a, next)) :
    runFrom (withLabels f) s = (.ok a, { s with next := next }) := by
  rw [withLabels, runFrom_bind_ok (runFrom_get s), h]
  rfl

/-- A traced computation inside a transformation only adds messages to the state. -/
theorem ofTraced_ends {x : Traced α} {Q : α → Prop} {E : Failure → Prop}
    (hx : ∀ events, Ends x events (fun a _ => Q a) fun f _ => E f) :
    Ends (ofTraced x) s (fun a s' => Q a ∧ ∃ events, s' = { s with events := events })
      fun f _ => E f := by
  have hcollect : x.collect = ((runFrom x #[]).1, (runFrom x #[]).2.toList) := rfl
  have hx := hx #[]
  rw [ofTraced, hcollect]
  rcases hrun : runFrom x #[] with ⟨f | a, events⟩
  · exact .modify (.throw (hx.error hrun))
  · exact .modify (.pure ⟨hx.ok hrun, _, rfl⟩)

end TransformM

namespace Node

variable {step : Node → TransformM Replacement} {n : Node} {s : TransformState}

/-! ### One visit -/

/-- The **visit of a node** whose inputs have their results: the node is rebuilt and given to the
step, and the result is kept. -/
def visit (step : Node → TransformM Replacement) (n : Node) (newInputs : List Replacement) :
    TransformM Replacement := do
  let rebuilt ← rebuild n newInputs
  modify fun s => { s with calls := rebuilt :: s.calls }
  let r ← step rebuilt
  modify fun s => { s with results := (n.label, r) :: s.results }
  return r

/-- A node that has a result is not visited again. -/
theorem runFrom_transformWith_known {r : Replacement} (h : s.results.lookup n.label = some r) :
    runFrom (transformWith step n) s = (.ok r, s) := by
  cases n with
  | mk label op inputs =>
    rw [transformWith, runFrom_bind_ok (runFrom_get s)]
    change s.results.lookup label = some r at h
    simp only [h]
    rfl

/-- A node without a result is visited after its inputs. -/
theorem runFrom_transformWith_new (h : s.results.lookup n.label = none) :
    runFrom (transformWith step n) s =
      runFrom (transformAllWith step n.inputs >>= visit step n) s := by
  cases n with
  | mk label op inputs =>
    rw [transformWith, runFrom_bind_ok (runFrom_get s)]
    change s.results.lookup label = none at h
    simp only [h]
    rfl

/-- **One visit**, from what the step does with the rebuilt node. -/
theorem visit_ends {rs : List Replacement} {R : Node → TransformState → Prop}
    {Q : Replacement → TransformState → Prop} {E : Failure → TransformState → Prop}
    (hrebuild : Ends (rebuild n rs) s R fun _ _ => False)
    (hstep : ∀ k s₁, R k s₁ → Ends (step k) { s₁ with calls := k :: s₁.calls }
      (fun r s₂ => Q r { s₂ with results := (n.label, r) :: s₂.results }) E) :
    Ends (visit step n rs) s Q E := by
  have hrebuild := hrebuild.mono (fun k s₁ h => h) fun f s₁ h => (h.elim : E f s₁)
  refine hrebuild.bind fun k s₁ hk => .modify ((hstep k s₁ hk).bind fun r s₂ hr => .modify ?_)
  exact .pure hr

/-- What is known of the results that are kept, and of one more, is known of all of them. -/
theorem forall_lookup_cons {R : Nat → Replacement → Prop} {s' : TransformState} {r : Replacement}
    (h : s'.results = (n.label, r) :: s.results)
    (hs : ∀ label r, s.results.lookup label = some r → R label r) (hr : R n.label r) :
    ∀ label r, s'.results.lookup label = some r → R label r := by
  intro label r' hr'
  rw [h, List.lookup_cons] at hr'
  by_cases hlabel : label = n.label
  · simp only [hlabel, beq_self_eq_true, Option.some.injEq] at hr'
    rwa [hlabel, ← hr']
  · simp only [beq_eq_false_iff_ne.mpr hlabel] at hr'
    exact hs label r' hr'

/-! ### The induction over a run -/

section Run

variable {H : Node → Prop} {J : TransformState → Prop}
  {P : Node → Replacement → TransformState → Prop} {E : Node → Failure → TransformState → Prop}

/-- The results of a list of nodes, from what a run does with each of them. It fails as one of them
does, when those before it have their results. -/
theorem transformAllWith_ends (kept : ∀ n r s s', P n r s → s'.Extends s → P n r s') :
    ∀ ns : List Node,
      (∀ n ∈ ns, ∀ s, J s → Ends (transformWith step n) s
        (fun r s' => J s' ∧ s'.Extends s ∧ P n r s') (E n)) →
      ∀ s, J s → Ends (transformAllWith step ns) s
        (fun rs s' => J s' ∧ s'.Extends s ∧ List.Forall₂ (P · · s') ns rs)
        fun f s' => ∃ pre n post rs s₁, ns = pre ++ n :: post ∧ s₁.Extends s ∧
          List.Forall₂ (P · · s₁) pre rs ∧ E n f s'
  | [], _, s, hs => by
    rw [transformAllWith]
    exact .pure ⟨hs, .refl s, .nil⟩
  | n :: ns, hns, s, hs => by
    rw [transformAllWith]
    have hhead := hns n List.mem_cons_self s hs
    refine (hhead.mono (fun r s₁ h => h) ?_).bind fun r s₁ ⟨h₁, hext₁, hr⟩ => ?_
    · exact fun f s' hf => ⟨[], n, ns, [], s, rfl, .refl s, .nil, hf⟩
    have htail := transformAllWith_ends kept ns
      (fun m hm => hns m (List.mem_cons_of_mem n hm)) s₁ h₁
    refine (htail.mono (fun rs s₂ h => h) ?_).bind fun rs s₂ ⟨h₂, hext₂, hrs⟩ => ?_
    · rintro f s' ⟨pre, m, post, rs, s₂, rfl, hext₂, hrs, hf⟩
      exact ⟨n :: pre, m, post, r :: rs, s₂, rfl, hext₂.trans hext₁,
        .cons (kept n r s₁ s₂ hr hext₂) hrs, hf⟩
    · exact .pure ⟨h₂, hext₂.trans hext₁, .cons (kept n r s₁ s₂ hr hext₂) hrs⟩

/-- **The induction over a run.** Let `J` be known of the state between two visits and `P` of a
node with its result, once and for all. When the results that are kept have `P`, and the visit of a
node whose inputs have results with `P` keeps `J` and gives a result with `P`, then so does the
whole run. Let `E` be known of a failure of a visit, and of a failure at a node when it is known at
the first of its inputs that fails; then it is known of a failure of the run. -/
theorem transformWith_ends (closed : ∀ n, H n → ∀ m ∈ n.inputs, H m)
    (known : ∀ n r s, H n → J s → s.results.lookup n.label = some r → P n r s)
    (kept : ∀ n r s s', P n r s → s'.Extends s → P n r s')
    (failed : ∀ n pre m post rs f s s', H n → n.inputs = pre ++ m :: post →
      List.Forall₂ (P · · s) pre rs → E m f s' → E n f s')
    (visited : ∀ n rs s, H n → J s → List.Forall₂ (P · · s) n.inputs rs →
      Ends (visit step n rs) s (fun r s' => J s' ∧ s'.Extends s ∧ P n r s') (E n)) :
    ∀ n, H n → ∀ s, J s →
      Ends (transformWith step n) s (fun r s' => J s' ∧ s'.Extends s ∧ P n r s') (E n) := by
  intro n
  induction n with
  | mk label op inputs ih =>
    intro hn s hs
    cases hlookup : s.results.lookup label with
    | some r =>
      have hrun : runFrom (transformWith step (mk label op inputs)) s = (.ok r, s) :=
        runFrom_transformWith_known hlookup
      exact .of_ok hrun ⟨hs, .refl s, known _ r s hn hs hlookup⟩
    | none =>
      have hrun : runFrom (transformWith step (mk label op inputs)) s =
          runFrom (transformAllWith step inputs >>= visit step (mk label op inputs)) s :=
        runFrom_transformWith_new hlookup
      have hinputs := transformAllWith_ends kept inputs
        (fun m hm => ih m hm (closed _ hn m hm)) s hs
      have hall : Ends (transformAllWith step inputs >>= visit step (mk label op inputs)) s
          (fun r s' => J s' ∧ s'.Extends s ∧ P (mk label op inputs) r s')
          (E (mk label op inputs)) := by
        refine (hinputs.mono (fun rs s₁ h => h) ?_).bind fun rs s₁ ⟨h₁, hext₁, hrs⟩ => ?_
        · rintro f s' ⟨pre, m, post, rs, s₁, hinputs, -, hrs, hf⟩
          exact failed _ pre m post rs f s₁ s' hn hinputs hrs hf
        · exact (visited _ rs s₁ hn h₁ hrs).mono
            (fun r s₂ ⟨h₂, hext₂, hr⟩ => ⟨h₂, hext₂.trans hext₁, hr⟩) fun f s₂ hf => hf
      rw [Ends] at hall ⊢
      rwa [hrun]

end Run

/-! ### The node on its new inputs -/

/-- Nodes stand for themselves as operands, and take no labels. -/
theorem promoteAll_node (ms : List Node) (next : Nat) :
    promoteAll next (ms.map Operand.node) = .ok (ms, next) := by
  induction ms with
  | nil => rfl
  | cons m ms ih =>
    rw [List.map_cons, promoteAll, Operand.promote]
    show (promoteAll next (ms.map Operand.node)).bind (fun r => .ok (m :: r.1, r.2)) = _
    rw [ih]
    rfl

/-- New inputs are the old ones when their labels are. -/
theorem all_isSame_iff : ∀ ms ns : List Node, ms.length = ns.length →
    ((((ms.map Replacement.node).zip ns).all fun (r, old) => r.isSame old) = true ↔
      ms.map label = ns.map label)
  | [], [], _ => by simp
  | m :: ms, n :: ns, h => by
    have ih := all_isSame_iff ms ns (Nat.succ.inj h)
    rw [List.map_cons, List.zip_cons_cons, List.all_cons, Bool.and_eq_true, ih, List.map_cons,
      List.map_cons, List.cons.injEq]
    exact and_congr_left' beq_iff_eq

variable {ms : List Node}

/-- **The same node** is taken when the new inputs are the old ones. -/
theorem rebuild_same (h : ms.map label = n.inputs.map label) :
    runFrom (rebuild n (ms.map Replacement.node)) s = (.ok n, s) := by
  have hlength : ms.length = n.inputs.length := by
    simpa only [List.length_map] using congrArg List.length h
  rw [rebuild, if_pos ((all_isSame_iff ms n.inputs hlength).mpr h)]
  rfl

/-- **A fresh node** of the same operation is taken when some input is new. -/
theorem rebuild_new (h : ms.map label ≠ n.inputs.map label)
    (hlength : ms.length = n.inputs.length) (hop : n.op.checkArity n.inputs.length = .ok ()) :
    runFrom (rebuild n (ms.map Replacement.node)) s =
      (.ok (mk s.next n.op ms), { s with next := s.next + 1 }) := by
  have hbuild : build s.next n.op ((ms.map Replacement.node).map Replacement.operand) =
      .ok (mk s.next n.op ms, s.next + 1) := by
    have hoperands : (ms.map Replacement.node).map Replacement.operand = ms.map Operand.node :=
      List.map_map
    rw [hoperands, build, List.length_map, hlength, hop]
    show (promoteAll s.next (ms.map Operand.node)).bind
      (fun r => .ok (mk r.2 n.op r.1, r.2 + 1)) = _
    rw [promoteAll_node]
    rfl
  rw [rebuild, if_neg (mt (all_isSame_iff ms n.inputs hlength).mp h)]
  exact TransformM.runFrom_withLabels_ok hbuild

/-- New inputs that are old nodes or fresh ones are the old ones when their labels are. -/
theorem eq_of_map_label {floor : Nat} {ns ms : List Node}
    (hms : List.Forall₂ (fun old m => m = old ∨ floor ≤ m.label) ns ms)
    (hns : ∀ n ∈ ns, n.label < floor) (h : ms.map label = ns.map label) : ms = ns := by
  induction hms with
  | nil => rfl
  | @cons old m ns ms hm _ ih =>
    obtain ⟨hlabel, hlabels⟩ := List.cons.inj h
    have hold := hns old List.mem_cons_self
    rw [ih (fun n hn => hns n (List.mem_cons_of_mem old hn)) hlabels]
    rcases hm with rfl | hfresh
    · rfl
    · omega

/-- **What a rebuilt node is**: the operation of the node on the new inputs, and either the node
itself or a fresh one. -/
theorem rebuild_ends {floor : Nat} (hfloor : floor ≤ s.next)
    (hold : ∀ m ∈ n.inputs, m.label < floor)
    (hms : List.Forall₂ (fun old m => m = old ∨ floor ≤ m.label) n.inputs ms)
    (hop : n.op.checkArity n.inputs.length = .ok ()) :
    Ends (rebuild n (ms.map Replacement.node)) s
      (fun k s' => k.erase = .node n.op (ms.map erase) ∧ (k = n ∨ floor ≤ k.label) ∧
        s'.results = s.results ∧ s'.Extends s) fun _ _ => False := by
  by_cases h : ms.map label = n.inputs.map label
  · obtain rfl := eq_of_map_label hms hold h
    exact .of_ok (rebuild_same rfl) ⟨erase_eq n, Or.inl rfl, rfl, .refl s⟩
  · refine .of_ok (rebuild_new h hms.length_eq.symm hop) ⟨erase_mk _ _ _, Or.inr hfloor, rfl, ?_⟩
    exact ⟨Nat.le_succ _, List.suffix_refl _, List.suffix_refl _⟩

/-! ### Idle transformations -/

/-- A node is left alone by a step that gives back the node it receives. -/
def IdleAt (step : Node → TransformM Replacement) (n : Node) : Prop :=
  ∀ s, ∃ s', runFrom (step n) s = (.ok (.node n), s') ∧ s'.results = s.results ∧ s'.Extends s

/-- Every result that is kept is the node with the label under which it is kept. -/
def KeepsLabels (s : TransformState) : Prop :=
  ∀ label r, s.results.lookup label = some r → ∃ m, r = .node m ∧ m.label = label

/-- The visit of a node that is left alone, with inputs that are the old ones, gives it back. -/
theorem runFrom_visit_idle (hidle : IdleAt step n) (h : ms.map label = n.inputs.map label) :
    ∃ s', runFrom (visit step n (ms.map Replacement.node)) s = (.ok (.node n), s') ∧
      s'.results = (n.label, .node n) :: s.results ∧ s'.Extends s := by
  obtain ⟨s', hstep, hresults, hext⟩ := hidle { s with calls := n :: s.calls }
  refine ⟨{ s' with results := (n.label, .node n) :: s'.results }, ?_, ?_, ?_⟩
  · rw [visit, runFrom_bind_ok (rebuild_same h), runFrom_bind_ok (runFrom_modify _ _),
      runFrom_bind_ok hstep, runFrom_bind_ok (runFrom_modify _ _)]
    rfl
  · rw [hresults]
  · exact ⟨hext.next_le, hext.results.trans (List.suffix_cons _ _),
      (List.suffix_cons _ _).trans hext.calls⟩

/-- What an idle step gives for the inputs of a node has their labels. -/
theorem exists_nodes_of_forall₂ {ns : List Node} {rs : List Replacement}
    (h : List.Forall₂ (fun n r => ∃ m, r = Replacement.node m ∧ m.label = n.label) ns rs) :
    ∃ ms : List Node, rs = ms.map Replacement.node ∧ ms.map label = ns.map label := by
  induction h with
  | nil => exact ⟨[], rfl, rfl⟩
  | cons hr _ ih =>
    obtain ⟨m, rfl, hm⟩ := hr
    obtain ⟨ms, rfl, hms⟩ := ih
    exact ⟨m :: ms, rfl, by rw [List.map_cons, List.map_cons, hm, hms]⟩

/-- An idle transformation goes through the inputs of a node without changing any. -/
theorem transformWith_idle {root : Node} (hidle : ∀ m ∈ root.subnodes, IdleAt step m) :
    ∀ n, n ∈ root.subnodes → ∀ s, KeepsLabels s →
      Ends (transformWith step n) s
        (fun r s' => KeepsLabels s' ∧ s'.Extends s ∧ ∃ m, r = .node m ∧ m.label = n.label)
        fun _ _ => False := by
  refine transformWith_ends (J := KeepsLabels) (E := fun _ _ _ => False)
    (P := fun n r _ => ∃ m, r = Replacement.node m ∧ m.label = n.label)
    (fun n hn m hm => input_mem_subnodes hn hm) ?_ (fun n r s s' h _ => h)
    (fun _ _ _ _ _ _ _ _ _ _ _ h => h) ?_
  · intro n r s _ hs hlookup
    exact hs n.label r hlookup
  · intro n rs s hn hs hrs
    obtain ⟨ms, rfl, hms⟩ := exists_nodes_of_forall₂ hrs
    obtain ⟨s', hrun, hresults, hext⟩ := runFrom_visit_idle (s := s) (hidle n hn) hms
    refine .of_ok hrun ⟨?_, hext, n, rfl, rfl⟩
    exact forall_lookup_cons hresults hs ⟨n, rfl, rfl⟩

/-! ### Whole transformations -/

/-- The **outcome of a whole transformation** is that of the run from its first state, up to the
kind of the failure. -/
theorem transform_fst (pass : String) (next : Nat) :
    (n.transform pass step next).1 =
      (runFrom (transformWith step n) (.start next)).1.mapError
        fun f => (transformationFailure f).getD f := by
  rw [transform, TransformState.start, runFrom]
  rcases StateT.run (ExceptT.run (transformWith step n)) ⟨next, [], [], #[]⟩ with ⟨f | r, s⟩
  · cases hf : transformationFailure f <;> simp [hf, Except.mapError]
  · rfl

/-- **An idle transformation gives back the very graph**: when the step leaves every node alone,
the result for the root is the root. -/
theorem transform_idle (hidle : ∀ m ∈ n.subnodes, IdleAt step m) (pass : String) (next : Nat) :
    (n.transform pass step next).1 = .ok (.node n) := by
  have hstart : KeepsLabels (.start next) := fun label r h => by cases h
  have hinputs := transformAllWith_ends (J := KeepsLabels) (E := fun _ _ _ => False)
    (P := fun n r _ => ∃ m, r = Replacement.node m ∧ m.label = n.label) (fun n r s s' h _ => h)
    n.inputs (fun m hm => transformWith_idle hidle m
      (input_mem_subnodes (self_mem_subnodes n) hm)) _ hstart
  have hroot : Ends (transformWith step n) (.start next) (fun r _ => r = .node n)
      fun _ _ => False := by
    rw [Ends, runFrom_transformWith_new rfl]
    refine Ends.bind (hinputs.mono (fun rs s h => h) ?_) ?_
    · rintro f s ⟨-, -, -, -, -, -, -, -, hf⟩
      exact hf
    · rintro rs s ⟨-, -, hrs⟩
      obtain ⟨ms, rfl, hms⟩ := exists_nodes_of_forall₂ hrs
      obtain ⟨s', hrun, -, -⟩ := runFrom_visit_idle (s := s) (hidle n (self_mem_subnodes n)) hms
      exact .of_ok hrun rfl
  rw [transform_fst]
  rcases hrun : runFrom (transformWith step n) (.start next) with ⟨f | r, s⟩
  · exact (hroot.error hrun).elim
  · rw [hroot.ok hrun]
    rfl

end Node

end Elementary
