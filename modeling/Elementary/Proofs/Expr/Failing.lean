import Elementary.Log.Console
import Elementary.Proofs.Expr.Relabelling

/-!
# Failing transformations

A transformation is abandoned at the first failure, be it one of the step or of a node that cannot
be built on the results for its inputs. Its failure is always a failure of a transformation: one
that is one already passes as it is, and any other exception is put in the words of one. The calls
up to there are those that a transformation makes anyway, in the same order; and nothing is left
behind, so that the next transformation does what it would have done at first. What the step returns
for the root is not looked at: it may be something that cannot be an operand.

## Main definitions

* `Failure.IsTransformation`: the failures of transformations.
* `Node.RaisesExceptions`: the steps that do not end the program.
* `Node.transformOn`: a transformation whose messages are shown on a console.

## Main results

* `transform_completes_or_aborts`: how a transformation ends, and what the next one does.
* `transform_of_variable`: a transformation that gives something that cannot be an operand.
-/

namespace Elementary

open Elementary.Computation

/-- The **failures of transformations**, also those of a special kind. -/
inductive Failure.IsTransformation : Failure → Prop
  | transformation (text : String) : IsTransformation (.transformation text)
  | quantization (text : String) : IsTransformation (.quantization text)

/-- The failures that pass as they are: those of transformations, and the end of the program. -/
theorem Node.transformationFailure_eq_none_iff {f : Failure} :
    transformationFailure f = none ↔ f.IsTransformation ∨ ∃ code, f = .exit code := by
  constructor
  · intro h
    cases f with
    | transformation text => exact Or.inl (.transformation text)
    | quantization text => exact Or.inl (.quantization text)
    | exit code => exact Or.inr ⟨code, rfl⟩
    | _ => cases h
  · rintro (h | ⟨code, rfl⟩)
    · cases h <;> rfl
    · rfl

/-- Any other failure is put **in the words** of a failure of a transformation. -/
theorem Node.transformationFailure_of_not {f : Failure} (h : ¬ f.IsTransformation)
    (hexit : ∀ code, f ≠ .exit code) :
    transformationFailure f = some (.transformation f.embedded) := by
  cases f with
  | transformation text => exact absurd (.transformation text) h
  | quantization text => exact absurd (.quantization text) h
  | exit code => exact absurd rfl (hexit code)
  | _ => rfl

/-- **What a transformation fails with** is a failure of a transformation: the one that was raised if
it is such a failure, and else one with its text. -/
theorem Node.getD_transformationFailure {f : Failure} (hexit : ∀ code, f ≠ .exit code) :
    ((transformationFailure f).getD f).IsTransformation ∧
      (f.IsTransformation → (transformationFailure f).getD f = f) ∧
      (¬ f.IsTransformation → (transformationFailure f).getD f = .transformation f.embedded) := by
  by_cases hf : f.IsTransformation
  · rw [transformationFailure_eq_none_iff.mpr (Or.inl hf), Option.getD_none]
    exact ⟨hf, fun _ => rfl, fun hnot => absurd hf hnot⟩
  · rw [transformationFailure_of_not hf hexit, Option.getD_some]
    exact ⟨.transformation _, fun h => absurd h hf, fun _ => rfl⟩

/-! ### Messages on a console -/

namespace Run

/-- A console that lets fatal messages through shows all messages. -/
theorem displayAll_outcome : ∀ (events : List Event) (c : Console) (t : Transcript),
    c.exitOnError = false → ∃ t', runFrom (displayAll events) (c, t) = (.ok ⟨⟩, (c, t'))
  | [], c, t, _ => ⟨t, rfl⟩
  | e :: rest, c, t, hc => by
    obtain ⟨t₁, hdisplay⟩ : ∃ t₁, runFrom (display e) (c, t) = (.ok ⟨⟩, (c, t₁)) := by
      simp only [display, runFrom_modify]
      split <;> exact ⟨_, rfl⟩
    obtain ⟨t', hrest⟩ := displayAll_outcome rest c t₁ hc
    refine ⟨t', ?_⟩
    have hconsole : runFrom console (c, t₁) = (.ok c, (c, t₁)) := rfl
    rw [displayAll, runFrom_bind_ok hdisplay, runFrom_bind_ok hconsole, hc]
    simp only [Bool.false_eq_true, and_false, if_false]
    exact hrest

end Run

namespace Node

variable {root n : Node} {floor : Nat} {step : Node → TransformM Replacement}

/-- A transformation **on a console**: its messages are shown, and then it gives its result or
fails. -/
def transformOn (pass : String) (step : Node → TransformM Replacement) (n : Node) (next : Nat) :
    Run Replacement := do
  let (outcome, s) := n.transform pass step next
  Run.displayAll s.events.toList
  match outcome with
  | .ok r => return r
  | .error f => throw f

/-- On a console that lets fatal messages through, a transformation ends as it does by itself. -/
theorem transformOn_outcome (pass : String) (next : Nat) (c : Console)
    (hc : c.exitOnError = false) :
    ((transformOn pass step n next).start c).1 = (n.transform pass step next).1 := by
  rw [transformOn]
  rcases n.transform pass step next with ⟨outcome, s⟩
  obtain ⟨t, hshown⟩ := Run.displayAll_outcome s.events.toList c {} hc
  have hrun := runFrom_bind_ok (g := fun _ => match outcome with
    | .ok r => (return r : Run Replacement)
    | .error f => throw f) hshown
  cases outcome <;> exact congrArg Prod.fst hrun

/-! ### How a transformation ends -/

/-- A step **raises exceptions** only: it does not end the program. -/
def RaisesExceptions (step : Node → TransformM Replacement) : Prop :=
  ∀ k s code s', runFrom (step k) s ≠ (.error (.exit code), s')

/-- **Operands are refused** for one that cannot be promoted. -/
theorem promoteAll_eq_error {f : Failure} : ∀ {rs : List Replacement} {next : Nat},
    promoteAll next (rs.map Replacement.operand) = .error f →
      ∃ v, Replacement.number v ∈ rs ∧ v.isPromotable = false ∧ f = Expr.promotionFailure v
  | .node m :: rs, next, h => by
    change (promoteAll next (rs.map Replacement.operand)).bind _ = _ at h
    rcases hrs : promoteAll next (rs.map Replacement.operand) with g | built
    · rw [hrs] at h
      cases h
      obtain ⟨v, hv, hf⟩ := promoteAll_eq_error hrs
      exact ⟨v, List.mem_cons_of_mem _ hv, hf⟩
    · rw [hrs] at h
      cases h
  | .number v :: rs, next, h => by
    rw [List.map_cons, promoteAll, Replacement.operand, Operand.promote] at h
    split at h
    · change (promoteAll (next + 1) (rs.map Replacement.operand)).bind _ = _ at h
      rcases hrs : promoteAll (next + 1) (rs.map Replacement.operand) with g | built
      · rw [hrs] at h
        cases h
        obtain ⟨w, hw, hf⟩ := promoteAll_eq_error hrs
        exact ⟨w, List.mem_cons_of_mem _ hw, hf⟩
      · rw [hrs] at h
        cases h
    · next hv =>
      cases h
      exact ⟨v, List.mem_cons_self, Bool.eq_false_iff.mpr hv, rfl⟩

/-- A wrong number of operands is refused as such. -/
theorem checkArity_eq_error {op : Op} {given : Nat} {f : Failure}
    (h : op.checkArity given = .error f) : ∃ expected, f = op.arityFailure expected given := by
  rw [Op.checkArity] at h
  cases harity : op.arity with
  | none =>
    rw [harity] at h
    cases h
  | some expected =>
    simp only [harity] at h
    split at h
    · cases h
    · exact ⟨expected, (Except.error.inj h).symm⟩

/-- **A run that stops without a call** stops for a result that cannot be an operand, or for a
wrong number of them. -/
theorem StopsAt.of_none {vs : List Visit} {f : Failure} (h : StopsAt floor step vs n none f) :
    (∃ rs v, List.Forall₂ (HasResult vs) n.inputs rs ∧ Replacement.number v ∈ rs ∧
        v.isPromotable = false ∧ f = Expr.promotionFailure v) ∨
      ∃ expected, f = n.op.arityFailure expected n.inputs.length := by
  cases h with
  | @operands rs _ next hrs hbuild =>
    rw [Node.build, List.length_map, ← hrs.length_eq] at hbuild
    rcases hop : n.op.checkArity n.inputs.length with g | _
    · rw [hop] at hbuild
      cases hbuild
      exact Or.inr (checkArity_eq_error hop)
    · rw [hop] at hbuild
      change (promoteAll next (rs.map Replacement.operand)).bind _ = _ at hbuild
      rcases hpromote : promoteAll next (rs.map Replacement.operand) with g | built
      · rw [hpromote] at hbuild
        cases hbuild
        obtain ⟨v, hv, hf⟩ := promoteAll_eq_error hpromote
        exact Or.inl ⟨rs, v, hrs, hv, hf⟩
      · rw [hpromote] at hbuild
        cases hbuild

/-- **What a run stops with** is a failure of the step, or that of a node that cannot be built. -/
theorem StopsAt.failure {vs : List Visit} {pending : Option Node} {f : Failure}
    {P : Failure → Prop} (h : StopsAt floor step vs n pending f)
    (hstep : ∀ k s f s', runFrom (step k) s = (.error f, s') → P f)
    (hkind : ∀ text, P (.wrongKind text))
    (hcount : ∀ name expected given, P (.operandCount name expected given)) : P f := by
  cases pending with
  | some k =>
    cases h with
    | step _ hrun => exact hstep _ _ _ _ hrun
  | none =>
    rcases h.of_none with ⟨-, v, -, -, -, rfl⟩ | ⟨expected, rfl⟩
    · exact hkind _
    · cases n.op with
      | comparison r => exact hkind _
      | tupleSelection i => exact hkind _
      | _ => exact hcount _ _ _

/-- Nothing but the step of a transformation could end the program. -/
theorem RaisesExceptions.stopsAt {vs : List Visit} {pending : Option Node} {f : Failure}
    (hstep : RaisesExceptions step) (h : StopsAt floor step vs n pending f) (code : Int) :
    f ≠ .exit code :=
  h.failure (P := (· ≠ .exit code)) (fun _ _ _ _ hrun hf => hstep _ _ _ _ (hf ▸ hrun))
    (fun _ hf => by cases hf) fun _ _ _ hf => by cases hf

/-- No label occurs twice in the order of first occurrence. -/
theorem nodup_eraseDups : ∀ labels : List Nat, labels.eraseDups.Nodup
  | [] => List.nodup_nil
  | x :: labels => by
    rw [List.eraseDups_cons, List.nodup_cons]
    exact ⟨by simp [List.mem_eraseDups], nodup_eraseDups _⟩
termination_by labels => labels.length
decreasing_by exact Nat.lt_succ_of_le (List.length_filter_le _ _)

/-- **A transformation made later** does the same with fresh nodes of later labels. -/
theorem transform_later {last : Nat} {step' : Node → TransformM Replacement}
    (hroot : root.Coherent floor) (hlast : floor ≤ last) (hfree : IsLabelFree floor step')
    (pass : String) :
    root.transform pass step' last =
      ((root.transform pass step' floor).1.map (Replacement.shift floor (last - floor)),
        (root.transform pass step' floor).2.shift floor (last - floor)) := by
  have hshift := transform_shift (d := last - floor) hfree hroot pass
  rwa [Nat.add_sub_cancel' hlast] at hshift

/-- **How a transformation ends, and what the next one does.** It gives what the step returned for
the root, after the step was called for every node of the graph, in the order in which the nodes
first occur in post-order, each on the node rebuilt from the results for its inputs; or it fails
with a failure of a transformation, which is the one that was raised if that is such a failure
already, and has its text otherwise. When it fails, the step was called for the first nodes in this
order, each once, up to the node at which the run stopped. A console that lets fatal messages
through changes nothing of this. And another transformation made afterwards does what it would have
done before, except that the labels of fresh nodes are later ones. -/
theorem transform_completes_or_aborts (root : Node) (next : Nat)
    (step : Node → TransformM Replacement) (pass : String) (hroot : root.Coherent next)
    (hstep : IsStep root next step) (hraises : RaisesExceptions step) :
    ∃ vs pending, Record root next vs pending (root.transform pass step next).2 ∧
      (∀ v ∈ vs, v.IsReturnedBy step) ∧
      (∀ v ∈ vs, GivenFor next vs v.node v.received) ∧
      (∀ r, (root.transform pass step next).1 = .ok r →
        pending = none ∧ HasResult vs root r ∧
          vs.reverse.map (·.node.label) = (root.postorder.map label).eraseDups) ∧
      (∀ g, (root.transform pass step next).1 = .error g → g.IsTransformation ∧
        ∃ n ∈ root.subnodes, ∃ f, StopsAt next step vs n pending f ∧
          (f.IsTransformation → g = f) ∧
          (¬ f.IsTransformation → g = .transformation f.embedded) ∧
          vs.reverse.map (·.node.label) ++ [n.label] <+: (root.postorder.map label).eraseDups ∧
          (vs.reverse.map (·.node.label) ++ [n.label]).Nodup) ∧
      (∀ c : Console, c.exitOnError = false →
        ((transformOn pass step root next).start c).1 = (root.transform pass step next).1) ∧
      ∀ step' pass' last, last = (root.transform pass step next).2.next → IsLabelFree next step' →
        root.transform pass' step' last =
          ((root.transform pass' step' next).1.map (Replacement.shift next (last - next)),
            (root.transform pass' step' next).2.shift next (last - next)) := by
  have hfollows : (root.transform pass step next).2.Follows
      (runFrom (transformWith step root) (.start next)).2 := transform_snd_follows pass next
  have houtcome := @transform_fst step root pass next
  have hconsole := fun c hc => @transformOn_outcome root step pass next c hc
  rcases hrun : runFrom (transformWith step root) (.start next) with ⟨f | r, s⟩
  · rw [hrun] at hfollows houtcome
    obtain ⟨vs, n, pending, hrecord, hreturned, hn, hstops, horder⟩ :=
      (run_visits hroot hstep).error hrun
    rw [List.append_nil] at hrecord hstops
    have hlast := hrecord.follow hfollows
    refine ⟨vs, pending, hlast, hreturned, hrecord.visits.givenFor, fun r h => ?_, fun g h => ?_,
      hconsole, fun step' pass' last h hfree =>
        transform_later hroot (h ▸ hlast.floor_le) hfree pass'⟩
    · cases houtcome.symm.trans h
    · obtain rfl : (transformationFailure f).getD f = g :=
        Except.error.inj (houtcome.symm.trans h)
      obtain ⟨hkind, hsame, hwords⟩ := getD_transformationFailure (hraises.stopsAt hstops)
      have hprefix : vs.reverse.map (·.node.label) ++ [n.label] <+:
          (root.postorder.map label).eraseDups := by
        rw [List.map_reverse, ← newLabels_nil]
        exact horder
      exact ⟨hkind, n, hn, f, hstops, hsame, hwords, hprefix,
        (nodup_eraseDups _).sublist hprefix.sublist⟩
  · rw [hrun] at hfollows houtcome
    obtain ⟨vs, ⟨hrecord, hreturned, horder⟩, hr⟩ := (run_visits hroot hstep).ok hrun
    rw [List.append_nil] at hrecord
    have hlast := hrecord.follow hfollows
    refine ⟨vs, none, hlast, hreturned, hrecord.visits.givenFor, fun r' h => ?_, fun g h => ?_,
      hconsole, fun step' pass' last h hfree =>
        transform_later hroot (h ▸ hlast.floor_le) hfree pass'⟩
    · obtain rfl : r = r' := Except.ok.inj (houtcome.symm.trans h)
      refine ⟨rfl, hr, ?_⟩
      rw [List.map_reverse, ← newLabels_nil]
      exact horder
    · cases houtcome.symm.trans h

/-- The step that refuses a variable with some failure, and leaves every other node alone. -/
def refuseStep (name : String) (f : Failure) (k : Node) : TransformM Replacement :=
  if k.op = .var name none then throw f else return .node k

theorem isStep_refuseStep (root : Node) (floor : Nat) (name : String) (f : Failure) :
    IsStep root floor (refuseStep name f) := by
  intro k s _ hk
  rw [refuseStep]
  split
  · exact .throw (.refl s)
  · exact .pure ⟨.refl s, hk⟩

theorem isLabelFree_refuseStep (floor : Nat) (name : String) (f : Failure) :
    IsLabelFree floor (refuseStep name f) := by
  intro d k
  rw [refuseStep, refuseStep, op_shift]
  split
  · exact .throw f
  · exact .pure (Replacement.node k)

theorem raisesExceptions_refuseStep (name text : String) :
    RaisesExceptions (refuseStep name (.badLiteral text)) := by
  intro k s code s' h
  rw [refuseStep] at h
  split at h <;> cases h

/-- In the graph with a shared negation, the variable `y` is refused: the step is called for it
after `x` and the shared negation, and for no other node; and a second transformation fails in the
same way. -/
theorem transform_aborts_at_variable :
    let step := refuseStep "y" (.badLiteral "y")
    let message := Failure.transformation (Failure.badLiteral "y").message
    (∃ vs pending, Record sharedNegation 5 vs pending
        (sharedNegation.transform "refusal" step 5).2 ∧
      ∃ n f, StopsAt 5 step vs n pending f ∧ message = .transformation f.embedded ∧
        vs.reverse.map (·.node.label) ++ [n.label] <+: [0, 1, 2, 3, 4]) ∧
      (sharedNegation.transform "refusal" step 5).2.calls.length = 3 ∧
      ((transformOn "refusal" step sharedNegation 5).start {}).1 = .error message ∧
      (sharedNegation.transform "refusal" step
        (sharedNegation.transform "refusal" step 5).2.next).1 = .error message := by
  intro step message
  obtain ⟨vs, pending, hrecord, -, -, -, hfails, hconsole, hagain⟩ :=
    transform_completes_or_aborts sharedNegation 5 step "refusal" coherent_sharedNegation
      (isStep_refuseStep _ _ _ _) (raisesExceptions_refuseStep _ _)
  have houtcome : (sharedNegation.transform "refusal" step 5).1 = .error message := rfl
  obtain ⟨-, n, -, f, hstops, hsame, hwords, hprefix, -⟩ := hfails message houtcome
  have hf : ¬ f.IsTransformation := by
    refine hstops.failure (P := fun f => ¬ f.IsTransformation) (fun k s g s' hrun hg => ?_)
      (fun _ h => by cases h) fun _ _ _ h => by cases h
    change runFrom (refuseStep "y" (.badLiteral "y") k) s = _ at hrun
    rw [refuseStep] at hrun
    split at hrun <;> cases hrun
    cases hg
  refine ⟨⟨vs, pending, hrecord, n, f, hstops, hwords hf, hprefix⟩, rfl, ?_, ?_⟩
  · rw [hconsole {} rfl, houtcome]
  · rw [hagain step "refusal" _ rfl (isLabelFree_refuseStep _ _ _), houtcome]
    rfl

/-- **What is returned for the root is not looked at.** The variable `x` as a whole graph is replaced
by something that cannot be an operand: the transformation gives neither a node nor a failure. As an
operand of a negation it makes the transformation fail. -/
theorem transform_of_variable :
    let x := mk 0 (.var "x" none) []
    let outcome := (x.transform "rewrite" (substituteStep "x" .absent) 1).1
    ¬ ((∃ k, outcome = .ok (.node k)) ∨ ∃ g, g.IsTransformation ∧ outcome = .error g) ∧
      outcome = .ok (.number .absent) ∧ Number.absent.isPromotable = false ∧
      ((mk 1 .negation [x]).transform "rewrite" (substituteStep "x" .absent) 2).1 =
        .error (.transformation (Expr.promotionFailure .absent).message) := by
  refine ⟨?_, rfl, rfl, rfl⟩
  rintro (⟨k, h⟩ | ⟨g, -, h⟩) <;> cases h

end Node

end Elementary
