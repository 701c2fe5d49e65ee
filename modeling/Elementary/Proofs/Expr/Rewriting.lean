import Elementary.Proofs.Expr.Visit

/-!
# Transformations as plain rewriting

When the step of a transformation is a function of the expression that it receives, the results that
are kept for shared nodes make no difference: the transformation gives the expression that plain
rewriting from the operands up gives, which goes through a shared node once for each occurrence.

## Main definitions

* `Expr.rewrite`: the rewriting of an expression from the operands up.
* `Node.plainWith`: the transformation of a graph without results kept under labels.
* `Node.Computes`: the steps that are functions of the expression.

## Main results

* `transformWith_computes`, `plainWith_computes`: both compute the rewriting of the expression.
* `transform_eq_plain`: the transformation gives what the plain one gives, with one call of the step
  for each node.
-/

namespace Elementary

open Elementary.Computation

/-- The replacement without labels. -/
def Replacement.erase : Replacement → Expr.Operand
  | node n => .expr n.erase
  | number v => .number v

namespace Expr

mutual

/-- The **rewriting** of an expression by a function: the operands are rewritten from left to right,
and the function is applied to the operation on the results. It fails where a result cannot stand as
an operand. -/
def rewrite (f : Expr → Operand) : Expr → Except Failure Operand
  | node op operands => do
    let results ← rewriteAll f operands
    return f (← build op results)

/-- The rewriting of a list of expressions, from left to right. -/
def rewriteAll (f : Expr → Operand) : List Expr → Except Failure (List Operand)
  | [] => .ok []
  | e :: es => do
    let r ← rewrite f e
    let rs ← rewriteAll f es
    return r :: rs

end

end Expr

namespace Node

mutual

/-- The **plain transformation** of a graph, without results kept under labels: the inputs from left
to right, the node rebuilt if some input changed, and then the step. -/
def plainWith (step : Node → TransformM Replacement) : Node → TransformM Replacement
  | mk label op inputs => do
    let newInputs ← plainAllWith step inputs
    step (← rebuild (mk label op inputs) newInputs)

/-- The plain transformation of a list of nodes, from left to right. -/
def plainAllWith (step : Node → TransformM Replacement) :
    List Node → TransformM (List Replacement)
  | [] => return []
  | n :: ns => do
    let r ← plainWith step n
    let rs ← plainAllWith step ns
    return r :: rs

end

variable {root n m k : Node} {floor : Nat} {rs : List Replacement} {s : TransformState}
  {step : Node → TransformM Replacement} {f : Expr → Expr.Operand}

/-- The step **computes** a function of the expression: it always gives a result, and the expression
of the result is that of the function. -/
def Computes (root : Node) (floor : Nat) (step : Node → TransformM Replacement)
    (f : Expr → Expr.Operand) : Prop :=
  ∀ k s, floor ≤ s.next → root.Keeps k →
    Ends (step k) s (fun r s' => s'.Follows s ∧ r.Keeps root ∧ r.erase = f k.erase)
      fun _ _ => False

/-- Such a step is a step of transformations of the graph. -/
theorem Computes.isStep (h : Computes root floor step f) : IsStep root floor step :=
  fun k s hs hk => (h k s hs hk).mono (fun _ _ hr => ⟨hr.1, hr.2.1⟩) fun _ _ hf => hf.elim

/-- The result for a node is **right** when it has the expression that the rewriting gives, and
keeps the graph. -/
structure IsRewritten (root : Node) (f : Expr → Expr.Operand) (n : Node) (r : Replacement) :
    Prop where
  rewrite_eq : n.erase.rewrite f = .ok r.erase
  keeps : r.Keeps root

end Node

namespace Expr

variable {f : Expr → Operand} {e : Expr} {es : List Expr}

theorem rewriteAll_eq_mapM (f : Expr → Operand) (es : List Expr) :
    rewriteAll f es = es.mapM (rewrite f) := by
  induction es with
  | nil => rfl
  | cons e es ih => rw [rewriteAll, ih, List.mapM_cons]

/-- The operands are rewritten first. -/
theorem rewrite_node (f : Expr → Operand) (op : Op) (es : List Expr) :
    rewrite f (node op es) = (es.mapM (rewrite f) >>= build op) >>= fun e => .ok (f e) := by
  rw [rewrite, rewriteAll_eq_mapM, bind_assoc]
  rfl

/-- A list is rewritten to a failure at the first expression that is. -/
theorem mapM_rewrite_eq_error {pre post : List Expr} {rs : List Operand} {g : Failure}
    (hpre : pre.mapM (rewrite f) = .ok rs) (he : rewrite f e = .error g) :
    (pre ++ e :: post).mapM (rewrite f) = .error g := by
  rw [List.mapM_append, hpre, List.mapM_cons, he]
  rfl

end Expr

namespace Node

variable {root n m k : Node} {floor : Nat} {rs : List Replacement} {s : TransformState}
  {step : Node → TransformM Replacement} {f : Expr → Expr.Operand}

/-! ### The rebuilt node without its labels -/

/-- Promoting results gives the expressions that promoting their expressions gives. -/
theorem map_erase_promoteAll : ∀ (rs : List Replacement) (next : Nat),
    (promoteAll next (rs.map Replacement.operand)).map (fun built => built.1.map erase) =
      (rs.map Replacement.erase).mapM Expr.Operand.promote
  | [], _ => rfl
  | r :: rs, next => by
    have hhead : ∀ next, (r.operand.promote next).map (fun built => built.1.erase) =
        r.erase.promote := by
      intro next
      cases r with
      | node m => rfl
      | number v =>
        rw [Replacement.operand, Replacement.erase, Operand.promote, Expr.Operand.promote]
        split <;> rfl
    rw [List.map_cons, promoteAll, List.map_cons, List.mapM_cons, ← hhead next]
    rcases r.operand.promote next with g | ⟨m, next₁⟩
    · rfl
    · have htail := map_erase_promoteAll rs next₁
      change ((promoteAll next₁ (rs.map Replacement.operand)).bind _).map _ =
        ((rs.map Replacement.erase).mapM Expr.Operand.promote).bind _
      rw [← htail]
      rcases promoteAll next₁ (rs.map Replacement.operand) with g | ⟨ms, next₂⟩ <;> rfl

/-- The expression of a fresh node is the operation on the expressions of its operands. -/
theorem map_erase_build (op : Op) (rs : List Replacement) (next : Nat) :
    (build next op (rs.map Replacement.operand)).map (fun built => built.1.erase) =
      Expr.build op (rs.map Replacement.erase) := by
  rw [build, Expr.build, List.length_map, List.length_map, ← map_erase_promoteAll rs next]
  cases op.checkArity rs.length with
  | error g => rfl
  | ok _ =>
    rcases promoteAll next (rs.map Replacement.operand) with g | ⟨ms, next'⟩
    · rfl
    · exact congrArg Except.ok (erase_mk _ _ _)

/-- **The rebuilt node**, without its labels, is the operation on the results for its inputs. -/
theorem map_erase_rebuild (hn : n ∈ root.subnodes)
    (hop : n.op.checkArity n.inputs.length = .ok ()) (hlength : rs.length = n.inputs.length)
    (hrs : ∀ r ∈ rs, r.Keeps root) :
    (runFrom (rebuild n rs) s).1.map erase = Expr.build n.op (rs.map Replacement.erase) := by
  have hsame := all_isSame_iff_eq hlength (fun m hm => input_mem_subnodes hn hm) hrs
  rw [rebuild]
  by_cases h : rs = n.inputs.map .node
  · have herase : rs.map Replacement.erase = (n.inputs.map erase).map .expr := by
      rw [h, List.map_map, List.map_map]
      rfl
    rw [if_pos (hsame.mpr h), herase, Expr.build_map_expr (by rwa [List.length_map]), ← erase_eq]
    rfl
  · rw [if_neg (mt hsame.mp h), ← map_erase_build n.op rs s.next, TransformM.withLabels,
      runFrom_bind_ok (runFrom_get s)]
    rcases build s.next n.op (rs.map Replacement.operand) with g | ⟨k, next⟩ <;> rfl

/-- The rebuilding of a node gives the operation on the results, or fails as the operation on them
does. -/
theorem rebuild_computes (hroot : root.Coherent floor) (hn : n ∈ root.subnodes)
    (hop : n.op.checkArity n.inputs.length = .ok ()) (hlength : rs.length = n.inputs.length)
    (hrs : ∀ r ∈ rs, r.Keeps root) (hfloor : floor ≤ s.next) :
    Ends (rebuild n rs) s
      (fun k s' => s'.Follows s ∧ root.Keeps k ∧
        Expr.build n.op (rs.map Replacement.erase) = .ok k.erase)
      fun g _ => Expr.build n.op (rs.map Replacement.erase) = .error g := by
  have hends := rebuild_rebuilt hn hlength hrs hfloor
  have herase := map_erase_rebuild (s := s) hn hop hlength hrs
  rcases hrun : runFrom (rebuild n rs) s with ⟨g | k, s'⟩
  · exact .of_error hrun (by rw [← herase, hrun]; rfl)
  · obtain ⟨hfollows, hrebuilt⟩ := hends.ok hrun
    exact .of_ok hrun ⟨hfollows, hrebuilt.keeps hroot hn hrs, by rw [← herase, hrun]; rfl⟩

/-! ### Runs that compute the rewriting -/

/-- The results for the inputs of a node are the rewritten ones. -/
theorem mapM_rewrite_inputs {ns : List Node} (h : List.Forall₂ (IsRewritten root f) ns rs) :
    (ns.map erase).mapM (Expr.rewrite f) = .ok (rs.map Replacement.erase) := by
  rw [mapM_eq_ok, List.forall₂_map_left_iff, List.forall₂_map_right_iff]
  exact h.imp fun n r hr => hr.rewrite_eq

theorem keeps_of_forall₂ {ns : List Node} (h : List.Forall₂ (IsRewritten root f) ns rs) :
    ∀ r ∈ rs, r.Keeps root := by
  intro r hr
  obtain ⟨n, -, hn⟩ := exists_of_forall₂ h.flip hr
  exact hn.keeps

/-- The result of the step on the rebuilt node is the rewritten one. -/
theorem IsRewritten.of_step {r : Replacement} (hrs : List.Forall₂ (IsRewritten root f) n.inputs rs)
    (hbuild : Expr.build n.op (rs.map Replacement.erase) = .ok k.erase)
    (hr : r.erase = f k.erase) (hkeeps : r.Keeps root) : IsRewritten root f n r := by
  refine ⟨?_, hkeeps⟩
  rw [erase_eq, Expr.rewrite_node, mapM_rewrite_inputs hrs, hr]
  exact congrArg (· >>= fun e => Except.ok (f e)) hbuild

/-- A node that cannot be rebuilt cannot be rewritten. -/
theorem rewrite_eq_error_of_build {g : Failure}
    (hrs : List.Forall₂ (IsRewritten root f) n.inputs rs)
    (hbuild : Expr.build n.op (rs.map Replacement.erase) = .error g) :
    n.erase.rewrite f = .error g := by
  rw [erase_eq, Expr.rewrite_node, mapM_rewrite_inputs hrs]
  exact congrArg (· >>= fun e => Except.ok (f e)) hbuild

/-- A node cannot be rewritten when one of its inputs cannot. -/
theorem rewrite_eq_error_of_input {pre post : List Node} {g : Failure}
    (hinputs : n.inputs = pre ++ m :: post) (hpre : List.Forall₂ (IsRewritten root f) pre rs)
    (hm : m.erase.rewrite f = .error g) : n.erase.rewrite f = .error g := by
  rw [erase_eq, hinputs, List.map_append, List.map_cons, Expr.rewrite_node,
    Expr.mapM_rewrite_eq_error (mapM_rewrite_inputs hpre) hm]
  rfl

section Runs

variable (hroot : root.Coherent floor) (hwf : root.erase.WellFormed)
  (hstep : Computes root floor step f)

include hwf in
/-- The operations of a graph take as many operands as they have inputs. -/
theorem checkArity_inputs (hn : n ∈ root.subnodes) :
    n.op.checkArity n.inputs.length = .ok () := by
  have h := hwf.of_mem_subterms (erase_mem_subterms hn)
  rw [erase_eq] at h
  simpa only [List.length_map] using (Expr.wellFormed_node.mp h).1

include hroot hwf hstep in
/-- **The plain transformation computes the rewriting.** -/
theorem plainWith_computes : ∀ n, n ∈ root.subnodes → ∀ s : TransformState, floor ≤ s.next →
    Ends (plainWith step n) s (fun r s' => floor ≤ s'.next ∧ IsRewritten root f n r)
      fun g _ => n.erase.rewrite f = .error g := by
  intro n
  induction n with
  | mk label op inputs ih =>
    intro hn s hs
    have hall : ∀ ns : List Node, (∀ m ∈ ns, m ∈ inputs) → ∀ s : TransformState, floor ≤ s.next →
        Ends (plainAllWith step ns) s
          (fun rs s' => floor ≤ s'.next ∧ List.Forall₂ (IsRewritten root f) ns rs)
          fun g _ => (ns.map erase).mapM (Expr.rewrite f) = .error g := by
      intro ns
      induction ns with
      | nil =>
        intro _ s hs
        rw [plainAllWith]
        exact .pure ⟨hs, .nil⟩
      | cons m ns ihns =>
        intro hns s hs
        have hm := hns m List.mem_cons_self
        rw [plainAllWith]
        refine ((ih m hm (input_mem_subnodes hn hm) s hs).mono (fun _ _ h => h) ?_).bind
          fun r s₁ hhead => ?_
        · intro g _ hg
          rw [List.map_cons, List.mapM_cons, hg]
          rfl
        obtain ⟨hs₁, hr⟩ := hhead
        have htail := ihns (fun k hk => hns k (List.mem_cons_of_mem m hk)) s₁ hs₁
        refine (htail.mono (fun _ _ h => h) ?_).bind fun rs s₂ hrest => ?_
        · intro g _ hg
          rw [List.map_cons, List.mapM_cons, hr.rewrite_eq, hg]
          rfl
        · exact .pure ⟨hrest.1, .cons hr hrest.2⟩
    rw [plainWith]
    refine ((hall inputs (fun m hm => hm) s hs).mono (fun _ _ h => h) ?_).bind
      fun rs s₁ hbelow => ?_
    · intro g _ hg
      rw [erase_mk, Expr.rewrite_node, hg]
      rfl
    obtain ⟨hs₁, hrs⟩ := hbelow
    have hrebuild := rebuild_computes hroot hn (checkArity_inputs hwf hn) hrs.length_eq.symm
      (keeps_of_forall₂ hrs) hs₁
    refine (hrebuild.mono (fun _ _ h => h) fun g _ hg => rewrite_eq_error_of_build hrs hg).bind
      fun k s₂ hrebuilt => ?_
    obtain ⟨hs₂, hk, hbuild⟩ := hrebuilt
    have hnext := Nat.le_trans hs₁ hs₂.next_le
    refine (hstep k s₂ hnext hk).mono (fun r s₃ hresult => ?_) fun _ _ h => h.elim
    obtain ⟨hs₃, hr, hrf⟩ := hresult
    exact ⟨Nat.le_trans hnext hs₃.next_le, .of_step hrs hbuild hrf hr⟩

/-- What is known of the state between two visits: labels are taken only from the free ones, and the
results that are kept are the rewritten ones. -/
structure RewriteInvariant (root : Node) (floor : Nat) (f : Expr → Expr.Operand)
    (s : TransformState) : Prop where
  floor_le : floor ≤ s.next
  results : ∀ label r, s.results.lookup label = some r →
    ∃ m ∈ root.subnodes, m.label = label ∧ IsRewritten root f m r

include hroot hwf hstep in
/-- **One visit** computes the rewriting of its node. -/
theorem visit_computes (hn : n ∈ root.subnodes) (hs : RewriteInvariant root floor f s)
    (hrs : List.Forall₂ (IsRewritten root f) n.inputs rs) :
    Ends (visit step n rs) s
      (fun r s' => RewriteInvariant root floor f s' ∧ s'.Extends s ∧ IsRewritten root f n r)
      fun g _ => n.erase.rewrite f = .error g := by
  have hrebuild := rebuild_computes hroot hn (checkArity_inputs hwf hn) hrs.length_eq.symm
    (keeps_of_forall₂ hrs) hs.floor_le
  rw [visit]
  refine (hrebuild.mono (fun _ _ h => h) fun g _ hg => rewrite_eq_error_of_build hrs hg).bind
    fun k s₁ hrebuilt => .modify ?_
  obtain ⟨hs₁, hk, hbuild⟩ := hrebuilt
  have hnext := Nat.le_trans hs.floor_le hs₁.next_le
  have hends := hstep k { s₁ with calls := k :: s₁.calls } hnext hk
  refine (hends.mono (fun _ _ h => h) fun _ _ h => h.elim).bind
    fun r s₂ hresult => .modify (.pure ?_)
  obtain ⟨hs₂, hr, hrf⟩ := hresult
  have hrewritten : IsRewritten root f n r := .of_step hrs hbuild hrf hr
  have hresults : s₂.results = s.results := hs₂.results.trans hs₁.results
  have hcalls : s₂.calls = k :: s.calls := hs₂.calls.trans (congrArg (k :: ·) hs₁.calls)
  refine ⟨⟨Nat.le_trans hnext hs₂.next_le, ?_⟩, ⟨?_, ?_, ?_⟩, hrewritten⟩
  · exact forall_lookup_cons (by rw [hresults]) hs.results ⟨n, hn, rfl, hrewritten⟩
  · exact Nat.le_trans hs₁.next_le hs₂.next_le
  · rw [hresults]
    exact List.suffix_cons _ _
  · rw [hcalls]
    exact List.suffix_cons _ _

include hroot hwf hstep in
/-- **The transformation computes the rewriting**, although it goes through a shared node once. -/
theorem transformWith_computes :
    Ends (transformWith step root) (.start floor) (fun r _ => root.erase.rewrite f = .ok r.erase)
      fun g _ => root.erase.rewrite f = .error g := by
  have hstart : RewriteInvariant root floor f (.start floor) :=
    ⟨Nat.le_refl _, fun label r h => by cases h⟩
  have hrun := transformWith_ends (H := (· ∈ root.subnodes))
    (J := RewriteInvariant root floor f) (P := fun n r _ => IsRewritten root f n r)
    (E := fun n g _ => n.erase.rewrite f = .error g)
    (fun n hn m hm => input_mem_subnodes hn hm)
    (fun n r s hn hs hlookup => by
      obtain ⟨m, hm, hlabel, hr⟩ := hs.results n.label r hlookup
      exact hroot.eq_of_label m hm n hn hlabel ▸ hr)
    (fun n r s s' h _ => h)
    (fun n pre m post rs g s s' _ hinputs hpre hg => rewrite_eq_error_of_input hinputs hpre hg)
    (fun n rs s hn hs hrs => visit_computes hroot hwf hstep hn hs hrs)
    root (self_mem_subnodes root) (.start floor) hstart
  exact hrun.mono (fun r s h => h.2.2.rewrite_eq) fun g s h => h

end Runs

/-- A computation that ends with what a pure one gives has its outcome. -/
theorem map_erase_of_ends {x : TransformM Replacement} {y : Except Failure Expr.Operand}
    (h : Ends x s (fun r _ => y = .ok r.erase) fun g _ => y = .error g) :
    (runFrom x s).1.map Replacement.erase = y := by
  rcases hrun : runFrom x s with ⟨g | r, s'⟩
  · exact (h.error hrun).symm
  · exact (h.ok hrun).symm

/-- **The transformation with results kept under labels is the plain one.** Let the step be a
function of the expression that it receives. The transformation of a graph, with all its sharing,
gives the expression that the transformation without kept results gives, and fails when that one
fails; both compute the rewriting of the expression of the graph. When it succeeds, the step has
been called once for each node, in the order in which the nodes first occur in post-order, on the
node rebuilt from the results for its inputs; and a node has one result, which stands in all places
where the node did. -/
theorem transform_eq_plain (root : Node) (next : Nat) (step : Node → TransformM Replacement)
    (f : Expr → Expr.Operand) (pass : String) (hroot : root.Coherent next)
    (hwf : root.erase.WellFormed) (hstep : Computes root next step f) :
    (root.transform pass step next).1.map Replacement.erase =
        ((runFrom (plainWith step root) (.start next)).1.map Replacement.erase).mapError
          (fun g => (transformationFailure g).getD g) ∧
      (runFrom (plainWith step root) (.start next)).1.map Replacement.erase =
        root.erase.rewrite f ∧
      ∀ r, (root.transform pass step next).1 = .ok r →
        ∃ vs, Record root next vs none (root.transform pass step next).2 ∧ HasResult vs root r ∧
          vs.reverse.map (·.node.label) = (root.postorder.map label).eraseDups ∧
          (∀ v ∈ vs, GivenFor next vs v.node v.received) ∧
          ∀ n r r', HasResult vs n r → HasResult vs n r' → r = r' := by
  have hplain : (runFrom (plainWith step root) (.start next)).1.map Replacement.erase =
      root.erase.rewrite f :=
    map_erase_of_ends ((plainWith_computes hroot hwf hstep root (self_mem_subnodes root) _
      (Nat.le_refl next)).mono (fun r s h => h.2.rewrite_eq) fun g s h => h)
  have hkept := map_erase_of_ends (transformWith_computes hroot hwf hstep)
  refine ⟨?_, hplain, fun r hr => ?_⟩
  · rw [hplain, ← hkept, transform_fst]
    rcases (runFrom (transformWith step root) (.start next)).1 with g | r <;> rfl
  · obtain ⟨vs, pending, hrecord, hok⟩ := transform_visits hroot hstep.isStep pass
    obtain ⟨rfl, hresult, horder⟩ := hok r hr
    exact ⟨vs, hrecord, hresult, horder, hrecord.visits.givenFor,
      fun n r r' h h' => hrecord.visits.hasResult_unique h h'⟩

/-- Putting a number in the place of a variable is a function of the expression. -/
theorem computes_substituteStep (root : Node) (floor : Nat) (name : String) (v : Number) :
    Computes root floor (substituteStep name v)
      fun e => if e.op = .var name none then .number v else .expr e := by
  intro k s _ hk
  by_cases h : k.op = .var name none
  · rw [substituteStep, if_pos h]
    exact .pure ⟨.refl s, trivial, (if_pos (op_erase k ▸ h)).symm⟩
  · rw [substituteStep, if_neg h]
    exact .pure ⟨.refl s, hk, (if_neg (op_erase k ▸ h)).symm⟩

/-- In the graph with a shared negation, the number is put in both places, and the step is called
for the five nodes in post-order. -/
theorem transform_eq_plain_sharedNegation :
    let three := Expr.node .negation [.constant (.integer 3)]
    let step := substituteStep "x" (.integer 3)
    (sharedNegation.transform "substitution" step 5).1.map Replacement.erase =
        .ok (.expr (.node .tuple [three, .node .negation [.var "y"], three])) ∧
      (runFrom (plainWith step sharedNegation) (.start 5)).1.map Replacement.erase =
        .ok (.expr (.node .tuple [three, .node .negation [.var "y"], three])) ∧
      ∃ vs, Record sharedNegation 5 vs none (sharedNegation.transform "substitution" step 5).2 ∧
        vs.reverse.map (·.node.label) = [0, 1, 2, 3, 4] := by
  intro three step
  obtain ⟨hplain, hrewrite, hvisits⟩ := transform_eq_plain sharedNegation 5 step _ "substitution"
    coherent_sharedNegation rfl (computes_substituteStep _ _ _ _)
  have hvalue : (runFrom (plainWith step sharedNegation) (.start 5)).1.map Replacement.erase =
      .ok (.expr (.node .tuple [three, .node .negation [.var "y"], three])) := hrewrite.trans rfl
  refine ⟨hplain.trans (by rw [hvalue]; rfl), hvalue, ?_⟩
  obtain ⟨vs, hrecord, -, horder, -⟩ := hvisits _ rfl
  exact ⟨vs, hrecord, horder.trans (by decide)⟩

end Node

end Elementary
