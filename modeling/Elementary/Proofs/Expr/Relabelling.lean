import Elementary.Proofs.Expr.Visit

/-!
# Labels of fresh nodes

The labels only tell nodes apart. A transformation that starts from a later free label does the same
as one that starts from an earlier one, except that the labels of all fresh nodes are later by as
much; this holds of every step for which the labels of fresh nodes make no other difference. So a
transformation that is made after another one, which took labels, does what it would have done at
first.

## Main definitions

* `Node.shift`: a node whose fresh labels are moved on.
* `TransformM.Parallel`: two computations that differ in the labels of fresh nodes only.
* `Node.IsLabelFree`: the steps for which these labels make no difference.

## Main results

* `transformWith_parallel`: the runs at a node of the graph.
* `transform_shift`: whole transformations from two free labels.
-/

namespace Elementary

open Elementary.Computation

/-- A label moved on by `d`, if it is a fresh one: the others lie below `floor`. -/
def shiftLabel (floor d label : Nat) : Nat := if label < floor then label else label + d

namespace Node

mutual

/-- A node with the **labels of fresh nodes moved on** by `d`. -/
def shift (floor d : Nat) : Node → Node
  | mk label op inputs => mk (shiftLabel floor d label) op (shiftAll floor d inputs)

/-- A list of nodes with the labels of fresh nodes moved on. -/
def shiftAll (floor d : Nat) : List Node → List Node
  | [] => []
  | n :: ns => shift floor d n :: shiftAll floor d ns

end

end Node

/-- A replacement with the labels of fresh nodes moved on. -/
def Replacement.shift (floor d : Nat) : Replacement → Replacement
  | node n => .node (n.shift floor d)
  | number v => .number v

/-- A state of a transformation with the labels of fresh nodes moved on. -/
def TransformState.shift (floor d : Nat) (s : TransformState) : TransformState where
  next := s.next + d
  results := s.results.map fun p => (p.1, p.2.shift floor d)
  calls := s.calls.map (Node.shift floor d)
  events := s.events

variable {floor d : Nat}

theorem shiftLabel_of_lt {label : Nat} (h : label < floor) : shiftLabel floor d label = label :=
  if_pos h

theorem shiftLabel_of_le {label : Nat} (h : floor ≤ label) :
    shiftLabel floor d label = label + d :=
  if_neg (Nat.not_lt.mpr h)

/-- Only a label itself is moved to one that is not fresh. -/
theorem shiftLabel_eq_iff {label old : Nat} (h : old < floor) :
    shiftLabel floor d label = old ↔ label = old := by
  rw [shiftLabel]
  split <;> omega

namespace Node

variable {root n k : Node} {op : Op} {inputs : List Node} {label : Nat}

theorem shiftAll_eq_map (ns : List Node) : shiftAll floor d ns = ns.map (shift floor d) := by
  induction ns with
  | nil => rfl
  | cons n ns ih => rw [shiftAll, ih, List.map_cons]

theorem shift_mk : (mk label op inputs).shift floor d =
    mk (shiftLabel floor d label) op (inputs.map (shift floor d)) := by
  rw [shift, shiftAll_eq_map]

theorem label_shift (n : Node) : (n.shift floor d).label = shiftLabel floor d n.label := by
  cases n
  rfl

theorem op_shift (n : Node) : (n.shift floor d).op = n.op := by
  cases n
  rfl

/-- A graph without fresh nodes stays as it is. -/
theorem shift_eq_self (h : ∀ m ∈ n.subnodes, m.label < floor) : n.shift floor d = n := by
  induction n with
  | mk label op inputs ih =>
    have hlabel : label < floor := h _ (self_mem_subnodes _)
    have hinputs : inputs.map (shift floor d) = inputs.map id :=
      List.map_congr_left fun m hm => ih m hm fun k hk => h k (mem_subnodes_of_mem hm hk)
    rw [shift_mk, shiftLabel_of_lt hlabel, hinputs, List.map_id]

end Node

/-! ### Computations in parallel -/

namespace TransformM

variable {α β : Type} {ρ : α → α} {x x' : TransformM α}

/-- Two computations go **in parallel** when, from states that differ in the labels of fresh nodes,
they end in states that do, with one failure, or with results of which `ρ` moves on the labels. -/
def Parallel (floor d : Nat) (ρ : α → α) (x x' : TransformM α) : Prop :=
  ∀ s : TransformState, floor ≤ s.next →
    floor ≤ (runFrom x s).2.next ∧
      runFrom x' (s.shift floor d) =
        ((runFrom x s).1.map ρ, (runFrom x s).2.shift floor d)

theorem Parallel.pure (a : α) :
    Parallel floor d ρ (pure a : TransformM α) (pure (ρ a)) := fun _ hs => ⟨hs, rfl⟩

theorem Parallel.throw (f : Failure) :
    Parallel floor d ρ (throw f : TransformM α) (throw f) := fun _ hs => ⟨hs, rfl⟩

/-- A change of the state, made to both states. -/
theorem parallel_modify {h h' : TransformState → TransformState}
    (hnext : ∀ s, s.next ≤ (h s).next)
    (hshift : ∀ s, h' (s.shift floor d) = (h s).shift floor d) :
    Parallel floor d id (modify h : TransformM PUnit) (modify h') := by
  intro s hs
  refine ⟨Nat.le_trans hs (hnext s), ?_⟩
  rw [runFrom_modify, runFrom_modify, hshift]
  rfl

/-- **Going on** in parallel. -/
theorem Parallel.bind {ρ' : β → β} {g g' : α → TransformM β} (hx : Parallel floor d ρ x x')
    (hg : ∀ a, Parallel floor d ρ' (g a) (g' (ρ a))) :
    Parallel floor d ρ' (x >>= g) (x' >>= g') := by
  intro s hs
  obtain ⟨hle, hrun⟩ := hx s hs
  rw [runFrom_bind, runFrom_bind, hrun]
  revert hle
  rcases runFrom x s with ⟨f | a, s₁⟩
  · exact fun hle => ⟨hle, rfl⟩
  · exact fun hle => hg a s₁ hle

/-- Going on from a state in parallel. -/
theorem Parallel.get_bind {ρ' : β → β} {g g' : TransformState → TransformM β}
    (hg : ∀ s, floor ≤ s.next →
      floor ≤ (runFrom (g s) s).2.next ∧ runFrom (g' (s.shift floor d)) (s.shift floor d) =
        ((runFrom (g s) s).1.map ρ', (runFrom (g s) s).2.shift floor d)) :
    Parallel floor d ρ' (get >>= g) (get >>= g') := by
  intro s hs
  rw [runFrom_bind_ok (runFrom_get s), runFrom_bind_ok (runFrom_get _)]
  exact hg s hs

end TransformM

namespace Node

open TransformM

variable {root n : Node} {op : Op} {next : Nat} {step : Node → TransformM Replacement}

/-- The steps for which the **labels of fresh nodes make no difference**: given a node with later
labels, from a state with later labels, the step does the same with later labels. -/
def IsLabelFree (floor : Nat) (step : Node → TransformM Replacement) : Prop :=
  ∀ d k, Parallel floor d (Replacement.shift floor d) (step k) (step (k.shift floor d))

/-! ### The node on its new inputs -/

/-- A replacement is the same as an old node after its labels are moved on if it was so before. -/
theorem isSame_shift (hn : n.label < floor) (r : Replacement) :
    (r.shift floor d).isSame n = r.isSame n := by
  cases r with
  | node m =>
    rw [Bool.eq_iff_iff, Replacement.isSame, Replacement.shift, Replacement.isSame, same, same,
      beq_iff_eq, beq_iff_eq, label_shift, shiftLabel_eq_iff hn]
  | number v => rfl

/-- A fresh constant with the label moved on. -/
theorem shift_constant (hnext : floor ≤ next) (v : Number) :
    (mk next (.constant v) []).shift floor d = mk (next + d) (.constant v) [] := by
  rw [shift_mk, shiftLabel_of_le hnext]
  rfl

/-- Operands are promoted in parallel. -/
theorem promoteAll_shift : ∀ (rs : List Replacement) (next : Nat), floor ≤ next →
    promoteAll (next + d) ((rs.map (Replacement.shift floor d)).map Replacement.operand) =
      (promoteAll next (rs.map Replacement.operand)).map
        fun built => (built.1.map (shift floor d), built.2 + d)
  | [], _, _ => rfl
  | .node m :: rs, next, hnext => by
    have htail := promoteAll_shift rs next hnext
    change (promoteAll (next + d) _).bind _ = ((promoteAll next _).bind _).map _
    rw [htail]
    rcases promoteAll next (rs.map Replacement.operand) with f | built <;> rfl
  | .number v :: rs, next, hnext => by
    have htail := promoteAll_shift rs (next + 1) (Nat.le_succ_of_le hnext)
    rw [List.map_cons, List.map_cons, List.map_cons, promoteAll, promoteAll, Replacement.shift,
      Replacement.operand, Operand.promote, Operand.promote]
    split
    · change (promoteAll (next + d + 1) _).bind _ = ((promoteAll (next + 1) _).bind _).map _
      rw [Nat.add_right_comm next d 1, htail, ← shift_constant hnext]
      rcases promoteAll (next + 1) (rs.map Replacement.operand) with f | built <;> rfl
    · rfl

/-- A fresh node is built in parallel. -/
theorem build_shift (op : Op) (rs : List Replacement) (hnext : floor ≤ next) :
    build (next + d) op ((rs.map (Replacement.shift floor d)).map Replacement.operand) =
      (build next op (rs.map Replacement.operand)).map
        fun built => (built.1.shift floor d, built.2 + d) := by
  rw [build, build, promoteAll_shift rs next hnext, List.length_map, List.length_map,
    List.length_map]
  rcases op.checkArity rs.length with f | _
  · rfl
  · rcases hbuilt : promoteAll next (rs.map Replacement.operand) with f | ⟨ms, next'⟩
    · rfl
    · have hle := Nat.le_trans hnext (standsFor_of_promoteAll hbuilt).1
      show Except.ok (mk (next' + d) op (ms.map (shift floor d)), next' + d + 1) =
        Except.ok ((mk next' op ms).shift floor d, next' + 1 + d)
      rw [shift_mk, shiftLabel_of_le hle, Nat.add_right_comm next' d 1]

/-- Labels are taken upwards. -/
theorem le_of_build {rs : List Replacement} {built : Node × Nat}
    (h : build next op (rs.map Replacement.operand) = .ok built) : next ≤ built.2 := by
  obtain ⟨-, -, h⟩ := bind_eq_ok.mp h
  obtain ⟨⟨ms, next'⟩, hms, h⟩ := bind_eq_ok.mp h
  cases h
  exact Nat.le_succ_of_le (standsFor_of_promoteAll hms).1

/-- New inputs are the same as the old ones after their labels are moved on if they were so
before. -/
theorem all_isSame_shift {ns : List Node} (hns : ∀ m ∈ ns, m.label < floor)
    (rs : List Replacement) :
    (((rs.map (Replacement.shift floor d)).zip ns).all fun (r, old) => r.isSame old) =
      ((rs.zip ns).all fun (r, old) => r.isSame old) := by
  induction ns generalizing rs with
  | nil => rw [List.zip_nil_right, List.zip_nil_right]
  | cons n ns ih =>
    cases rs with
    | nil => rfl
    | cons r rs =>
      rw [List.map_cons, List.zip_cons_cons, List.zip_cons_cons, List.all_cons, List.all_cons,
        ih fun m hm => hns m (List.mem_cons_of_mem n hm)]
      exact congrArg (· && _) (isSame_shift (hns n List.mem_cons_self) r)

/-- **Rebuilding a node** of the graph in parallel. -/
theorem rebuild_parallel (hn : ∀ m ∈ n.subnodes, m.label < floor) (rs : List Replacement) :
    Parallel floor d (shift floor d) (rebuild n rs)
      (rebuild n (rs.map (Replacement.shift floor d))) := by
  have hinputs : ∀ m ∈ n.inputs, m.label < floor :=
    fun m hm => hn m (input_mem_subnodes (self_mem_subnodes n) hm)
  rw [rebuild, rebuild, all_isSame_shift hinputs]
  by_cases h : ((rs.zip n.inputs).all fun (r, old) => r.isSame old) = true
  · rw [if_pos h, if_pos h]
    intro s hs
    refine ⟨hs, ?_⟩
    show (Except.ok n, _) = (Except.ok (n.shift floor d), _)
    rw [shift_eq_self hn]
    rfl
  · rw [if_neg h, if_neg h, withLabels, withLabels]
    refine .get_bind fun s hs => ?_
    have hbuild := build_shift (d := d) n.op rs hs
    simp only [TransformState.shift]
    rw [hbuild]
    rcases hbuilt : build s.next n.op (rs.map Replacement.operand) with f | ⟨k, next⟩
    · exact ⟨hs, rfl⟩
    · exact ⟨Nat.le_trans hs (le_of_build hbuilt), rfl⟩

/-! ### Runs in parallel -/

/-- The results that are kept are looked up in parallel. -/
theorem lookup_shift (results : List (Nat × Replacement)) (label : Nat) :
    (results.map fun p => (p.1, p.2.shift floor d)).lookup label =
      (results.lookup label).map (Replacement.shift floor d) := by
  induction results with
  | nil => rfl
  | cons p results ih =>
    rw [List.map_cons, List.lookup_cons, List.lookup_cons, ih]
    cases label == p.1 <;> rfl

section Runs

variable (hstep : IsLabelFree floor step)

include hstep in
/-- The **visit** of a node of the graph in parallel. -/
theorem visit_parallel (hn : ∀ m ∈ n.subnodes, m.label < floor) (rs : List Replacement) :
    Parallel floor d (Replacement.shift floor d) (visit step n rs)
      (visit step n (rs.map (Replacement.shift floor d))) := by
  refine (rebuild_parallel hn rs).bind fun k => ?_
  have hcall : Parallel floor d id
      (modify fun s => { s with calls := k :: s.calls } : TransformM PUnit)
      (modify fun s => { s with calls := k.shift floor d :: s.calls }) :=
    parallel_modify (fun s => Nat.le_refl _) fun s => rfl
  refine hcall.bind fun _ => (hstep d k).bind fun r => ?_
  have hresult : Parallel floor d id
      (modify fun s => { s with results := (n.label, r) :: s.results } : TransformM PUnit)
      (modify fun s => { s with results := (n.label, r.shift floor d) :: s.results }) :=
    parallel_modify (fun s => Nat.le_refl _) fun s => rfl
  exact hresult.bind fun _ => .pure r

/-- The runs at a list of nodes in parallel, from those at each of them. -/
theorem transformAllWith_parallel : ∀ ns : List Node,
    (∀ n ∈ ns, Parallel floor d (Replacement.shift floor d) (transformWith step n)
      (transformWith step n)) →
    Parallel floor d (List.map (Replacement.shift floor d)) (transformAllWith step ns)
      (transformAllWith step ns)
  | [], _ => by
    rw [transformAllWith]
    exact .pure []
  | n :: ns, hns => by
    rw [transformAllWith]
    refine (hns n List.mem_cons_self).bind fun r => ?_
    refine (transformAllWith_parallel ns fun m hm => hns m (List.mem_cons_of_mem n hm)).bind
      fun rs => ?_
    exact .pure (r :: rs)

include hstep in
/-- **The runs at a node** of the graph in parallel. -/
theorem transformWith_parallel : ∀ n : Node, (∀ m ∈ n.subnodes, m.label < floor) →
    Parallel floor d (Replacement.shift floor d) (transformWith step n) (transformWith step n) := by
  intro n
  induction n with
  | mk label op inputs ih =>
    intro hn s hs
    set n := mk label op inputs with hnode
    have hlookup := @lookup_shift floor d s.results n.label
    cases h : s.results.lookup n.label with
    | some r =>
      rw [h] at hlookup
      rw [runFrom_transformWith_known h,
        runFrom_transformWith_known (s := s.shift floor d) hlookup]
      exact ⟨hs, rfl⟩
    | none =>
      rw [h] at hlookup
      rw [runFrom_transformWith_new h, runFrom_transformWith_new (s := s.shift floor d) hlookup]
      refine Parallel.bind (transformAllWith_parallel inputs fun m hm => ?_)
        (fun rs => visit_parallel hstep hn rs) s hs
      exact ih m hm fun k hk => hn k (mem_subnodes_of_mem hm hk)

include hstep in
/-- **A transformation that starts from a later free label** gives the same result, with later
labels of fresh nodes, or fails in the same way; it makes the same calls, with later labels, and
sends the same messages. -/
theorem transform_shift (hroot : root.Coherent floor) (pass : String) :
    root.transform pass step (floor + d) =
      ((root.transform pass step floor).1.map (Replacement.shift floor d),
        (root.transform pass step floor).2.shift floor d) := by
  have hrun : StateT.run (ExceptT.run (transformWith step root)) ⟨floor + d, [], [], #[]⟩ =
      ((StateT.run (ExceptT.run (transformWith step root)) ⟨floor, [], [], #[]⟩).1.map
          (Replacement.shift floor d),
        (StateT.run (ExceptT.run (transformWith step root)) ⟨floor, [], [], #[]⟩).2.shift
          floor d) :=
    (transformWith_parallel hstep root hroot.label_lt (.start floor) (Nat.le_refl floor)).2
  rw [transform, transform, hrun]
  rcases StateT.run (ExceptT.run (transformWith step root)) ⟨floor, [], [], #[]⟩ with ⟨f | r, s⟩
  · simp only [Except.map]
    cases transformationFailure f <;> rfl
  · rfl

end Runs

end Node

end Elementary
