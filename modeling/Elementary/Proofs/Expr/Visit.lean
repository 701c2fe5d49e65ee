import Elementary.Proofs.Expr.Transformation

/-!
# The visits of a transformation

A transformation is described by the list of its visits. A visit is made for one node of the graph,
hands the node as it was rebuilt to the step, and keeps what the step gave. The visits are made for
distinct nodes, the inputs of a node before the node, and a node is rebuilt only when some input got
a result other than itself. This is said of every step, also of one that looks at the state or
fails; of a step only this much is used, that a label of the graph, where it occurs in what the step
returns, stands for the node of the graph, since nodes are told apart by their labels and never
change.

## Main definitions

* `Node.Keeps`: the labels of a graph stand for its nodes also in another node.
* `Node.IsStep`: the steps, on a given graph.
* `Node.Rebuilt`: what a node becomes on the results for its inputs.
* `Node.Visits`: the lists of visits that a transformation can make.

## Main results

* `Visits.untouched`: a node below which nothing is replaced is its own result.
* `transformWith_visits`: every run makes its visits in the order of first occurrence.
* `transform_preserves_untouched`: a transformation keeps what it does not touch.
-/

namespace Elementary

open Elementary.Computation

namespace Node

variable {root n m k : Node} {floor label : Nat} {op : Op} {ms ns : List Node}

/-! ### Graphs inside other nodes -/

/-- The nodes of a node of a graph are nodes of it. -/
theorem subnodes_trans (hm : m ∈ n.subnodes) (hn : n ∈ root.subnodes) : m ∈ root.subnodes := by
  induction root with
  | mk label op inputs ih =>
    rcases mem_subnodes_mk.mp hn with rfl | ⟨i, hi, hn⟩
    · exact hm
    · exact mem_subnodes_of_mem hi (ih i hi hn)

/-- The nodes of a graph are no larger than the graph. -/
theorem sizeOf_le_of_mem_subnodes (hm : m ∈ n.subnodes) : sizeOf m ≤ sizeOf n := by
  induction n with
  | mk label op inputs ih =>
    rcases mem_subnodes_mk.mp hm with rfl | ⟨i, hi, hm⟩
    · exact Nat.le_refl _
    · have hle := ih i hi hm
      have hlt := List.sizeOf_lt_of_mem hi
      rw [mk.sizeOf_spec]
      omega

/-- **A graph has no cycle**: no node lies below one of its inputs. -/
theorem not_mem_subnodes_of_mem_inputs (hm : m ∈ n.inputs) : n ∉ m.subnodes := by
  intro h
  have hle := sizeOf_le_of_mem_subnodes h
  cases n with
  | mk label op inputs =>
    have hlt := List.sizeOf_lt_of_mem (show m ∈ inputs from hm)
    rw [mk.sizeOf_spec] at hle
    omega

/-- A node **keeps a graph** when a label of the graph that occurs in it stands for the node of the
graph. -/
def Keeps (root k : Node) : Prop :=
  ∀ a ∈ k.subnodes, ∀ b ∈ root.subnodes, a.label = b.label → a = b

/-- The nodes of a coherent graph keep it. -/
theorem Keeps.of_mem (hroot : root.Coherent floor) (hn : n ∈ root.subnodes) : root.Keeps n :=
  fun a ha b hb hab => hroot.eq_of_label a (subnodes_trans ha hn) b hb hab

/-- A fresh node keeps the graphs that its inputs keep. -/
theorem Keeps.mk (hroot : root.Coherent floor) (hlabel : floor ≤ label)
    (hms : ∀ m ∈ ms, root.Keeps m) : root.Keeps (mk label op ms) := by
  intro a ha b hb hab
  rcases mem_subnodes_mk.mp ha with rfl | ⟨m, hm, ha⟩
  · have hlt := hroot.label_lt b hb
    rw [← hab] at hlt
    exact absurd hlt (Nat.not_lt.mpr hlabel)
  · exact hms m hm a ha b hb hab

end Node

/-- A result **keeps a graph** when it is a number, or a node that does. -/
def Replacement.Keeps (root : Node) : Replacement → Prop
  | node k => root.Keeps k
  | number _ => True

/-- A result that keeps a graph and is the same as a node of it, is this very node. -/
theorem Replacement.Keeps.eq_of_isSame {root n : Node} {r : Replacement} (hr : r.Keeps root)
    (hn : n ∈ root.subnodes) (h : r.isSame n = true) : r = .node n := by
  cases r with
  | node m => rw [hr m m.self_mem_subnodes n hn (beq_iff_eq.mp h)]
  | number v => cases h

/-- A state **follows** another one in a transformation when only labels were taken and messages
added in between. -/
structure TransformState.Follows (s' s : TransformState) : Prop where
  next_le : s.next ≤ s'.next
  results : s'.results = s.results
  calls : s'.calls = s.calls

theorem TransformState.Follows.refl (s : TransformState) : s.Follows s :=
  ⟨Nat.le_refl _, rfl, rfl⟩

namespace Node

variable {root n m k : Node} {floor : Nat} {rs : List Replacement} {s : TransformState}
  {step : Node → TransformM Replacement}

/-- The **steps** of transformations of a graph, whose labels lie below `floor`: a step leaves the
results and calls to the transformation, takes labels only from the free ones, and returns nodes
that keep the graph. It may read the state, and it may fail. -/
def IsStep (root : Node) (floor : Nat) (step : Node → TransformM Replacement) : Prop :=
  ∀ k s, floor ≤ s.next → root.Keeps k →
    Ends (step k) s (fun r s' => s'.Follows s ∧ r.Keeps root) fun _ s' => s'.Follows s

/-! ### The rebuilt node -/

/-- A node **stands for a result** among the inputs of another node: a node for itself, and a fresh
constant for a number. -/
inductive StandsFor (floor : Nat) : Replacement → Node → Prop
  | node (m : Node) : StandsFor floor (.node m) m
  | number (label : Nat) (v : Number) (hlabel : floor ≤ label) :
      StandsFor floor (.number v) (mk label (.constant v) [])

/-- **What a node becomes** on the results for its inputs: the node itself when every input is its
own result, and otherwise a fresh node of the same operation on inputs that stand for the
results. -/
inductive Rebuilt (floor : Nat) (n : Node) (rs : List Replacement) : Node → Prop
  | same (h : rs = n.inputs.map .node) : Rebuilt floor n rs n
  | fresh (h : rs ≠ n.inputs.map .node) (label : Nat) (ms : List Node) (hlabel : floor ≤ label)
      (hms : List.Forall₂ (StandsFor floor) rs ms) : Rebuilt floor n rs (mk label n.op ms)

theorem StandsFor.mono {floor' : Nat} {r : Replacement} (hle : floor' ≤ floor)
    (h : StandsFor floor r m) : StandsFor floor' r m := by
  cases h with
  | node => exact .node m
  | number label v hlabel => exact .number label v (Nat.le_trans hle hlabel)

/-- Only a node itself stands for it. -/
theorem StandsFor.eq_of_node (h : StandsFor floor (.node m) k) : k = m := by
  cases h
  rfl

/-- What stands for a result keeps the graphs that the result keeps. -/
theorem StandsFor.keeps {r : Replacement} (h : StandsFor floor r m)
    (hroot : root.Coherent floor) (hr : r.Keeps root) : root.Keeps m := by
  cases h with
  | node => exact hr
  | number label v hlabel => exact .mk hroot hlabel fun m hm => absurd hm List.not_mem_nil

/-- A node whose inputs are their own results is the node itself. -/
theorem Rebuilt.eq_of_same (h : Rebuilt floor n rs k) (hrs : rs = n.inputs.map .node) : k = n := by
  cases h with
  | same _ => rfl
  | fresh hne => exact absurd hrs hne

/-- A rebuilt node keeps the graph of the node. -/
theorem Rebuilt.keeps (h : Rebuilt floor n rs k) (hroot : root.Coherent floor)
    (hn : n ∈ root.subnodes) (hrs : ∀ r ∈ rs, r.Keeps root) : root.Keeps k := by
  cases h with
  | same _ => exact .of_mem hroot hn
  | fresh _ label ms hlabel hms =>
    refine .mk hroot hlabel fun m hm => ?_
    obtain ⟨r, hr, hstands⟩ := exists_of_forall₂ hms.flip hm
    exact hstands.keeps hroot (hrs r hr)

/-- The nodes that are promoted for a list of results stand for them. -/
theorem standsFor_of_promoteAll : ∀ {rs : List Replacement} {next next' : Nat} {ms : List Node},
    promoteAll next (rs.map Replacement.operand) = .ok (ms, next') →
      next ≤ next' ∧ List.Forall₂ (StandsFor next) rs ms
  | [], next, next', ms, h => by
    cases h
    exact ⟨Nat.le_refl _, .nil⟩
  | r :: rs, next, next', ms, h => by
    rw [List.map_cons, promoteAll] at h
    obtain ⟨⟨m, next₁⟩, hm, h⟩ := bind_eq_ok.mp h
    obtain ⟨⟨ms, next₂⟩, hms, h⟩ := bind_eq_ok.mp h
    cases h
    obtain ⟨hle, hstand⟩ := standsFor_of_promoteAll hms
    have hhead : next ≤ next₁ ∧ StandsFor next r m := by
      cases r with
      | node k =>
        cases hm
        exact ⟨Nat.le_refl _, .node m⟩
      | number v =>
        rw [Replacement.operand, Operand.promote] at hm
        split at hm
        · cases hm
          exact ⟨Nat.le_succ _, .number next v (Nat.le_refl _)⟩
        · cases hm
    exact ⟨Nat.le_trans hhead.1 hle,
      .cons hhead.2 (hstand.imp fun r m h => h.mono hhead.1)⟩

/-- The results for the nodes of a graph are the same as the nodes only if they are these nodes. -/
theorem all_isSame_iff_eq : ∀ {ns : List Node} {rs : List Replacement}, rs.length = ns.length →
    (∀ n ∈ ns, n ∈ root.subnodes) → (∀ r ∈ rs, r.Keeps root) →
    (((rs.zip ns).all fun (r, old) => r.isSame old) = true ↔ rs = ns.map .node)
  | [], [], _, _, _ => by simp
  | n :: ns, r :: rs, hlength, hns, hrs => by
    have ih := all_isSame_iff_eq (Nat.succ.inj hlength)
      (fun m hm => hns m (List.mem_cons_of_mem n hm)) fun q hq => hrs q (List.mem_cons_of_mem r hq)
    have hhead : r.isSame n = true ↔ r = .node n := by
      refine ⟨(hrs r List.mem_cons_self).eq_of_isSame (hns n List.mem_cons_self), ?_⟩
      rintro rfl
      exact beq_self_eq_true n.label
    rw [List.zip_cons_cons, List.all_cons, Bool.and_eq_true, ih, hhead, List.map_cons,
      List.cons.injEq]

/-- **The rebuilding of a node** of a graph on results that keep the graph. It fails only when
the operation does not take its operands. -/
theorem rebuild_rebuilt (hn : n ∈ root.subnodes) (hlength : rs.length = n.inputs.length)
    (hrs : ∀ r ∈ rs, r.Keeps root) (hfloor : floor ≤ s.next) :
    Ends (rebuild n rs) s (fun k s' => s'.Follows s ∧ Rebuilt floor n rs k)
      fun f s' => s' = s ∧ build s.next n.op (rs.map Replacement.operand) = .error f := by
  have hsame := all_isSame_iff_eq hlength (fun m hm => input_mem_subnodes hn hm) hrs
  rw [rebuild]
  by_cases h : rs = n.inputs.map .node
  · rw [if_pos (hsame.mpr h)]
    exact .pure ⟨.refl s, .same h⟩
  · rw [if_neg (mt hsame.mp h), TransformM.withLabels]
    refine .get ?_
    cases hbuild : build s.next n.op (rs.map Replacement.operand) with
    | error f => exact .throw ⟨rfl, rfl⟩
    | ok built =>
      obtain ⟨k, next⟩ := built
      obtain ⟨-, -, hbuild⟩ := bind_eq_ok.mp hbuild
      obtain ⟨⟨ms, next'⟩, hms, hbuild⟩ := bind_eq_ok.mp hbuild
      cases hbuild
      obtain ⟨hle, hstand⟩ := standsFor_of_promoteAll hms
      refine .modify (.pure ⟨⟨Nat.le_succ_of_le hle, rfl, rfl⟩, ?_⟩)
      exact .fresh h next' ms (Nat.le_trans hfloor hle) (hstand.imp fun r m h => h.mono hfloor)

/-! ### The visits -/

/-- A **visit**: the node for which it is made, the node that the step received, and the result. -/
structure Visit where
  node : Node
  received : Node
  result : Replacement

/-- A node **has a result** among some visits. -/
def HasResult (vs : List Visit) (n : Node) (r : Replacement) : Prop :=
  ∃ v ∈ vs, v.node = n ∧ v.result = r

/-- The step is **given** for a node what the node becomes on the results for its inputs. -/
def GivenFor (floor : Nat) (vs : List Visit) (n k : Node) : Prop :=
  ∃ rs, List.Forall₂ (HasResult vs) n.inputs rs ∧ Rebuilt floor n rs k

/-- The **visits of a transformation** of a graph, the last first. They are made for distinct nodes
of the graph, for each after the ones for its inputs. -/
inductive Visits (root : Node) (floor : Nat) : List Visit → Prop
  | nil : Visits root floor []
  | cons {v : Visit} {vs : List Visit} (earlier : Visits root floor vs)
      (hnode : v.node ∈ root.subnodes) (hnew : ∀ u ∈ vs, u.node.label ≠ v.node.label)
      (hgiven : GivenFor floor vs v.node v.received) (hkeeps : v.result.Keeps root) :
      Visits root floor (v :: vs)

/-- The result of a visit is what the step **returned** on the node that it received. -/
def Visit.IsReturnedBy (v : Visit) (step : Node → TransformM Replacement) : Prop :=
  ∃ s s', runFrom (step v.received) s = (.ok v.result, s')

/-- Why a run **stops** at a node, after some visits: the step fails on the node that it is given,
or the operation of the node does not take the results for its inputs, and then the step is given
nothing. -/
inductive StopsAt (floor : Nat) (step : Node → TransformM Replacement) (vs : List Visit)
    (n : Node) : Option Node → Failure → Prop
  | step {k : Node} {f : Failure} {s s' : TransformState} (hgiven : GivenFor floor vs n k)
      (hrun : runFrom (step k) s = (.error f, s')) : StopsAt floor step vs n (some k) f
  | operands {rs : List Replacement} {f : Failure} {next : Nat}
      (hrs : List.Forall₂ (HasResult vs) n.inputs rs)
      (hbuild : build next n.op (rs.map Replacement.operand) = .error f) :
      StopsAt floor step vs n none f

/-- Nothing is replaced **below a node**: every visit for one of its nodes returned the node that
the step received. -/
def Untouched (vs : List Visit) (n : Node) : Prop :=
  ∀ v ∈ vs, v.node ∈ n.subnodes → v.result.isSame v.received = true

section Visits

variable {vs : List Visit} {u v : Visit} {r : Replacement}

theorem HasResult.cons (h : HasResult vs n r) : HasResult (v :: vs) n r := by
  obtain ⟨u, hu, hun, hur⟩ := h
  exact ⟨u, List.mem_cons_of_mem v hu, hun, hur⟩

theorem GivenFor.cons (h : GivenFor floor vs n k) : GivenFor floor (v :: vs) n k := by
  obtain ⟨rs, hrs, hk⟩ := h
  exact ⟨rs, hrs.imp fun m r hr => hr.cons, hk⟩

theorem Untouched.of_cons (h : Untouched (v :: vs) n) : Untouched vs n :=
  fun u hu => h u (List.mem_cons_of_mem v hu)

theorem Untouched.of_mem_subnodes (h : Untouched vs n) (hm : m ∈ n.subnodes) : Untouched vs m :=
  fun u hu hum => h u hu (subnodes_trans hum hm)

/-- What is known of the visit of a node from the earlier ones is known of every visit. -/
theorem Visits.forall_of_cons {P : List Visit → Visit → Prop}
    (mono : ∀ u vs v, P vs v → P (u :: vs) v)
    (last : ∀ v vs, Visits root floor (v :: vs) → P vs v)
    (h : Visits root floor vs) : ∀ v ∈ vs, P vs v := by
  induction h with
  | nil => exact fun v hv => absurd hv List.not_mem_nil
  | @cons w ws earlier hnode hnew hgiven hkeeps ih =>
    intro v hv
    rcases List.mem_cons.mp hv with rfl | hv
    · exact mono _ _ _ (last _ _ (.cons earlier hnode hnew hgiven hkeeps))
    · exact mono _ _ _ (ih v hv)

theorem Visits.node_mem (h : Visits root floor vs) : ∀ v ∈ vs, v.node ∈ root.subnodes :=
  h.forall_of_cons (P := fun _ v => v.node ∈ root.subnodes) (fun _ _ _ h => h)
    fun _ _ h => by cases h; assumption

theorem Visits.result_keeps (h : Visits root floor vs) : ∀ v ∈ vs, v.result.Keeps root :=
  h.forall_of_cons (P := fun _ v => v.result.Keeps root) (fun _ _ _ h => h)
    fun _ _ h => by cases h; assumption

/-- **What the step receives** is the node on the results for its inputs. -/
theorem Visits.givenFor (h : Visits root floor vs) :
    ∀ v ∈ vs, GivenFor floor vs v.node v.received :=
  h.forall_of_cons (P := fun vs v => GivenFor floor vs v.node v.received)
    (fun _ _ _ h => h.cons) fun _ _ h => by cases h; assumption

/-- **One visit for a node**: visits for nodes with one label are one visit. -/
theorem Visits.eq_of_label (h : Visits root floor vs) (hu : u ∈ vs) (hv : v ∈ vs)
    (huv : u.node.label = v.node.label) : u = v := by
  induction h with
  | nil => exact absurd hu List.not_mem_nil
  | cons earlier hnode hnew hgiven hkeeps ih =>
    rcases List.mem_cons.mp hu with rfl | hu' <;> rcases List.mem_cons.mp hv with rfl | hv'
    · rfl
    · exact absurd huv.symm (hnew v hv')
    · exact absurd huv (hnew u hu')
    · exact ih hu' hv'

/-- A node has one result. -/
theorem Visits.hasResult_unique (h : Visits root floor vs) {r' : Replacement}
    (hr : HasResult vs n r) (hr' : HasResult vs n r') : r = r' := by
  obtain ⟨u, hu, rfl, rfl⟩ := hr
  obtain ⟨v, hv, huv, rfl⟩ := hr'
  rw [h.eq_of_label hu hv (congrArg Node.label huv.symm)]

/-- The results for the inputs of a node keep the graph. -/
theorem Visits.results_keep (h : Visits root floor vs)
    (hrs : List.Forall₂ (HasResult vs) ns rs) : ∀ r ∈ rs, r.Keeps root := by
  intro r hr
  obtain ⟨m, -, v, hv, -, rfl⟩ := exists_of_forall₂ hrs.flip hr
  exact h.result_keeps v hv

/-- **The nodes below a visited node** have been visited. -/
theorem Visits.closed (h : Visits root floor vs) (hv : v ∈ vs) (hm : m ∈ v.node.subnodes) :
    ∃ u ∈ vs, u.node = m := by
  induction h generalizing v m with
  | nil => exact absurd hv List.not_mem_nil
  | @cons w ws earlier hnode hnew hgiven hkeeps ih =>
    rcases List.mem_cons.mp hv with rfl | hv
    · obtain ⟨rs, hrs, -⟩ := hgiven
      rcases hnodeEq : v.node with ⟨label, op, inputs⟩
      rw [hnodeEq] at hm hrs
      rcases mem_subnodes_mk.mp hm with rfl | ⟨i, hi, hm⟩
      · exact ⟨v, List.mem_cons_self, hnodeEq⟩
      · obtain ⟨r, -, u, hu, rfl, -⟩ := exists_of_forall₂ hrs hi
        obtain ⟨t, ht, htm⟩ := ih hu hm
        exact ⟨t, List.mem_cons_of_mem v ht, htm⟩
    · obtain ⟨t, ht, htm⟩ := ih hv hm
      exact ⟨t, List.mem_cons_of_mem w ht, htm⟩

/-- **A node below which nothing is replaced** is handed to the step as it is, and is its own
result. -/
theorem Visits.untouched (h : Visits root floor vs) (hv : v ∈ vs) (hidle : Untouched vs v.node) :
    v.received = v.node ∧ v.result = .node v.node := by
  induction h generalizing v with
  | nil => exact absurd hv List.not_mem_nil
  | @cons w ws earlier hnode hnew hgiven hkeeps ih =>
    rcases List.mem_cons.mp hv with rfl | hv
    · obtain ⟨rs, hrs, hrebuilt⟩ := hgiven
      have hinputs : List.Forall₂ (fun m r => .node m = r) v.node.inputs rs := by
        have hbelow := (List.forall₂_and_left _ _).mpr ⟨fun m hm => hm, hrs⟩
        refine hbelow.imp ?_
        rintro m r ⟨hm, u, hu, hum, hur⟩
        have hsub := input_mem_subnodes (self_mem_subnodes v.node) hm
        rw [← hur, (ih hu (hidle.of_cons.of_mem_subnodes (hum ▸ hsub))).2, hum]
      have hsame : rs = v.node.inputs.map .node := by
        rw [← List.forall₂_map_left_iff, List.forall₂_eq_eq_eq] at hinputs
        exact hinputs.symm
      have hreceived : v.received = v.node := hrebuilt.eq_of_same hsame
      have hresult := hidle v List.mem_cons_self (self_mem_subnodes v.node)
      rw [hreceived] at hresult
      exact ⟨hreceived, hkeeps.eq_of_isSame hnode hresult⟩
    · exact ih hv hidle.of_cons

/-- **The inputs of a rebuilt node** below which nothing is replaced are those of the node. -/
theorem GivenFor.input_eq (hgiven : GivenFor floor vs n k) (h : Visits root floor vs) {i : Nat}
    (hm : n.inputs[i]? = some m) (hidle : Untouched vs m) : k.inputs[i]? = some m := by
  obtain ⟨rs, hrs, hrebuilt⟩ := hgiven
  cases hrebuilt with
  | same _ => exact hm
  | fresh _ label ms hlabel hms =>
    obtain ⟨hi, rfl⟩ := List.getElem?_eq_some_iff.mp hm
    have hir : i < rs.length := hrs.length_eq ▸ hi
    have him : i < ms.length := hms.length_eq ▸ hir
    obtain ⟨v, hv, hnode, hresult⟩ := hrs.get hi hir
    have huntouched := (h.untouched hv (hnode ▸ hidle)).2
    have hstands := hms.get hir him
    rw [← hresult, huntouched, hnode] at hstands
    exact List.getElem?_eq_some_iff.mpr ⟨him, hstands.eq_of_node⟩

/-- The step receives nodes that keep the graph. -/
theorem GivenFor.keeps (hgiven : GivenFor floor vs n k) (h : Visits root floor vs)
    (hroot : root.Coherent floor) (hn : n ∈ root.subnodes) : root.Keeps k := by
  obtain ⟨rs, hrs, hrebuilt⟩ := hgiven
  exact hrebuilt.keeps hroot hn (h.results_keep hrs)

end Visits

/-! ### The order of the visits -/

mutual

/-- The nodes of a graph in **post-order**, the inputs from left to right and then the node, one
occurrence after the other. -/
def postorder : Node → List Node
  | mk label op inputs => postorderAll inputs ++ [mk label op inputs]

/-- The nodes of a list of graphs in post-order. -/
def postorderAll : List Node → List Node
  | [] => []
  | n :: ns => postorder n ++ postorderAll ns

end

theorem postorderAll_eq_flatMap (ns : List Node) : postorderAll ns = ns.flatMap postorder := by
  induction ns with
  | nil => rfl
  | cons n ns ih => rw [postorderAll, ih, List.flatMap_cons]

theorem mem_postorder : m ∈ n.postorder ↔ m ∈ n.subnodes := by
  induction n with
  | mk label op inputs ih =>
    rw [postorder, postorderAll_eq_flatMap, List.mem_append, List.mem_singleton, List.mem_flatMap,
      mem_subnodes_mk, or_comm]
    exact or_congr_right (exists_congr fun i => and_congr_right fun hi => ih i hi)

/-- The labels of the nodes for which visits are made, the last first. -/
def visitLabels (vs : List Visit) : List Nat := vs.map (·.node.label)

/-- The labels of a list of nodes in the order of their **first occurrence**, without those that
are known. -/
def newLabels (known : List Nat) (ns : List Node) : List Nat :=
  ((ns.map label).removeAll known).eraseDups

theorem mem_newLabels {known : List Nat} {x : Nat} :
    x ∈ newLabels known ns ↔ x ∈ ns.map label ∧ x ∉ known := by
  simp [newLabels, List.removeAll]

/-- No label is new when all are known. -/
theorem newLabels_eq_nil {known : List Nat} (h : ∀ m ∈ ns, m.label ∈ known) :
    newLabels known ns = [] := by
  refine List.eq_nil_iff_forall_not_mem.mpr fun x hx => ?_
  obtain ⟨hx, hnew⟩ := mem_newLabels.mp hx
  obtain ⟨m, hm, rfl⟩ := List.mem_map.mp hx
  exact hnew (h m hm)

/-- The labels of a first part are known to the second one. -/
theorem newLabels_append {known known' : List Nat} (as bs : List Node)
    (h : ∀ x, x ∈ known' ↔ x ∈ newLabels known as ∨ x ∈ known) :
    newLabels known (as ++ bs) = newLabels known as ++ newLabels known' bs := by
  have hknown : (((bs.map label).removeAll known).removeAll ((as.map label).removeAll known)) =
      (bs.map label).removeAll known' := by
    simp only [List.removeAll, List.filter_filter]
    refine List.filter_congr fun x _ => ?_
    have hx := h x
    rw [mem_newLabels] at hx
    rw [Bool.eq_iff_iff]
    simp only [List.elem_eq_mem, List.mem_filter, Bool.and_eq_true, Bool.not_eq_true',
      decide_eq_false_iff_not, hx]
    tauto
  rw [newLabels, List.map_append]
  have happend : (as.map label ++ bs.map label).removeAll known =
      (as.map label).removeAll known ++ (bs.map label).removeAll known := List.filter_append ..
  rw [happend, List.eraseDups_append, hknown]
  rfl

/-! ### Runs and their visits -/

/-- The state **records** some visits, and maybe a node that was given to the step without a
result. -/
structure Record (root : Node) (floor : Nat) (vs : List Visit) (pending : Option Node)
    (s : TransformState) : Prop where
  visits : Visits root floor vs
  floor_le : floor ≤ s.next
  results : s.results = vs.map fun v => (v.node.label, v.result)
  calls : s.calls = pending.toList ++ vs.map (·.received)
  given : ∀ k ∈ pending, ∃ n ∈ root.subnodes, GivenFor floor vs n k

section Runs

variable {vs : List Visit} {r : Replacement}

/-- A state that follows a recording one records the same visits. -/
theorem Record.follow {pending : Option Node} {s' : TransformState}
    (h : Record root floor vs pending s) (hs : s'.Follows s) : Record root floor vs pending s' :=
  ⟨h.visits, Nat.le_trans h.floor_le hs.next_le, hs.results.trans h.results,
    hs.calls.trans h.calls, h.given⟩

/-- The result that is kept for a node is the one of its visit. -/
theorem Record.hasResult {pending : Option Node} (h : Record root floor vs pending s)
    (hroot : root.Coherent floor) (hn : n ∈ root.subnodes)
    (hlookup : s.results.lookup n.label = some r) : HasResult vs n r := by
  rw [h.results] at hlookup
  have hmem := mem_of_lookup_eq_some hlookup
  obtain ⟨v, hv, heq⟩ := List.mem_map.mp hmem
  obtain ⟨hlabel, hresult⟩ := Prod.mk.inj heq
  exact ⟨v, hv, hroot.eq_of_label _ (h.visits.node_mem v hv) n hn hlabel, hresult⟩

/-- A node without a result has not been visited. -/
theorem Record.not_visited {pending : Option Node} (h : Record root floor vs pending s)
    (hlookup : s.results.lookup n.label = none) : ∀ u ∈ vs, u.node.label ≠ n.label := by
  intro u hu hlabel
  rw [h.results, List.lookup_eq_none_iff] at hlookup
  have hne := hlookup _ (List.mem_map_of_mem hu)
  simp [hlabel] at hne

/-- **One visit** is recorded; and when it fails, the run stops at its node. -/
theorem visit_records (hroot : root.Coherent floor) (hstep : IsStep root floor step)
    (hn : n ∈ root.subnodes) (hs : Record root floor vs none s)
    (hnew : ∀ u ∈ vs, u.node.label ≠ n.label) (hrs : List.Forall₂ (HasResult vs) n.inputs rs) :
    Ends (visit step n rs) s
      (fun r s' => ∃ k, Record root floor (⟨n, k, r⟩ :: vs) none s' ∧
        Visit.IsReturnedBy ⟨n, k, r⟩ step)
      fun f s' => ∃ pending, Record root floor vs pending s' ∧
        StopsAt floor step vs n pending f := by
  have hkeep := hs.visits.results_keep hrs
  have hrebuild := rebuild_rebuilt hn hrs.length_eq.symm hkeep hs.floor_le
  rw [visit]
  refine (hrebuild.mono (fun k s₁ h => h) ?_).bind fun k s₁ hrebuilt => .modify ?_
  · rintro f s' ⟨rfl, hbuild⟩
    exact ⟨none, hs, .operands hrs hbuild⟩
  obtain ⟨hs₁, hk⟩ := hrebuilt
  have hgiven : GivenFor floor vs n k := ⟨rs, hrs, hk⟩
  have hs₁ := hs.follow hs₁
  -- from here on, a failure leaves the node pending
  have hpending : Record root floor vs (some k) { s₁ with calls := k :: s₁.calls } :=
    ⟨hs₁.visits, hs₁.floor_le, hs₁.results, congrArg (k :: ·) hs₁.calls, fun k' hk' => by
      cases hk'
      exact ⟨n, hn, hgiven⟩⟩
  have hends := (hstep k { s₁ with calls := k :: s₁.calls } hs₁.floor_le
    (hk.keeps hroot hn hkeep)).and_run
  refine (hends.mono (fun r s₂ h => h) ?_).bind fun r s₂ hresult => .modify (.pure ⟨k, ?_, ?_⟩)
  · rintro f s₂ ⟨hrun, hs₂⟩
    exact ⟨some k, hpending.follow hs₂, .step hgiven hrun⟩
  · obtain ⟨-, hs₂, hr⟩ := hresult
    have hs₂ := hpending.follow hs₂
    exact ⟨.cons hs₂.visits hn hnew hgiven hr, hs₂.floor_le, congrArg (_ :: ·) hs₂.results,
      hs₂.calls, fun k' hk' => by cases hk'⟩
  · exact ⟨_, _, hresult.1⟩

/-- How the run at a node, or at a list of nodes, goes on from some visits: it adds `new` ones, for
the labels of `order` that are not known yet, in this order. -/
structure Adds (root : Node) (floor : Nat) (step : Node → TransformM Replacement)
    (vs new : List Visit) (order : List Node) (s : TransformState) : Prop where
  record : Record root floor (new ++ vs) none s
  returned : ∀ v ∈ new, v.IsReturnedBy step
  order : (visitLabels new).reverse = newLabels (visitLabels vs) order

/-- How the run at a node, or at a list of nodes, **fails**: after `new` visits it stops at the node
`n`, which is the next one in `order`. -/
structure Fails (root : Node) (floor : Nat) (step : Node → TransformM Replacement)
    (vs new : List Visit) (n : Node) (pending : Option Node) (order : List Node) (f : Failure)
    (s : TransformState) : Prop where
  record : Record root floor (new ++ vs) pending s
  returned : ∀ v ∈ new, v.IsReturnedBy step
  mem : n ∈ root.subnodes
  stops : StopsAt floor step (new ++ vs) n pending f
  order : (visitLabels new).reverse ++ [n.label] <+: newLabels (visitLabels vs) order

section Order

variable {new new' : List Visit} {order order' : List Node} {pending : Option Node} {f : Failure}

/-- After a run, the labels of the new visits are known too. -/
theorem Adds.mem_visitLabels (h : Adds root floor step vs new order s) (x : Nat) :
    x ∈ visitLabels (new ++ vs) ↔ x ∈ newLabels (visitLabels vs) order ∨ x ∈ visitLabels vs := by
  rw [← h.order, List.mem_reverse, visitLabels, List.map_append, List.mem_append]
  rfl

/-- One run **after another**. -/
theorem Adds.append {s' : TransformState} (h : Adds root floor step vs new order s)
    (h' : Adds root floor step (new ++ vs) new' order' s') :
    Adds root floor step vs (new' ++ new) (order ++ order') s' where
  record := by
    rw [List.append_assoc]
    exact h'.record
  returned v hv := (List.mem_append.mp hv).elim (h'.returned v) (h.returned v)
  order := by
    rw [visitLabels, List.map_append, List.reverse_append, newLabels_append _ _ h.mem_visitLabels]
    exact congrArg₂ _ h.order h'.order

/-- A run that fails after another one. -/
theorem Fails.after {s' : TransformState} (h : Adds root floor step vs new order s)
    (h' : Fails root floor step (new ++ vs) new' n pending order' f s') :
    Fails root floor step vs (new' ++ new) n pending (order ++ order') f s' where
  record := by
    rw [List.append_assoc]
    exact h'.record
  returned v hv := (List.mem_append.mp hv).elim (h'.returned v) (h.returned v)
  mem := h'.mem
  stops := by
    rw [List.append_assoc]
    exact h'.stops
  order := by
    rw [visitLabels, List.map_append, List.reverse_append, newLabels_append _ _ h.mem_visitLabels,
      List.append_assoc]
    exact h.order ▸ (List.prefix_append_right_inj _).mpr h'.order

/-- A run that fails before another one would have begun. -/
theorem Fails.before (h : Fails root floor step vs new n pending order f s) (order' : List Node) :
    Fails root floor step vs new n pending (order ++ order') f s where
  record := h.record
  returned := h.returned
  mem := h.mem
  stops := h.stops
  order := by
    have hknown : ∀ x, x ∈ newLabels (visitLabels vs) order ++ visitLabels vs ↔
        x ∈ newLabels (visitLabels vs) order ∨ x ∈ visitLabels vs := fun x => List.mem_append
    rw [newLabels_append _ _ hknown]
    exact h.order.trans (List.prefix_append _ _)

end Order

/-- The visits for a list of nodes, from those for each of them. -/
theorem transformAllWith_visits : ∀ ns : List Node,
    (∀ n ∈ ns, ∀ vs s, Record root floor vs none s → Ends (transformWith step n) s
      (fun r s' => ∃ new, Adds root floor step vs new n.postorder s' ∧ HasResult (new ++ vs) n r)
      fun f s' => ∃ new m pending, Fails root floor step vs new m pending n.postorder f s') →
    ∀ vs s, Record root floor vs none s → Ends (transformAllWith step ns) s
      (fun rs s' => ∃ new, Adds root floor step vs new (postorderAll ns) s' ∧
        List.Forall₂ (HasResult (new ++ vs)) ns rs)
      fun f s' => ∃ new m pending, Fails root floor step vs new m pending (postorderAll ns) f s'
  | [], _, vs, s, hs => by
    rw [transformAllWith]
    exact .pure ⟨[], ⟨hs, fun v hv => absurd hv List.not_mem_nil, rfl⟩, .nil⟩
  | n :: ns, hns, vs, s, hs => by
    rw [transformAllWith, postorderAll]
    refine ((hns n List.mem_cons_self vs s hs).mono (fun r s₁ h => h) ?_).bind fun r s₁ hhead => ?_
    · rintro f s' ⟨new, m, pending, hfails⟩
      exact ⟨new, m, pending, hfails.before _⟩
    obtain ⟨new, hadds, hr⟩ := hhead
    have htail := transformAllWith_visits ns (fun m hm => hns m (List.mem_cons_of_mem n hm))
      (new ++ vs) s₁ hadds.record
    refine (htail.mono (fun rs s₂ h => h) ?_).bind fun rs s₂ hrest => ?_
    · rintro f s' ⟨new', m, pending, hfails⟩
      exact ⟨new' ++ new, m, pending, hfails.after hadds⟩
    obtain ⟨new', hadds', hrs⟩ := hrest
    refine .pure ⟨new' ++ new, hadds.append hadds', ?_⟩
    rw [List.append_assoc]
    obtain ⟨v, hv, hvn, hvr⟩ := hr
    exact .cons ⟨v, List.mem_append_right _ hv, hvn, hvr⟩ hrs

/-- A node that has not been visited yet is the next one in the order. -/
theorem newLabels_singleton {known : List Nat} (h : n.label ∉ known) :
    newLabels known [n] = [n.label] := by
  simp [newLabels, List.removeAll, h, List.eraseDups_cons]

/-- **The visits of a run.** From some visits on, a run at a node of the graph visits the nodes
below it that have not been visited, each once and in the order in which they first occur in
post-order; and it fails only at the next node in this order. -/
theorem transformWith_visits (hroot : root.Coherent floor) (hstep : IsStep root floor step) :
    ∀ n, n ∈ root.subnodes → ∀ vs s, Record root floor vs none s → Ends (transformWith step n) s
      (fun r s' => ∃ new, Adds root floor step vs new n.postorder s' ∧ HasResult (new ++ vs) n r)
      fun f s' => ∃ new m pending, Fails root floor step vs new m pending n.postorder f s' := by
  intro n
  induction n with
  | mk label op inputs ih =>
    intro hn vs s hs
    set n := mk label op inputs with hnode
    cases hlookup : s.results.lookup n.label with
    | some r =>
      have hr := hs.hasResult hroot hn hlookup
      refine .of_ok (runFrom_transformWith_known hlookup)
        ⟨[], ⟨hs, fun v hv => absurd hv List.not_mem_nil, ?_⟩, hr⟩
      obtain ⟨v, hv, hvn, -⟩ := hr
      refine (newLabels_eq_nil fun m hm => ?_).symm
      obtain ⟨u, hu, rfl⟩ := hs.visits.closed hv (hvn ▸ mem_postorder.mp hm)
      exact List.mem_map_of_mem hu
    | none =>
      have hnew := hs.not_visited hlookup
      have hinputs := transformAllWith_visits inputs
        (fun m hm vs s hs => ih m hm (input_mem_subnodes hn hm) vs s hs) vs s hs
      rw [Ends, runFrom_transformWith_new hlookup, hnode, postorder, ← hnode]
      refine (hinputs.mono (fun rs s₁ h => h) ?_).bind fun rs s₁ hbelow => ?_
      · rintro f s' ⟨new, m, pending, hfails⟩
        exact ⟨new, m, pending, hfails.before _⟩
      obtain ⟨new, hadds, hrs⟩ := hbelow
      -- the run at the inputs visits only nodes below them, and so not the node itself
      have hnotNew : n.label ∉ newLabels (visitLabels vs) (postorderAll inputs) := by
        intro h
        obtain ⟨m, hm, hlabel⟩ := List.mem_map.mp (mem_newLabels.mp h).1
        rw [postorderAll_eq_flatMap] at hm
        obtain ⟨i, hi, hm⟩ := List.mem_flatMap.mp hm
        have hi' : i ∈ n.inputs := hi
        have hm' := mem_postorder.mp hm
        have hmroot := subnodes_trans hm' (input_mem_subnodes hn hi')
        exact not_mem_subnodes_of_mem_inputs hi' (hroot.eq_of_label m hmroot n hn hlabel ▸ hm')
      have hnotOld : n.label ∉ visitLabels vs := by
        intro h
        obtain ⟨u, hu, hlabel⟩ := List.mem_map.mp h
        exact hnew u hu hlabel
      have hnotVisited : n.label ∉ visitLabels (new ++ vs) :=
        fun h => ((hadds.mem_visitLabels _).mp h).elim hnotNew hnotOld
      have hlast := newLabels_singleton hnotVisited
      refine (visit_records hroot hstep hn hadds.record
        (fun u hu hlabel => hnotVisited (hlabel ▸ List.mem_map_of_mem hu)) hrs).mono ?_ ?_
      · rintro r s₂ ⟨k, hrecord, hreturned⟩
        have hvisit : Adds root floor step (new ++ vs) [⟨n, k, r⟩] [n] s₂ :=
          ⟨hrecord, List.forall_mem_singleton.mpr hreturned, hlast.symm⟩
        exact ⟨_, hadds.append hvisit, _, List.mem_cons_self, rfl, rfl⟩
      · rintro f s₂ ⟨pending, hrecord, hstops⟩
        have hvisit : Fails root floor step (new ++ vs) [] n pending [n] f s₂ :=
          ⟨hrecord, fun v hv => absurd hv List.not_mem_nil, hn, hstops,
            hlast ▸ List.prefix_rfl⟩
        exact ⟨_, n, pending, hvisit.after hadds⟩

/-! ### Whole transformations -/

/-- The last state of a whole transformation is that of its run, up to a message. -/
theorem transform_snd_follows (pass : String) (next : Nat) :
    (n.transform pass step next).2.Follows (runFrom (transformWith step n) (.start next)).2 := by
  rw [transform, TransformState.start, runFrom]
  rcases StateT.run (ExceptT.run (transformWith step n)) ⟨next, [], [], #[]⟩ with ⟨f | r, s⟩
  · cases hf : transformationFailure f <;> simp only [hf] <;> exact ⟨Nat.le_refl _, rfl, rfl⟩
  · exact .refl s

/-- **A whole run** visits all nodes of the graph in the order of first occurrence, or it fails at
the next node in this order. -/
theorem run_visits (hroot : root.Coherent floor) (hstep : IsStep root floor step) :
    Ends (transformWith step root) (.start floor)
      (fun r s => ∃ vs, Adds root floor step [] vs root.postorder s ∧ HasResult vs root r)
      fun f s => ∃ vs m pending, Fails root floor step [] vs m pending root.postorder f s := by
  have hstart : Record root floor [] none (.start floor) :=
    ⟨.nil, Nat.le_refl _, rfl, rfl, fun k hk => by cases hk⟩
  refine (transformWith_visits hroot hstep root (self_mem_subnodes root) [] _ hstart).mono ?_
    fun f s h => h
  rintro r s ⟨vs, hadds, hr⟩
  rw [List.append_nil] at hr
  exact ⟨vs, hadds, hr⟩

/-- The order of first occurrence, when nothing is known. -/
theorem newLabels_nil (ns : List Node) : newLabels [] ns = (ns.map label).eraseDups := by
  simp [newLabels, List.removeAll]

/-- **The visits of a whole transformation.** Its last state records them, also when it fails; when
it succeeds, they are made for all nodes of the graph, in the order of first occurrence, and the
result is the one for the root. -/
theorem transform_visits (hroot : root.Coherent floor) (hstep : IsStep root floor step)
    (pass : String) :
    ∃ vs pending, Record root floor vs pending (root.transform pass step floor).2 ∧
      ∀ r, (root.transform pass step floor).1 = .ok r →
        pending = none ∧ HasResult vs root r ∧
          vs.reverse.map (·.node.label) = (root.postorder.map label).eraseDups := by
  have hends := run_visits hroot hstep
  have hfollows : (root.transform pass step floor).2.Follows
      (runFrom (transformWith step root) (.start floor)).2 := transform_snd_follows pass floor
  rw [transform_fst]
  rcases hrun : runFrom (transformWith step root) (.start floor) with ⟨f | r, s⟩
  · rw [hrun] at hfollows
    obtain ⟨vs, m, pending, hfails⟩ := hends.error hrun
    exact ⟨vs ++ [], pending, hfails.record.follow hfollows, fun r h => by cases h⟩
  · rw [hrun] at hfollows
    obtain ⟨vs, hadds, hr⟩ := hends.ok hrun
    have hrecord := hadds.record
    rw [List.append_nil] at hrecord
    refine ⟨vs, none, hrecord.follow hfollows, ?_⟩
    rintro r' ⟨⟩
    refine ⟨rfl, hr, ?_⟩
    rw [List.map_reverse, ← newLabels_nil]
    exact hadds.order

/-- **A transformation preserves what it does not touch.** The last state of every transformation,
also of one that fails, records its visits. A node below which every call returned the node that it
received is its own result, and so is the root of a graph in which nothing is replaced; and where
such a node is an input of another one, it is still that input of the node that the step receives.
Every node that the step receives is the node of the graph itself when all inputs are their own
results, and otherwise a fresh node of the same operation on exactly the results for the inputs,
numbers promoted to constants. A label of the graph stands for the same node of the graph in all
nodes that were received and returned, so that the graph reads the same as before. -/
theorem transform_preserves_untouched (root : Node) (next : Nat)
    (step : Node → TransformM Replacement) (pass : String) (hroot : root.Coherent next)
    (hstep : IsStep root next step) :
    ∃ vs pending, Record root next vs pending (root.transform pass step next).2 ∧
      (∀ v ∈ vs, Untouched vs v.node → v.result = .node v.node) ∧
      (∀ r, (root.transform pass step next).1 = .ok r →
        pending = none ∧ HasResult vs root r ∧ (Untouched vs root → r = .node root)) ∧
      (∀ v ∈ vs, ∀ (i : Nat) (m : Node), v.node.inputs[i]? = some m → Untouched vs m →
        v.received.inputs[i]? = some m) ∧
      (∀ v ∈ vs, GivenFor next vs v.node v.received) ∧
      (∀ k ∈ pending, ∃ n ∈ root.subnodes, GivenFor next vs n k) ∧
      (∀ k ∈ (root.transform pass step next).2.calls, root.Keeps k) ∧
      ∀ p ∈ (root.transform pass step next).2.results, p.2.Keeps root := by
  obtain ⟨vs, pending, hrecord, hok⟩ := transform_visits hroot hstep pass
  have hvisits := hrecord.visits
  have hgiven := hvisits.givenFor
  refine ⟨vs, pending, hrecord, fun v hv h => (hvisits.untouched hv h).2, fun r hr => ?_, ?_,
    hgiven, hrecord.given, ?_, ?_⟩
  · obtain ⟨hpending, hresult, -⟩ := hok r hr
    refine ⟨hpending, hresult, fun h => ?_⟩
    obtain ⟨v, hv, rfl, rfl⟩ := hresult
    exact (hvisits.untouched hv h).2
  · intro v hv i m hm hidle
    exact (hgiven v hv).input_eq hvisits hm hidle
  · intro k hk
    rw [hrecord.calls, List.mem_append] at hk
    rcases hk with hk | hk
    · obtain ⟨n, hn, hgiven⟩ := hrecord.given k (Option.mem_toList.mp hk)
      exact hgiven.keeps hvisits hroot hn
    · obtain ⟨v, hv, rfl⟩ := List.mem_map.mp hk
      exact (hgiven v hv).keeps hvisits hroot (hvisits.node_mem v hv)
  · intro p hp
    rw [hrecord.results] at hp
    obtain ⟨v, hv, rfl⟩ := List.mem_map.mp hp
    exact hvisits.result_keeps v hv

/-! ### A graph with a shared node -/

/-- The step that puts a number in the place of a variable, and leaves every other node alone. -/
def substituteStep (name : String) (v : Number) (k : Node) : TransformM Replacement :=
  return if k.op = .var name none then .number v else .node k

theorem isStep_substituteStep (root : Node) (floor : Nat) (name : String) (v : Number) :
    IsStep root floor (substituteStep name v) := by
  intro k s _ hk
  refine .pure ⟨.refl s, ?_⟩
  split
  · trivial
  · exact hk

/-- A graph in which the negation of `x` occurs twice, beside the negation of `y`. -/
def sharedNegation : Node :=
  let x := mk 1 .negation [mk 0 (.var "x" none) []]
  mk 4 .tuple [x, mk 3 .negation [mk 2 (.var "y" none) []], x]

theorem coherent_sharedNegation : sharedNegation.Coherent 5 := by
  constructor <;> simp [sharedNegation, subnodes, subnodesAll, label]

/-- With a number in the place of `x`, the shared negation is built anew, once for both places, and
the negation of `y` stays where it was: five visits are made for the seven occurrences of nodes. -/
theorem transform_sharedNegation :
    ∃ vs k, vs.length = 5 ∧
      (sharedNegation.transform "substitution" (substituteStep "x" (.integer 3)) 5).1 =
        .ok (.node (mk 7 .tuple [k, mk 3 .negation [mk 2 (.var "y" none) []], k])) ∧
      k.erase = .node .negation [.constant (.integer 3)] ∧
      (∀ v ∈ vs, GivenFor 5 vs v.node v.received) ∧
      ∀ v ∈ vs, Untouched vs v.node → v.result = .node v.node := by
  obtain ⟨vs, pending, hrecord, huntouched, -, -, hgiven, -⟩ :=
    transform_preserves_untouched sharedNegation 5 (substituteStep "x" (.integer 3)) "substitution"
      coherent_sharedNegation (isStep_substituteStep _ _ _ _)
  refine ⟨vs, mk 6 .negation [mk 5 (.constant (.integer 3)) []], ?_, rfl, rfl, hgiven, huntouched⟩
  have hlength := congrArg List.length hrecord.results
  rw [List.length_map] at hlength
  exact hlength.symm

end Runs

end Node

end Elementary
