import Elementary.Proofs.Expr.Numeral
import Elementary.Proofs.Expr.Transformation

/-!
# What quantization does

A quantized expression has a coding where the constants were and is otherwise unchanged. This is
said without the pass: `Expr.coded` puts the codings in by recursion on the tree, and a tree is
codable when there is a coding for every constant. The pass finds them on a graph with shared
nodes, building new nodes only above constants, and it stops at the first constant that has none.

## Main definitions

* `Expr.numbers`, `Expr.constants`: the numbers of a tree in the order in which they are met.
* `Expr.coded`, `Expr.Codable`: the constants of a tree replaced by their codings, if all have one.
* `Expr.FailsBy`: the failure of the first number that has none.

## Main results

* `Expr.quantize_outcome_cases`: the quantization of a tree.
* `Node.transformWith_quantizeStep_ends`: the run of the quantization on a graph.
* `Node.quantize_rewrites_constants`: what quantization does, and when and how it fails.
-/

namespace Elementary

open Elementary.Computation

namespace Expr

variable {nt : NumberType} {e a : Expr} {op : Op} {es : List Expr} {v : Number}
  {n : Except Failure Number} {c : Nat} {f : Failure}

/-! ### The constants of a tree and their codings -/

mutual

/-- The **numbers of a tree**, written or named, in the order in which they are met; an unknown name
gives none. -/
def numbers : Expr → List (Except Failure Number)
  | node op operands => numbersAll operands ++ op.number?.toList

/-- The numbers of a list of trees. -/
def numbersAll : List Expr → List (Except Failure Number)
  | [] => []
  | e :: es => numbers e ++ numbersAll es

end

/-- The **constants of a tree**: its numbers, without those that an unknown name does not give. -/
def constants (e : Expr) : List Number := e.numbers.filterMap Except.toOption

theorem numbers_node : (node op es).numbers = es.flatMap numbers ++ op.number?.toList := by
  have hes : numbersAll es = es.flatMap numbers := by
    induction es with
    | nil => rfl
    | cons e es ih => rw [numbersAll, ih, List.flatMap_cons]
  rw [numbers, hes]

theorem mem_numbers_node :
    n ∈ (node op es).numbers ↔ (∃ e ∈ es, n ∈ e.numbers) ∨ op.number? = some n := by
  rw [numbers_node, List.mem_append, List.mem_flatMap, Option.mem_toList]

/-- The numbers of a tree are those of its subterms. -/
theorem exists_subterm_of_mem_numbers (h : n ∈ e.numbers) :
    ∃ a ∈ e.subterms, a.op.number? = some n := by
  induction e with
  | node op es ih =>
    rcases mem_numbers_node.mp h with ⟨e, he, hn⟩ | hop
    · obtain ⟨a, ha, hop⟩ := ih e he hn
      exact ⟨a, mem_subterms_of_mem he ha, hop⟩
    · exact ⟨_, self_mem_subterms _, hop⟩

/-- The numbers of a tree with numerals are its constants, and these are numerals. -/
theorem numbers_eq_map_constants (h : ∀ a ∈ e.subterms, a.op.HasNumeral) :
    e.numbers = e.constants.map .ok ∧ ∀ v ∈ e.constants, v.IsNumeral := by
  have hnumbers : ∀ n ∈ e.numbers, ∃ v, n = .ok v ∧ v.IsNumeral := by
    intro n hn
    obtain ⟨a, ha, hop⟩ := exists_subterm_of_mem_numbers hn
    rcases (h a ha).number?_cases with hnone | ⟨v, hsome, hv⟩
    · cases hop.symm.trans hnone
    · exact ⟨v, Option.some.inj (hop.symm.trans hsome), hv⟩
  rw [constants]
  generalize e.numbers = ns at hnumbers
  induction ns with
  | nil => exact ⟨rfl, fun v hv => absurd hv List.not_mem_nil⟩
  | cons n ns ih =>
    obtain ⟨v, rfl, hv⟩ := hnumbers n List.mem_cons_self
    obtain ⟨hns, hvs⟩ := ih fun m hm => hnumbers m (List.mem_cons_of_mem _ hm)
    have hcons : (Except.ok v :: ns).filterMap (Except.toOption (ε := Failure)) =
        v :: ns.filterMap Except.toOption := rfl
    rw [hcons, List.map_cons, ← hns]
    refine ⟨rfl, fun w hw => ?_⟩
    rcases List.mem_cons.mp hw with rfl | hw
    · exact hv
    · exact hvs w hw

mutual

/-- A tree with its **constants replaced by their codings**; every other operation stays, with the
attributes it has and the operands in their order. -/
def coded (nt : NumberType) : Expr → Expr
  | node op operands =>
    match (op.number?.bind Except.toOption).bind nt.coding? with
    | some c => nt.literal c
    | none => node op (codedAll nt operands)

/-- A list of trees with their constants replaced. -/
def codedAll (nt : NumberType) : List Expr → List Expr
  | [] => []
  | e :: es => coded nt e :: codedAll nt es

end

theorem codedAll_eq_map (es : List Expr) : codedAll nt es = es.map (coded nt) := by
  induction es with
  | nil => rfl
  | cons e es ih => rw [codedAll, ih, List.map_cons]

/-- An operation that is no constant stays as it is. -/
theorem coded_of_number?_eq_none (h : op.number? = none) :
    (node op es).coded nt = node op (es.map (coded nt)) := by
  rw [coded, h, codedAll_eq_map]
  rfl

/-- A constant becomes the expression of its coding. -/
theorem coded_of_number?_eq_some (h : op.number? = some (.ok v)) (hc : nt.coding? v = some c) :
    (node op es).coded nt = nt.literal c := by
  have hbind : (op.number?.bind Except.toOption).bind nt.coding? = some c := by
    rw [h]
    exact hc
  rw [coded, hbind]

/-- The expression of a coding holds no constant. -/
theorem number?_of_mem_subterms_literal (ha : a ∈ (nt.literal c).subterms) :
    a.op.number? = none := by
  rw [NumberType.literal] at ha
  split at ha <;> simp only [subterms, subtermsAll, List.mem_cons, List.append_nil,
    List.not_mem_nil, or_false] at ha
  · rcases ha with rfl | rfl | rfl <;> rfl
  · rcases ha with rfl | rfl <;> rfl

/-- A tree is **codable** when every number in it is known and has a coding. -/
def Codable (nt : NumberType) (e : Expr) : Prop :=
  ∀ n ∈ e.numbers, ∃ v c, n = .ok v ∧ nt.codingOutcome v = .ok c

/-- Whether a tree is codable, computed. -/
def isCodable (nt : NumberType) (e : Expr) : Bool := e.numbers.all fun n => (nt.failure? n).isNone

theorem isCodable_iff : e.isCodable nt = true ↔ e.Codable nt := by
  simp only [isCodable, Codable, List.all_eq_true, Option.isNone_iff_eq_none,
    NumberType.failure?_eq_none_iff]

/-- A tree that is codable in each of the number types is codable **in every one**. -/
theorem codable_of_all (h : ∀ nt ∈ NumberType.all, e.isCodable nt = true) (nt : NumberType) :
    e.Codable nt := by
  refine isCodable_iff.mp (h nt ?_)
  obtain ⟨p, v⟩ := nt
  cases p <;> cases v <;> decide

/-- The failure of **the first number** of a tree that has no coding. -/
def FailsBy (nt : NumberType) (e : Expr) (f : Failure) : Prop :=
  e.numbers.findSome? nt.failure? = some f

/-- A tree that fails is not codable. -/
theorem FailsBy.not_codable (h : e.FailsBy nt f) : ¬ e.Codable nt := by
  intro hcodable
  have hnone : e.numbers.findSome? nt.failure? = none :=
    List.findSome?_eq_none_iff.mpr fun n hn => NumberType.failure?_eq_none_iff.mpr (hcodable n hn)
  cases hnone.symm.trans h

/-- What gives a value on a codable tree, and fails on every other one by the failure of the tree,
fails **by that failure only**. -/
theorem eq_error_iff_failsBy {α : Type} {x : Except Failure α} (report : Failure → Failure)
    (h : (∃ a, x = .ok a ∧ e.Codable nt) ∨ ∃ f, x = .error (report f) ∧ e.FailsBy nt f)
    {g : Failure} : x = .error g ↔ ∃ f, e.FailsBy nt f ∧ g = report f := by
  rcases h with ⟨a, rfl, hcodable⟩ | ⟨f, rfl, hf⟩
  · exact iff_of_false (fun h => by cases h) fun ⟨f, hf, _⟩ => hf.not_codable hcodable
  · constructor
    · exact fun h => ⟨f, hf, (Except.error.inj h).symm⟩
    · rintro ⟨f', hf', rfl⟩
      rw [Option.some.inj (hf.symm.trans hf')]

/-- A tree is codable when its root and its operands are. -/
theorem codable_node :
    (node op es).Codable nt ↔
      (∀ n, op.number? = some n → ∃ v c, n = .ok v ∧ nt.codingOutcome v = .ok c) ∧
        ∀ e ∈ es, e.Codable nt := by
  constructor
  · intro h
    exact ⟨fun n hn => h n (mem_numbers_node.mpr (Or.inr hn)),
      fun e he n hn => h n (mem_numbers_node.mpr (Or.inl ⟨e, he, hn⟩))⟩
  · rintro ⟨hroot, hes⟩ n hn
    rcases mem_numbers_node.mp hn with ⟨e, he, hn⟩ | hop
    · exact hes e he n hn
    · exact hroot n hop

/-- The operands of a codable tree are codable. -/
theorem Codable.operand (h : (node op es).Codable nt) (he : e ∈ es) : e.Codable nt :=
  (codable_node.mp h).2 e he

/-- A constant is codable when it has a coding. -/
theorem codable_constant {n : Number} :
    (constant n).Codable nt ↔ ∃ c, nt.codingOutcome n = .ok c := by
  constructor
  · intro h
    obtain ⟨v, c, hv, hc⟩ := (codable_node.mp h).1 _ rfl
    cases hv
    exact ⟨c, hc⟩
  · rintro ⟨c, hc⟩
    exact codable_node.mpr ⟨fun v hv => ⟨n, c, (Option.some.inj hv).symm, hc⟩, nofun⟩

/-- Zero is codable in every number type. -/
theorem codable_zero (nt : NumberType) : (constant (.integer 0)).Codable nt :=
  codable_constant.mpr ⟨0, nt.codingOutcome_zero⟩

/-- An operation that is no number is codable when its operands are. -/
theorem codable_operation (hop : op.number? = none) :
    (node op es).Codable nt ↔ ∀ e ∈ es, e.Codable nt := by
  rw [codable_node, hop]
  exact and_iff_right nofun

/-- The numbers of codable trees do not fail. -/
theorem findSome?_flatMap_eq_none (hes : ∀ e ∈ es, e.Codable nt) :
    (es.flatMap numbers).findSome? nt.failure? = none := by
  refine List.findSome?_eq_none_iff.mpr fun n hn => NumberType.failure?_eq_none_iff.mpr ?_
  obtain ⟨e, he, hn⟩ := List.mem_flatMap.mp hn
  exact hes e he n hn

/-- A tree fails as **the first of its operands** that fails. -/
theorem FailsBy.of_operand {pre post : List Expr} (hpre : ∀ e ∈ pre, e.Codable nt)
    (h : e.FailsBy nt f) : (node op (pre ++ e :: post)).FailsBy nt f := by
  rw [FailsBy] at h ⊢
  rw [numbers_node, List.flatMap_append, List.flatMap_cons, List.findSome?_append,
    List.findSome?_append, List.findSome?_append, findSome?_flatMap_eq_none hpre, h]
  rfl

/-- A tree with codable operands fails as its root. -/
theorem FailsBy.of_root (hes : ∀ e ∈ es, e.Codable nt) (hop : op.number? = some n)
    (hfail : nt.failure? n = some f) : (node op es).FailsBy nt f := by
  rw [FailsBy, numbers_node, List.findSome?_append, findSome?_flatMap_eq_none hes, hop,
    Option.none_or]
  simp only [Option.toList_some, List.findSome?_cons, hfail]

/-- **No constant is left** in a tree that is coded. -/
theorem Codable.number?_eq_none (h : e.Codable nt) (ha : a ∈ (e.coded nt).subterms) :
    a.op.number? = none := by
  induction e with
  | node op es ih =>
    obtain ⟨hroot, hes⟩ := codable_node.mp h
    cases hop : op.number? with
    | none =>
      rw [coded_of_number?_eq_none hop] at ha
      rcases mem_subterms_node.mp ha with rfl | ⟨e', he', ha⟩
      · exact hop
      · obtain ⟨e, he, rfl⟩ := List.mem_map.mp he'
        exact ih e he (hes e he) ha
    | some n =>
      obtain ⟨v, c, rfl, hc⟩ := hroot n hop
      rw [coded_of_number?_eq_some hop (NumberType.coding?_of_codingOutcome hc)] at ha
      exact number?_of_mem_subterms_literal ha

/-- **A tree of numerals** is codable exactly if none of its constants is refused. -/
theorem codable_iff (hnumerals : ∀ a ∈ e.subterms, a.op.HasNumeral) :
    e.Codable nt ↔ ∀ v ∈ e.constants, ∀ g, ¬ nt.Refuses v g := by
  obtain ⟨hnumbers, hvs⟩ := numbers_eq_map_constants hnumerals
  have hcodable : e.Codable nt ↔ ∀ v ∈ e.constants, nt.failure? (.ok v) = none := by
    rw [Codable, hnumbers, List.forall_mem_map]
    exact forall₂_congr fun v _ => NumberType.failure?_eq_none_iff.symm
  rw [hcodable]
  exact forall₂_congr fun v hv => NumberType.failure?_eq_none_iff_forall (hvs v hv)

/-- **A tree of numerals** fails as the first of its constants that is refused. -/
theorem failsBy_iff (hnumerals : ∀ a ∈ e.subterms, a.op.HasNumeral) {g : Failure} :
    (∃ f, e.FailsBy nt f ∧ g = (Node.transformationFailure f).getD f) ↔
      ∃ pre v post, e.constants = pre ++ v :: post ∧ (∀ w ∈ pre, ∀ f, ¬ nt.Refuses w f) ∧
        nt.Refuses v g := by
  obtain ⟨hnumbers, hvs⟩ := numbers_eq_map_constants hnumerals
  simp only [FailsBy]
  rw [hnumbers, List.findSome?_map]
  constructor
  · rintro ⟨f, hf, rfl⟩
    obtain ⟨pre, v, post, hconstants, hv, hpre⟩ := List.findSome?_eq_some_iff.mp hf
    refine ⟨pre, v, post, hconstants, fun w hw => ?_, ?_⟩
    · have hnumeral := hvs w (by simp [hconstants, hw])
      exact (NumberType.failure?_eq_none_iff_forall hnumeral).mp (hpre w hw)
    · have hnumeral := hvs v (by simp [hconstants])
      have houtcome := NumberType.failure?_ok_eq_some_iff.mp hv
      exact (NumberType.refuses_iff hnumeral).mpr ⟨f, houtcome, rfl⟩
  · rintro ⟨pre, v, post, hconstants, hpre, hv⟩
    have hnumeral := hvs v (by simp [hconstants])
    obtain ⟨f, houtcome, rfl⟩ := (NumberType.refuses_iff hnumeral).mp hv
    refine ⟨f, List.findSome?_eq_some_iff.mpr ⟨pre, v, post, hconstants, ?_, fun w hw => ?_⟩, rfl⟩
    · exact NumberType.failure?_ok_eq_some_iff.mpr houtcome
    · have hnumeral := hvs w (by simp [hconstants, hw])
      exact (NumberType.failure?_eq_none_iff_forall hnumeral).mpr (hpre w hw)

/-! ### The quantization of a tree -/

/-- One step codes a constant and leaves every other operation as it is. -/
theorem quantizeStep_ends (hes : ∀ e ∈ es, e.Codable nt) (events : Array Event) :
    Ends (quantizeStep nt (node op (es.map (coded nt)))) events
      (fun e _ => e = (node op es).coded nt ∧ (node op es).Codable nt)
      fun f _ => (node op es).FailsBy nt f := by
  have hroot : (node op (es.map (coded nt))).op = op := rfl
  rw [quantizeStep, hroot]
  cases hop : op.number? with
  | none =>
    refine .pure ⟨(coded_of_number?_eq_none hop).symm, codable_node.mpr ⟨fun n hn => ?_, hes⟩⟩
    cases hop.symm.trans hn
  | some n =>
    refine (NumberType.quantizeNumber_ends nt n events).mono ?_ ?_
    · rintro e s ⟨v, c, rfl, hc, rfl⟩
      have hcoding := NumberType.coding?_of_codingOutcome hc
      refine ⟨(coded_of_number?_eq_some hop hcoding).symm, codable_node.mpr ⟨fun n hn => ?_, hes⟩⟩
      exact ⟨v, c, (Option.some.inj (hop.symm.trans hn)).symm, hc⟩
    · exact fun f s hf => .of_root hes hop hf

mutual

/-- **A tree is coded**, or it fails with the first of its numbers that has no coding. -/
theorem transformWith_quantizeStep_ends : ∀ (e : Expr) (events : Array Event),
    Ends (transformWith (quantizeStep nt) e) events
      (fun e' _ => e' = e.coded nt ∧ e.Codable nt) fun f _ => e.FailsBy nt f
  | node op es, events => by
    have hoperands := transformAllWith_quantizeStep_ends es events
    rw [transformWith]
    refine (hoperands.mono (fun es' s h => h) ?_).bind fun es' s ⟨hes', hes⟩ => ?_
    · rintro f s ⟨pre, e, post, rfl, hpre, hf⟩
      exact hf.of_operand hpre
    · subst hes'
      exact quantizeStep_ends hes s

/-- A list of trees is coded, or it fails as the first of them that fails. -/
theorem transformAllWith_quantizeStep_ends : ∀ (es : List Expr) (events : Array Event),
    Ends (transformAllWith (quantizeStep nt) es) events
      (fun es' _ => es' = es.map (coded nt) ∧ ∀ e ∈ es, e.Codable nt)
      fun f _ => ∃ pre e post, es = pre ++ e :: post ∧ (∀ a ∈ pre, a.Codable nt) ∧ e.FailsBy nt f
  | [], events => by
    rw [transformAllWith]
    exact .pure ⟨rfl, fun e he => absurd he List.not_mem_nil⟩
  | e :: es, events => by
    have hhead := transformWith_quantizeStep_ends e events
    rw [transformAllWith]
    refine (hhead.mono (fun e' s h => h) ?_).bind fun e' s ⟨he', hhead⟩ => ?_
    · exact fun f s hf => ⟨[], e, es, rfl, fun a ha => absurd ha List.not_mem_nil, hf⟩
    have htail := transformAllWith_quantizeStep_ends es s
    refine (htail.mono (fun es' s h => h) ?_).bind fun es' s ⟨hes', htail⟩ => .pure ⟨?_, ?_⟩
    · rintro f s ⟨pre, a, post, rfl, hpre, hf⟩
      exact ⟨e :: pre, a, post, rfl, List.forall_mem_cons.mpr ⟨hhead, hpre⟩, hf⟩
    · rw [he', hes', List.map_cons]
    · exact List.forall_mem_cons.mpr ⟨hhead, htail⟩

end

/-- A failure of the quantization of a number passes as it is, any other one as a failure of the
transformation; a value is the coded tree. -/
theorem quantize_ends (nt : NumberType) (e : Expr) (events : Array Event) :
    Ends (e.quantize nt) events (fun e' _ => e' = e.coded nt ∧ e.Codable nt)
      fun g _ => ∃ f, e.FailsBy nt f ∧ g = (Node.transformationFailure f).getD f := by
  refine (transformWith_quantizeStep_ends e events).tryCatch fun f s hf => ?_
  cases hg : Node.transformationFailure f with
  | none => exact .throw ⟨f, hf, by rw [hg, Option.getD_none]⟩
  | some g => exact .of_error rfl ⟨f, hf, by rw [hg, Option.getD_some]⟩

/-- **The quantization of a tree** gives the coded tree, or it fails as the first number that has no
coding. -/
theorem quantize_outcome_cases (nt : NumberType) (e : Expr) :
    ((e.quantize nt).outcome = .ok (e.coded nt) ∧ e.Codable nt) ∨
      ∃ f, (e.quantize nt).outcome = .error ((Node.transformationFailure f).getD f) ∧
        e.FailsBy nt f := by
  have hends := quantize_ends nt e #[]
  rw [Traced.outcome_eq]
  rcases hrun : runFrom (e.quantize nt) #[] with ⟨g | e', s⟩
  · obtain ⟨f, hf, rfl⟩ := hends.error hrun
    exact Or.inr ⟨f, rfl, hf⟩
  · obtain ⟨rfl, hcodable⟩ := hends.ok hrun
    exact Or.inl ⟨rfl, hcodable⟩

theorem quantize_outcome_eq_ok_iff {e' : Expr} :
    (e.quantize nt).outcome = .ok e' ↔ e.Codable nt ∧ e' = e.coded nt := by
  rcases quantize_outcome_cases nt e with ⟨hrun, hcodable⟩ | ⟨f, hrun, hf⟩
  · rw [hrun]
    exact ⟨fun h => ⟨hcodable, (Except.ok.inj h).symm⟩, fun h => by rw [h.2]⟩
  · rw [hrun]
    exact iff_of_false (fun h => by cases h) fun h => hf.not_codable h.1

theorem quantize_outcome_eq_error_iff {g : Failure} :
    (e.quantize nt).outcome = .error g ↔
      ∃ f, e.FailsBy nt f ∧ g = (Node.transformationFailure f).getD f := by
  refine eq_error_iff_failsBy (fun f => (Node.transformationFailure f).getD f) ?_
  exact (quantize_outcome_cases nt e).imp_left fun h => ⟨_, h⟩

end Expr

namespace Node

variable {nt : NumberType} {n k m : Node} {s : TransformState} {floor : Nat}

/-! ### The quantization of a graph -/

/-- One step codes a constant in fresh nodes and gives back every other node. -/
theorem quantizeStep_ends (nt : NumberType) (hfloor : floor ≤ s.next) {es : List Expr}
    (hk : k.erase = .node k.op (es.map (Expr.coded nt))) (hes : ∀ e ∈ es, e.Codable nt) :
    Ends (quantizeStep nt k) s
      (fun r s' => ∃ m, r = .node m ∧ m.erase = (Expr.node k.op es).coded nt ∧
        (m = k ∨ floor ≤ m.label) ∧ (Expr.node k.op es).Codable nt ∧
        s'.results = s.results ∧ s'.Extends s)
      fun f _ => (Expr.node k.op es).FailsBy nt f := by
  rw [quantizeStep]
  cases hop : k.op.number? with
  | none =>
    refine .pure ⟨k, rfl, ?_, Or.inl rfl, Expr.codable_node.mpr ⟨?_, hes⟩, rfl, .refl s⟩
    · rw [hk, Expr.coded_of_number?_eq_none hop]
    · intro n hn
      cases hop.symm.trans hn
  | some n =>
    have hnumber := TransformM.ofTraced_ends (s := s) (NumberType.quantizeNumber_ends nt n)
    refine (hnumber.mono (fun e s₁ h => h) fun f s₁ hf => Expr.FailsBy.of_root hes hop hf).bind
      fun e s₁ ⟨⟨v, c, hn, hc, he⟩, events, hs₁⟩ => ?_
    subst hs₁ hn
    have hlabels := (labels_ofExpr e s.next).1
    have hroot := (labels_ofExpr e s.next).2 _ (self_mem_subnodes _)
    have hfresh : runFrom (do
        let fresh ← TransformM.withLabels fun next => .ok (ofExpr e next)
        return Replacement.node fresh) { s with events := events } =
        (.ok (.node (ofExpr e s.next).1),
          { s with next := (ofExpr e s.next).2, events := events }) := by
      rw [runFrom_bind_ok (TransformM.runFrom_withLabels_ok rfl)]
      rfl
    · refine .of_ok hfresh ?_
      refine ⟨_, rfl, ?_, Or.inr (Nat.le_trans hfloor hroot.1), ?_, rfl, ?_⟩
      · have hcoding := NumberType.coding?_of_codingOutcome hc
        rw [erase_ofExpr, he, Expr.coded_of_number?_eq_some hop hcoding]
      · refine Expr.codable_node.mpr ⟨fun w hw => ⟨v, c, ?_, hc⟩, hes⟩
        exact (Option.some.inj (hop.symm.trans hw)).symm
      · exact ⟨Nat.le_of_lt hlabels, List.suffix_refl _, List.suffix_refl _⟩

/-- What is known of a node and its result: the expression of the node is codable, and the result
is a node with the coded expression, which is the node itself or a fresh one. -/
def CodedAs (nt : NumberType) (floor : Nat) (n : Node) (r : Replacement) : Prop :=
  ∃ m, r = .node m ∧ m.erase = n.erase.coded nt ∧ (m = n ∨ floor ≤ m.label) ∧
    n.erase.Codable nt

/-- What is known of the state between two visits: the free labels are fresh, and every result that
is kept is that of a node of the graph. -/
structure QuantizeInvariant (nt : NumberType) (root : Node) (floor : Nat) (s : TransformState) :
    Prop where
  floor_le : floor ≤ s.next
  results : ∀ label r, s.results.lookup label = some r →
    ∃ n ∈ root.subnodes, n.label = label ∧ CodedAs nt floor n r

/-- The results of the inputs of a node, taken together. -/
theorem exists_nodes_of_codedAs {ns : List Node} {rs : List Replacement}
    (h : List.Forall₂ (CodedAs nt floor) ns rs) :
    ∃ ms : List Node, rs = ms.map Replacement.node ∧
      ms.map erase = (ns.map erase).map (Expr.coded nt) ∧
      List.Forall₂ (fun old m => m = old ∨ floor ≤ m.label) ns ms ∧
      ∀ n ∈ ns, n.erase.Codable nt := by
  induction h with
  | nil => exact ⟨[], rfl, rfl, .nil, fun n hn => absurd hn List.not_mem_nil⟩
  | @cons n r ns rs hr _ ih =>
    obtain ⟨m, rfl, herase, hm, hhead⟩ := hr
    obtain ⟨ms, rfl, herases, hms, htail⟩ := ih
    refine ⟨m :: ms, rfl, ?_, .cons hm hms, fun k hk => ?_⟩
    · rw [List.map_cons, List.map_cons, List.map_cons, herase, herases]
    · rcases List.mem_cons.mp hk with rfl | hk
      · exact hhead
      · exact htail k hk

/-- **One visit** codes a node whose inputs are coded, and keeps the invariant. -/
theorem visit_quantizeStep_ends {root : Node} (hroot : root.Coherent floor)
    (hwf : root.erase.WellFormed) (hn : n ∈ root.subnodes)
    (hs : QuantizeInvariant nt root floor s) {rs : List Replacement}
    (hrs : List.Forall₂ (CodedAs nt floor) n.inputs rs) :
    Ends (visit (quantizeStep nt) n rs) s
      (fun r s' => QuantizeInvariant nt root floor s' ∧ s'.Extends s ∧ CodedAs nt floor n r)
      fun f _ => n.erase.FailsBy nt f := by
  obtain ⟨ms, rfl, herases, hms, hcodable⟩ := exists_nodes_of_codedAs hrs
  have hsub := erase_mem_subterms hn
  have herase := erase_eq n
  have harity : n.op.checkArity n.inputs.length = .ok () := by
    have h := (Expr.wellFormed_node.mp (herase ▸ hwf.of_mem_subterms hsub)).1
    rwa [List.length_map] at h
  have hold : ∀ m ∈ n.inputs, m.label < floor := fun m hm =>
    hroot.label_lt m (input_mem_subnodes hn hm)
  refine visit_ends (rebuild_ends hs.floor_le hold hms harity)
    fun k s₁ ⟨hk, hkn, hresults₁, hext₁⟩ => ?_
  rw [herases] at hk
  have hkop : k.op = n.op := by rw [← op_erase, hk]; rfl
  have hstep := quantizeStep_ends nt (s := { s₁ with calls := k :: s₁.calls })
    (Nat.le_trans hs.floor_le hext₁.next_le) (hkop ▸ hk) (List.forall_mem_map.mpr hcodable)
  rw [hkop, ← herase] at hstep
  refine hstep.mono (fun r s₂ ⟨m, hr, hm, hmk, hnode, hresults₂, hext₂⟩ => ?_) fun f s₂ h => h
  have hcoded : CodedAs nt floor n r := by
    refine ⟨m, hr, hm, ?_, hnode⟩
    rcases hmk with rfl | hmk
    · exact hkn
    · exact Or.inr hmk
  have hnext : s.next ≤ s₂.next := Nat.le_trans hext₁.next_le hext₂.next_le
  have hresults : s₂.results = s.results := hresults₂.trans hresults₁
  refine ⟨⟨Nat.le_trans hs.floor_le hnext, ?_⟩, ⟨hnext, ?_, ?_⟩, hcoded⟩
  · exact forall_lookup_cons (by rw [hresults]) hs.results ⟨n, hn, rfl, hcoded⟩
  · rw [hresults]
    exact List.suffix_cons _ _
  · exact hext₁.calls.trans ((List.suffix_cons _ _).trans hext₂.calls)

/-- A node fails as the first of its inputs that fails. -/
theorem failsBy_of_input {pre post : List Node} {rs : List Replacement} {f : Failure}
    (hinputs : n.inputs = pre ++ m :: post) (hpre : List.Forall₂ (CodedAs nt floor) pre rs)
    (hf : m.erase.FailsBy nt f) : n.erase.FailsBy nt f := by
  obtain ⟨-, -, -, -, hcodable⟩ := exists_nodes_of_codedAs hpre
  rw [erase_eq n, hinputs, List.map_append, List.map_cons]
  exact hf.of_operand (List.forall_mem_map.mpr hcodable)

/-- **The quantization of a graph** gives a node with the coded expression, or it fails as the first
number that has no coding. -/
theorem transformWith_quantizeStep_ends (nt : NumberType) (hn : n.Coherent floor)
    (hwf : n.erase.WellFormed) :
    Ends (transformWith (quantizeStep nt) n) (.start floor) (fun r _ => CodedAs nt floor n r)
      fun f _ => n.erase.FailsBy nt f := by
  have hstart : QuantizeInvariant nt n floor (.start floor) :=
    ⟨Nat.le_refl _, fun label r h => by cases h⟩
  have hrun := transformWith_ends (H := (· ∈ n.subnodes)) (J := QuantizeInvariant nt n floor)
    (P := fun n r _ => CodedAs nt floor n r) (E := fun n f _ => n.erase.FailsBy nt f)
    (fun m hm k hk => input_mem_subnodes hm hk)
    (fun m r s hm hs hlookup => by
      obtain ⟨m', hm', hlabel, hr⟩ := hs.results m.label r hlookup
      exact hn.eq_of_label m' hm' m hm hlabel ▸ hr)
    (fun m r s s' h _ => h)
    (fun m pre k post rs f s s' _ hinputs hpre hf => failsBy_of_input hinputs hpre hf)
    (fun m rs s hm hs hrs => visit_quantizeStep_ends hn hwf hm hs hrs)
    n (self_mem_subnodes n) (.start floor) hstart
  exact hrun.mono (fun r s h => h.2.2) fun f s h => h

/-- The whole quantization of a graph gives a node with the coded expression, or it fails. -/
theorem quantize_cases (nt : NumberType) (hn : n.Coherent floor) (hwf : n.erase.WellFormed) :
    (∃ m, (n.quantize nt floor).1 = .ok (.node m) ∧ m.erase = n.erase.coded nt ∧
      n.erase.Codable nt) ∨
    ∃ f, (n.quantize nt floor).1 = .error ((transformationFailure f).getD f) ∧
      n.erase.FailsBy nt f := by
  have hends := transformWith_quantizeStep_ends nt hn hwf
  rw [quantize, transform_fst]
  rcases hrun : runFrom (transformWith (quantizeStep nt) n) (.start floor) with ⟨f | r, s⟩
  · exact Or.inr ⟨f, rfl, hends.error hrun⟩
  · obtain ⟨m, rfl, hm, -, hcodable⟩ := hends.ok hrun
    exact Or.inl ⟨m, rfl, hm, hcodable⟩

/-- A graph that is quantized is codable, and its result has the coded expression. -/
theorem exists_of_quantize_eq_ok (hn : n.Coherent floor) (hwf : n.erase.WellFormed)
    {r : Replacement} (h : (n.quantize nt floor).1 = .ok r) :
    ∃ m, r = .node m ∧ m.erase = n.erase.coded nt ∧ n.erase.Codable nt := by
  rcases quantize_cases nt hn hwf with ⟨m, hrun, hm, hcodable⟩ | ⟨f, hrun, -⟩
  · exact ⟨m, Except.ok.inj (h.symm.trans hrun), hm, hcodable⟩
  · cases h.symm.trans hrun

/-- A graph fails as the first of its numbers that has no coding, and only so. -/
theorem quantize_eq_error_iff (hn : n.Coherent floor) (hwf : n.erase.WellFormed) {g : Failure} :
    (n.quantize nt floor).1 = .error g ↔
      ∃ f, n.erase.FailsBy nt f ∧ g = (transformationFailure f).getD f := by
  refine Expr.eq_error_iff_failsBy (fun f => (transformationFailure f).getD f) ?_
  exact (quantize_cases nt hn hwf).imp_left fun ⟨m, hrun, _, hcodable⟩ => ⟨.node m, hrun, hcodable⟩

/-- A node that is no constant is left alone. -/
theorem idleAt_quantizeStep (h : n.op.number? = none) : IdleAt (quantizeStep nt) n := by
  intro s
  refine ⟨s, ?_, rfl, .refl s⟩
  rw [quantizeStep, h]
  rfl

/-- **Quantization rewrites the constants and only them.** On a graph whose constants are numerals,
with all its sharing, it fails as the first constant that is refused, and only so. When no constant
has too many digits, it fails exactly if some constant is not finite or overflows, and names such a
constant. Otherwise it gives the expression with the codings in the places of the constants and
everything else as it was, in which no constant is left, so that quantizing once more, for any
number type, gives back the very node. The quantization of the tree agrees. -/
theorem quantize_rewrites_constants (nt : NumberType) (n : Node) (next : Nat)
    (hn : n.Coherent next) (hwf : n.erase.WellFormed)
    (hnumerals : ∀ a ∈ n.erase.subterms, a.op.HasNumeral) :
    (∀ g, (n.quantize nt next).1 = .error g ↔
      ∃ pre v post, n.erase.constants = pre ++ v :: post ∧
        (∀ w ∈ pre, ∀ f, ¬ nt.Refuses w f) ∧ nt.Refuses v g) ∧
    ((∀ v ∈ n.erase.constants, ∀ given, ¬ nt.Overlong v given) →
      ((∃ g, (n.quantize nt next).1 = .error g) ↔ ∃ v ∈ n.erase.constants, nt.Rejects v) ∧
      ∀ g, (n.quantize nt next).1 = .error g →
        ∃ v ∈ n.erase.constants, nt.Rejects v ∧ g = .quantization v.text) ∧
    (∀ r, (n.quantize nt next).1 = .ok r →
      ∃ m, r = .node m ∧ m.erase = n.erase.coded nt ∧
        (∀ a ∈ m.erase.subterms, a.op.number? = none) ∧
        ∀ nt' next', (m.quantize nt' next').1 = .ok (.node m)) ∧
    (∀ g, (n.erase.quantize nt).outcome = .error g ↔ (n.quantize nt next).1 = .error g) ∧
    (∀ e, (n.erase.quantize nt).outcome = .ok e ↔
      (∀ v ∈ n.erase.constants, ∀ g, ¬ nt.Refuses v g) ∧ e = n.erase.coded nt) := by
  have hfails : ∀ g, (n.quantize nt next).1 = .error g ↔
      ∃ pre v post, n.erase.constants = pre ++ v :: post ∧
        (∀ w ∈ pre, ∀ f, ¬ nt.Refuses w f) ∧ nt.Refuses v g := fun g =>
    (quantize_eq_error_iff hn hwf).trans (Expr.failsBy_iff hnumerals)
  refine ⟨hfails, fun hshort => ?_, fun r hr => ?_, fun g => ?_, fun e => ?_⟩
  · have hrejected : ∀ g, (n.quantize nt next).1 = .error g →
        ∃ v ∈ n.erase.constants, nt.Rejects v ∧ g = .quantization v.text := by
      intro g hg
      obtain ⟨pre, v, post, hconstants, -, hv⟩ := (hfails g).mp hg
      have hmem : v ∈ n.erase.constants := by simp [hconstants]
      cases hv with
      | rejected hreject _ => exact ⟨v, hmem, hreject, rfl⟩
      | overlong given hlong => exact absurd hlong (hshort v hmem given)
    refine ⟨⟨?_, ?_⟩, hrejected⟩
    · rintro ⟨g, hg⟩
      obtain ⟨v, hv, hreject, -⟩ := hrejected g hg
      exact ⟨v, hv, hreject⟩
    · rintro ⟨v, hv, hreject⟩
      cases hrun : (n.quantize nt next).1 with
      | error g => exact ⟨g, rfl⟩
      | ok r =>
        obtain ⟨m, -, -, hcodable⟩ := exists_of_quantize_eq_ok hn hwf hrun
        have hrefused := NumberType.Refuses.rejected hreject (hshort v hv)
        exact absurd hrefused ((Expr.codable_iff hnumerals).mp hcodable v hv _)
  · obtain ⟨m, rfl, hm, hcodable⟩ := exists_of_quantize_eq_ok hn hwf hr
    have hfree : ∀ a ∈ m.erase.subterms, a.op.number? = none := by
      rw [hm]
      exact fun a ha => hcodable.number?_eq_none ha
    refine ⟨m, rfl, hm, hfree, fun nt' next' => ?_⟩
    exact transform_idle (fun k hk => idleAt_quantizeStep (op_erase k ▸
      hfree _ (erase_mem_subterms hk))) _ _
  · rw [Expr.quantize_outcome_eq_error_iff, quantize_eq_error_iff hn hwf]
  · rw [Expr.quantize_outcome_eq_ok_iff, Expr.codable_iff hnumerals]

/-- A sum whose two operands are one node, a constant. -/
def sharedSum : Node :=
  mk 1 .addition [mk 0 (.constant (.integer 3)) [], mk 0 (.constant (.integer 3)) []]

theorem coherent_sharedSum : sharedSum.Coherent 2 := by
  constructor <;> simp [sharedSum, subnodes, subnodesAll, label]

/-- A constant on a shared node is coded in both places. -/
theorem quantize_sharedSum :
    ∃ m, (sharedSum.quantize ⟨.double, true⟩ 2).1 = .ok (.node m) ∧
      m.erase = .node .addition
        (List.replicate 2 (NumberType.literal ⟨.double, true⟩ 0x4008000000000000)) := by
  have hnumerals : ∀ a ∈ sharedSum.erase.subterms, a.op.HasNumeral := by
    simp [sharedSum, erase, eraseAll, Expr.subterms, Expr.subtermsAll, Expr.op, Op.HasNumeral,
      Number.IsNumeral]
  have hnumbers :
      sharedSum.erase.numbers.findSome? (NumberType.failure? ⟨.double, true⟩) = none := by
    decide +kernel
  have hcoding : NumberType.coding? ⟨.double, true⟩ (.integer 3) = some 0x4008000000000000 := by
    decide +kernel
  obtain ⟨-, -, hok, hagree, -⟩ :=
    quantize_rewrites_constants ⟨.double, true⟩ sharedSum 2 coherent_sharedSum rfl hnumerals
  cases hrun : (sharedSum.quantize ⟨.double, true⟩ 2).1 with
  | error g =>
    obtain ⟨f, hf, -⟩ := Expr.quantize_outcome_eq_error_iff.mp ((hagree g).mpr hrun)
    cases hnumbers.symm.trans hf
  | ok r =>
    obtain ⟨m, rfl, hm, -⟩ := hok r hrun
    refine ⟨m, rfl, hm.trans ?_⟩
    have hthree : (Expr.node (.constant (.integer 3)) []).coded ⟨.double, true⟩ =
        NumberType.literal ⟨.double, true⟩ 0x4008000000000000 :=
      Expr.coded_of_number?_eq_some rfl hcoding
    rw [sharedSum, erase_mk, Expr.coded_of_number?_eq_none rfl, List.map_map]
    simp only [List.map_cons, List.map_nil, Function.comp_apply, erase_mk, hthree]
    rfl

/-- A literal that overflows, with more digits than can be shown. -/
def hugeLiteral : Node := mk 0 (.constant (.literal "1e5000")) []

/-- It is rejected, but its quantization does not fail as one that names it. -/
theorem quantize_hugeLiteral :
    NumberType.Rejects ⟨.double, false⟩ (.literal "1e5000") ∧
      (hugeLiteral.quantize ⟨.double, false⟩ 1).1 =
        .error (.transformation (Failure.tooManyDigits none).message) := by
  have hcoherent : hugeLiteral.Coherent 1 := by
    constructor <;> simp [hugeLiteral, subnodes, subnodesAll, label]
  have hfails : hugeLiteral.erase.FailsBy ⟨.double, false⟩ (.tooManyDigits none) := by
    rw [Expr.FailsBy]
    decide +kernel
  have hvalue : (Number.literal "1e5000").toRat = .ok ((10 ^ 5000 : Nat) : Rat) := by
    decide +kernel
  have hoverflow : Precision.double.format.encode? ((10 ^ 5000 : Nat) : Rat) = none := by
    decide +kernel
  exact ⟨Or.inr ⟨_, hvalue, hoverflow⟩,
    (quantize_eq_error_iff hcoherent rfl).mpr ⟨_, hfails, rfl⟩⟩

end Node

end Elementary
